import Stencil.Proofs.Expr.Placement
import Stencil.Proofs.Token.Moved

namespace Stencil

namespace Token

def Rejoined (t u : Token) : Prop :=
  u.unplaced = t.joined.unplaced

variable {t u : Token} {ts us : List Token}

theorem Rejoined.kind (h : Rejoined t u) : u.kind = t.kind :=
  (Token.mk.inj h).1.trans kind_joined

theorem Rejoined.text (h : Rejoined t u) (hk : t.kind ≠ .string) : u.text = t.text :=
  (Token.mk.inj h).2.1.trans (text_joined hk)

theorem alike_iff_rejoined : Alike (ts.map joined) us ↔ List.Forall₂ Rejoined ts us := by
  induction ts generalizing us with
  | nil => simp [Alike]
  | cons t ts ih =>
      cases us with
      | nil => simp [Alike]
      | cons u us => simp [← ih, Alike, Rejoined]

end Token

def Rewording.joined : Rewording where
  token := Token.Rejoined
  value _ _ := True
  expr _ _ := True
  kind_eq := Token.Rejoined.kind
  text_eq := Token.Rejoined.text
  unquoted _ := trivial
  value_refl _ := trivial
  value_array _ := trivial
  literal _ _ := trivial
  array _ _ := trivial
  «variable» _ := trivial
  member _ _ := trivial
  index _ _ _ := trivial
  binary _ _ _ := trivial
  negation _ _ := trivial
  pipe _ _ _ := trivial

namespace Expr

def ofText (offset : Nat) (cs : List Char) : Parsing Expr := do
  let tokens ← Token.scan offset cs
  ofTokens tokens (offset + Text.byteLength cs)

variable {ts us : List Token} {cs lead gap : List Char} {o : Nat} {e : Expr}

theorem of_ofText (h : ofText o cs = .ok e) : ∃ ts, Token.scan o cs = .ok ts ∧ Sentence true ts e := by
  obtain ⟨ts, hts, h⟩ := Except.of_bind_ok h
  exact ⟨ts, hts, ofTokens_ok_iff.1 h⟩

theorem ofText_of_sentence (hts : Token.scan o cs = .ok ts) (h : Sentence true ts e) : ofText o cs = .ok e := by
  rw [ofText, hts]
  exact ofTokens_ok_iff.2 h

theorem ofText_elsewhere (h : ofText o cs = .ok e) (hlead : ∀ x ∈ lead, Token.isSpace x)
    (hgap : ∀ x ∈ gap, Token.isSpace x) (o' : Nat) :
    ∃ us f, Token.scan o' (lead ++ (cs ++ gap)) = .ok us ∧ Sentence true us f ∧ f.unplaced = e.unplaced := by
  obtain ⟨ts, hts, hs⟩ := of_ofText h
  obtain ⟨us, hus, halike⟩ := Token.scan_elsewhere hts hlead hgap o'
  obtain ⟨f, hf, hunplaced⟩ := hs.elsewhere halike
  exact ⟨us, f, hus, hf, hunplaced⟩

theorem ofText_joinLineEnds (h : ofText o cs = .ok e) (o' : Nat) : ∃ f, ofText o' (Text.joinLineEnds cs) = .ok f := by
  obtain ⟨ts, hts, hs⟩ := of_ofText h
  obtain ⟨us, hus, halike⟩ := Token.scan_joinLineEnds hts o'
  obtain ⟨f, hf, -⟩ := @Sentence.reworded .joined true ts e hs us (Token.alike_iff_rejoined.1 halike)
  exact ⟨f, ofText_of_sentence hus hf⟩

end Expr

end Stencil
