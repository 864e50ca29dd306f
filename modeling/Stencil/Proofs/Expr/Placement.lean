import Stencil.Proofs.Expr.Reworded
import Stencil.Proofs.Token.Spacing

namespace Stencil

theorem Token.alike_iff {ts us : List Token} :
    Alike ts us ↔ List.Forall₂ (fun t u => u.unplaced = t.unplaced) ts us := by
  induction ts generalizing us with
  | nil => simp [Alike]
  | cons t ts ih => cases us <;> simp [← ih, Alike]

namespace Expr

mutual

def unplaced : Expr → Expr
  | .literal v _ => .literal v 0
  | .array items _ => .array (unplacedAll items) 0
  | .variable name _ => .variable name 0
  | .member e name _ => .member e.unplaced name 0
  | .index e key _ => .index e.unplaced key.unplaced 0
  | .binary op l r _ => .binary op l.unplaced r.unplaced 0
  | .negation e _ => .negation e.unplaced 0
  | .pipe e filter arguments _ => .pipe e.unplaced filter arguments 0

def unplacedAll : List Expr → List Expr
  | [] => []
  | e :: rest => e.unplaced :: unplacedAll rest

end

theorem unplacedAll_eq {es fs : List Expr} (h : List.Forall₂ (fun e f => f.unplaced = e.unplaced) es fs) :
    unplacedAll fs = unplacedAll es := by
  induction h with
  | nil => rfl
  | cons h _ ih => rw [unplacedAll, unplacedAll, h, ih]

end Expr

def Rewording.elsewhere : Rewording where
  token t u := u.unplaced = t.unplaced
  value := Eq
  expr e f := f.unplaced = e.unplaced
  kind_eq h := (Token.mk.inj h).1
  text_eq h _ := (Token.mk.inj h).2.1
  unquoted h := congrArg Value.string (Token.unquoted_congr (Token.mk.inj h).1 (Token.mk.inj h).2.1).symm
  value_refl := Eq.refl
  value_array := array_of_eq
  literal _ hv := hv ▸ rfl
  array _ hes := congrArg (Expr.array · 0) (Expr.unplacedAll_eq hes)
  «variable» _ := rfl
  member _ he := congrArg (Expr.member · _ 0) he
  index _ he hk := by rw [Expr.unplaced, Expr.unplaced, he, hk]
  binary _ hl hr := by rw [Expr.unplaced, Expr.unplaced, hl, hr]
  negation _ he := congrArg (Expr.negation · 0) he
  pipe _ he hvs := by
    rw [List.forall₂_eq_eq_eq] at hvs
    rw [Expr.unplaced, Expr.unplaced, he, hvs]

namespace Expr

variable {ts us : List Token} {e : Expr}

theorem Sentence.elsewhere {many : Bool} (h : Sentence many ts e) (hu : Token.Alike ts us) :
    ∃ f, Sentence many us f ∧ f.unplaced = e.unplaced :=
  @reworded .elsewhere many ts e h us (Token.alike_iff.1 hu)

def shape? (ts : List Token) (stop : Nat) : Option Expr :=
  (ofTokens ts stop).toOption.map unplaced

theorem shape?_eq_some_iff {stop : Nat} :
    shape? ts stop = some e ↔ ∃ f, Sentence true ts f ∧ f.unplaced = e := by
  simp only [← @ofTokens_ok_iff ts stop, shape?]
  cases ofTokens ts stop <;> simp [Except.toOption]

theorem shape?_elsewhere (h : Token.Alike ts us) (stop stop' : Nat) : shape? us stop' = shape? ts stop := by
  have himp {ts us : List Token} (h : Token.Alike ts us) (stop stop' : Nat) (e : Expr)
      (he : shape? ts stop = some e) : shape? us stop' = some e := by
    obtain ⟨f, hf, rfl⟩ := shape?_eq_some_iff.1 he
    exact shape?_eq_some_iff.2 (hf.elsewhere h)
  exact Option.ext fun e => ⟨himp h.symm stop' stop e, himp h stop stop' e⟩

end Expr

/-- The tokens of a span, written with other blanks between them and around them, are found again with their kinds
and texts. They are an expression just if they were one, and then the same, apart from offsets. -/
theorem tokenize_respaced {source : String} {start stop : Nat} {ts : List Token}
    (h : tokenize source start stop = .ok ts) {spaced : String} {start' stop' : Nat}
    (hs : Token.Spaced ts (Text.span spaced.toList start' stop')) :
    ∃ us, tokenize spaced start' stop' = .ok us ∧
      us.map (fun u => (u.kind, u.text)) = ts.map (fun t => (t.kind, t.text)) ∧
        ∀ n n', Expr.shape? us n' = Expr.shape? ts n := by
  obtain ⟨us, hus, halike⟩ := Token.scan_of_spaced hs (Token.lexical_of_scan h) start'
  refine ⟨us, hus, ?_, Expr.shape?_elsewhere halike⟩
  have hkeys := congrArg (List.map fun t => (t.kind, t.text)) halike
  rwa [List.map_map, List.map_map] at hkeys

def tightTokens : List Token :=
  [⟨.identifier, "a", 0⟩, ⟨.operator, "<=", 1⟩, ⟨.string, "'b c'", 3⟩, ⟨.operator, "-", 8⟩, ⟨.integer, "2", 9⟩]

theorem tokenize_respaced_tight :
    tokenize "a<='b c'-2" 0 10 = .ok tightTokens ∧
      Token.Spaced tightTokens (Text.span "\r\n a <= 'b c' - 2".toList 0 17) ∧
        ∃ us, tokenize "\r\n a <= 'b c' - 2" 0 17 = .ok us ∧
          us.map (fun u => (u.kind, u.text)) = tightTokens.map (fun t => (t.kind, t.text)) ∧
            Expr.shape? us 17 = Expr.shape? tightTokens 10 := by
  have h : tokenize "a<='b c'-2" 0 10 = .ok tightTokens := by decide +kernel
  have hline := Token.spaced_intercalate tightTokens
  have hspan : Text.span "\r\n a <= 'b c' - 2".toList 0 17 = "\r\n a <= 'b c' - 2".toList := rfl
  have hs : Token.Spaced tightTokens (Text.span "\r\n a <= 'b c' - 2".toList 0 17) := by
    rw [hspan]
    exact ((hline.blank (c := ' ') rfl).blank (c := '\n') rfl).blank (c := '\r') rfl
  obtain ⟨us, hus, hkeys, hshape⟩ := tokenize_respaced h hs
  exact ⟨h, hs, us, hus, hkeys, hshape 10 17⟩

end Stencil
