import Mathlib
import Stencil.Proofs.Node.Made

namespace Stencil

inductive Expr.Placed (source : List Char) (regions : List Region) : Expr → Prop
  | token {e : Expr} {r : Region} {t : Token} {ts : List Token} : r ∈ regions → !r.isText →
      Token.scan r.start r.content = .ok ts → t ∈ ts → e.MadeFrom t →
        Text.StandsAt source e.offset t.text.toList → Placed source regions e
  | otherwise {r : Region} : r ∈ regions → r.isTag → r.keyword = "else" →
      Text.StandsAt source r.keywordOffset r.keyword.toList →
        Placed source regions (.literal (.bool true) r.keywordOffset)

theorem Expr.Placed.isBoundary {source : List Char} {regions : List Region} {e : Expr}
    (h : e.Placed source regions) : Text.IsBoundary source e.offset := by
  cases h with
  | token _ _ _ _ _ ho => exact ho.isBoundary
  | otherwise _ _ _ ho => exact ho.isBoundary

namespace Instruction

variable {source : List Char} {regions : List Region} {r : Region} {i : Instruction} {offset : Nat}
  {ts : List Token}

theorem rooted_of_says (h : i.Says offset ts) (hi : i ≠ .otherwise offset) :
    ∀ e ∈ i.expressions, e.Rooted (· ∈ ts) := by
  have hread : ∀ {e : Expr}, e.ReadFrom ts → e.Rooted (· ∈ ts) := fun h => h.rooted fun t ht => ht
  cases h with
  | assign hv => exact List.forall_mem_singleton.2 (hread hv)
  | embed ha =>
      intro e he
      obtain ⟨a, hm, rfl⟩ := List.mem_map.1 he
      exact hread (ha a hm)
  | signal | newline | capture | finish => exact List.forall_mem_nil _
  | loop hs => exact List.forall_mem_singleton.2 (hread hs)
  | branch hc => exact List.forall_mem_singleton.2 (hread hc)
  | otherwiseIf hc => exact List.forall_mem_singleton.2 (hread hc)
  | otherwise => exact (hi rfl).elim

theorem placed_of_rooted {e : Expr} (hr : r ∈ regions) (hmarked : !r.isText) (hstands : r.StandsIn source)
    (hscan : Token.scan r.start r.content = .ok ts) (he : e.Rooted (· ∈ ts)) :
    ∀ p ∈ e.parts, p.Placed source regions := by
  intro p hp
  obtain ⟨t, ht, hmade⟩ := he p hp
  have htoken := (Token.scan_eq_ok_iff.1 hscan).standsAt hstands.content t ht
  exact .token hr hmarked hscan ht hmade (hmade.offset_eq ▸ htoken)

theorem placed_of_ofRegion (hr : r ∈ regions) (hstands : r.StandsIn source) (h : ofRegion r = .ok i) :
    ∀ e ∈ i.expressions, ∀ p ∈ e.parts, p.Placed source regions := by
  cases r with
  | text o cs =>
      obtain rfl := Except.ok.inj h
      exact List.forall_mem_nil _
  | output o cs =>
      obtain ⟨ts, hscan, h⟩ := Except.of_bind_ok h
      obtain ⟨e, he, h⟩ := Except.of_bind_ok h
      obtain rfl := Except.ok.inj h
      have hrooted : e.Rooted (· ∈ ts) := Expr.rooted_of_ofTokens he fun t ht => ht
      exact List.forall_mem_singleton.2 (placed_of_rooted hr rfl hstands hscan hrooted)
  | tag o cs =>
      rcases says_of_ofTag h with rfl | ⟨keyword, ts, hscan, hs⟩
      · exact List.forall_mem_nil _
      by_cases hi : i = .otherwise keyword.offset
      · subst hi
        obtain ⟨hkeyword, hoffset⟩ := (spelled_of_ofRegion h).1
        refine List.forall_mem_singleton.2 (List.forall_mem_singleton.2 ?_)
        rw [hoffset]
        exact .otherwise hr rfl hkeyword (hstands.keyword rfl)
      · intro e he
        have hrooted := rooted_of_says hs hi e he
        refine placed_of_rooted hr rfl hstands hscan fun p hp => ?_
        obtain ⟨t, ht, hmade⟩ := hrooted p hp
        exact ⟨t, List.mem_cons_of_mem keyword ht, hmade⟩
  | unclosedOutput | unclosedTag => cases h

end Instruction

theorem Node.placed_of_parseNodes {skipNewline : Bool} {source : String} {ns : List Node}
    (h : parseNodes skipNewline source = .ok ns) : ∀ n ∈ walkAll ns, ∀ e ∈ n.ownExpressions, ∀ p ∈ e.parts,
      p.Placed source.toList (Region.scan skipNewline 0 source.toList) := by
  obtain ⟨is, his, hd⟩ := exists_derives_of_parseNodes h
  have hplaced (i : Instruction) (hi : i ∈ is) : ∀ e ∈ i.expressions, ∀ p ∈ e.parts,
      p.Placed source.toList (Region.scan skipNewline 0 source.toList) := by
    obtain ⟨r, hr, hir⟩ := Except.exists_of_mem_mapM his hi
    exact Instruction.placed_of_ofRegion hr (Region.standsIn_of_scan hr) hir
  have hmakes := hd.makes fun i hi => by
    obtain ⟨r, -, hr⟩ := Except.exists_of_mem_mapM his hi
    exact ⟨Instruction.bare_of_ofRegion hr, hplaced i hi⟩
  intro n hn
  obtain ⟨i, hi, hin⟩ := hmakes.exists_of_mem hn
  exact hin.forall_ownExpressions (hplaced i hi)

end Stencil
