import Stencil.Proofs.Expr.Fault
import Stencil.Proofs.Expr.Fold
import Stencil.Proofs.Expr.Soundness

namespace Stencil

variable {l : List Nat}

theorem Operation.offsets_fold_subset {first : Expr} {chain : List Operation} (hf : first.offsets ⊆ l)
    (hc : ∀ o ∈ chain, o.offset ∈ l ∧ o.operand.offsets ⊆ l) : (fold first chain).offsets ⊆ l := by
  induction first, chain using fold.induct with
  | case1 first chain h => rwa [fold_of_none h]
  | case2 first chain before pivot after h _ ih_before ih_after =>
      rw [eq_append_of_splitLoosest h] at hc
      obtain ⟨hbefore, hpivot, hafter⟩ := by simpa only [List.forall_mem_append, List.forall_mem_cons] using hc
      rw [fold_of_some h, Expr.offsets, List.cons_subset, List.append_subset]
      exact ⟨hpivot.1, ih_before hf hbefore, ih_after hpivot.2 hafter⟩

namespace Expr

theorem Filters.offsets_subset {many : Bool} {e e' : Expr} {ts : List Token} (h : Filters many e ts e')
    (he : e.offsets ⊆ l) (hs : ts.map Token.offset ⊆ l) : e'.offsets ⊆ l := by
  induction h with
  | nil => exact he
  | bare _ _ _ ih =>
      simp only [List.map_cons, List.cons_subset] at hs
      exact ih (List.cons_subset.2 ⟨hs.2.1, he⟩) hs.2.2
  | applied _ _ _ _ _ ih =>
      simp only [List.map_cons, List.map_append, List.cons_subset, List.append_subset] at hs
      exact ih (List.cons_subset.2 ⟨hs.2.1, he⟩) hs.2.2.2.2

mutual

theorem Sentence.offsets_subset {many : Bool} {ts : List Token} {e : Expr} : Sentence many ts e →
    ts.map Token.offset ⊆ l → e.offsets ⊆ l
  | .chain hf hc hr => by
      intro hs
      simp only [List.map_append, List.append_subset] at hs
      exact hr.offsets_subset
        (Operation.offsets_fold_subset (hf.offsets_subset hs.1) (hc.offsets_subset hs.2.1)) hs.2.2

theorem Operations.offsets_subset {ts : List Token} {chain : List Operation} : Operations ts chain →
    ts.map Token.offset ⊆ l → ∀ o ∈ chain, o.offset ∈ l ∧ o.operand.offsets ⊆ l
  | .nil => fun _ => List.forall_mem_nil _
  | .cons _ _ ho hr => by
      intro hs
      simp only [List.map_cons, List.map_append, List.cons_subset, List.append_subset] at hs
      exact List.forall_mem_cons.2 ⟨⟨hs.1, ho.offsets_subset hs.2.1⟩, hr.offsets_subset hs.2.2⟩

theorem Operand.offsets_subset {ts : List Token} {e : Expr} : Operand ts e →
    ts.map Token.offset ⊆ l → e.offsets ⊆ l
  | .negation _ ho => by
      intro hs
      rw [List.map_cons, List.cons_subset] at hs
      exact List.cons_subset.2 ⟨hs.1, ho.offsets_subset hs.2⟩
  | .primary hp ha => by
      intro hs
      rw [List.map_append, List.append_subset] at hs
      exact ha.offsets_subset (hp.offsets_subset hs.1) hs.2

theorem Primary.offsets_subset {ts : List Token} {e : Expr} : Primary ts e →
    ts.map Token.offset ⊆ l → e.offsets ⊆ l
  | .variable _ => id
  | .literal _ => by
      intro hs
      exact List.cons_subset.2 ⟨(List.cons_subset.1 hs).1, List.nil_subset _⟩
  | .emptyArray _ _ => by
      intro hs
      exact List.cons_subset.2 ⟨(List.cons_subset.1 hs).1, List.nil_subset _⟩
  | .array _ _ hi => by
      intro hs
      simp only [List.map_cons, List.map_append, List.cons_subset, List.append_subset] at hs
      exact List.cons_subset.2 ⟨hs.1, hi.offsets_subset hs.2.1⟩

theorem Accesses.offsets_subset {e e' : Expr} {ts : List Token} : Accesses e ts e' →
    e.offsets ⊆ l → ts.map Token.offset ⊆ l → e'.offsets ⊆ l
  | .nil => fun he _ => he
  | .member _ _ hr => by
      intro he hs
      simp only [List.map_cons, List.cons_subset] at hs
      exact hr.offsets_subset (List.cons_subset.2 ⟨hs.2.1, he⟩) hs.2.2
  | .index _ _ hk hr => by
      intro he hs
      simp only [List.map_cons, List.map_append, List.cons_subset, List.append_subset] at hs
      have hkey := hk.offsets_subset hs.2.1
      exact hr.offsets_subset (List.cons_subset.2 ⟨hs.1, List.append_subset.2 ⟨he, hkey⟩⟩) hs.2.2.2

theorem Items.offsets_subset {ts : List Token} {es : List Expr} : Items ts es →
    ts.map Token.offset ⊆ l → offsetsAll es ⊆ l
  | .one h => by
      intro hs
      exact List.append_subset.2 ⟨h.offsets_subset hs, List.nil_subset _⟩
  | .more h _ hr => by
      intro hs
      simp only [List.map_cons, List.map_append, List.cons_subset, List.append_subset] at hs
      exact List.append_subset.2 ⟨h.offsets_subset hs.1, hr.offsets_subset hs.2.2⟩

end

theorem offsets_subset_of_ofTokens {ts : List Token} {stop : Nat} {e : Expr} (h : ofTokens ts stop = .ok e) :
    e.offsets ⊆ ts.map Token.offset :=
  (ofTokens_sound ts stop e h).offsets_subset (List.Subset.refl _)

end Expr

end Stencil
