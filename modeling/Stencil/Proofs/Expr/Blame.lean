import Stencil.Proofs.Expr.Soundness

namespace Stencil

def Blames {α : Type} (P : Nat → Prop) (x : Parsing α) : Prop :=
  ∀ e, x = .error e → P e.offset

namespace Blames

variable {α β : Type} {P : Nat → Prop} {x : Parsing α} {f : α → Parsing β} {n : Nat}

theorem ok (a : α) : Blames P (.ok a : Parsing α) :=
  nofun

theorem fault (fault : ParseFault) (h : P n) : Blames P (.error (fault.at n) : Parsing α) := by
  rintro e ⟨⟩
  exact h

theorem bind (hx : Blames P x) (hf : ∀ a, x = .ok a → Blames P (f a)) : Blames P (x >>= f) := by
  intro e h
  rcases Except.of_bind_error h with h | ⟨a, ha, h⟩
  · exact hx e h
  · exact hf a ha e h

theorem check {c : Prop} [Decidable c] {fault : ParseFault} {y : Parsing β} (h : P n)
    (hy : ¬c → Blames P y) : Blames P (if c then throw (fault.at n) >>= f else y) := by
  split
  next => exact Blames.fault fault h
  next hc => exact hy hc

theorem mapM {as : List α} (hf : ∀ a ∈ as, Blames P (f a)) : Blames P (as.mapM f) := by
  induction as with
  | nil => exact ok []
  | cons a as ih =>
      obtain ⟨ha, has⟩ := List.forall_mem_cons.1 hf
      rw [List.mapM_cons]
      exact ha.bind fun b _ => (ih has).bind fun bs _ => ok _

end Blames

namespace Token

variable {P : Nat → Prop} {separator : TokenKind} {ts piece : List Token}

def Within (P : Nat → Prop) (ts : List Token) : Prop :=
  ∀ t ∈ ts, P t.offset

theorem subset_of_mem_splitAtDepth {depth : Nat} (h : piece ∈ splitAtDepth separator depth ts) : piece ⊆ ts := by
  induction ts generalizing depth piece with
  | nil =>
      rw [splitAtDepth, List.mem_singleton] at h
      exact h ▸ List.Subset.refl _
  | cons t ts ih =>
      rw [splitAtDepth] at h
      split at h
      · rcases List.mem_cons.1 h with rfl | h
        · exact List.nil_subset _
        · exact List.subset_cons_of_subset t (ih h)
      · cases hpieces : splitAtDepth separator (depthAfter depth t) ts with
        | nil => exact absurd hpieces (splitAtDepth_ne_nil _ _ _)
        | cons first more =>
            rw [hpieces, List.modifyHead_cons] at h
            rcases List.mem_cons.1 h with rfl | h
            · exact List.cons_subset_cons t (ih (hpieces ▸ List.mem_cons_self))
            · exact List.subset_cons_of_subset t (ih (hpieces ▸ List.mem_cons_of_mem first h))

theorem Within.cons {t : Token} (h : Within P (t :: ts)) : P t.offset ∧ Within P ts :=
  List.forall_mem_cons.1 h

theorem Within.of_piece (h : Within P ts) (hp : piece ∈ splitTopLevel separator ts) : Within P piece := by
  rw [splitTopLevel] at hp
  split at hp
  · cases hp
  · exact fun t ht => h t (subset_of_mem_splitAtDepth hp ht)

theorem Within.brackets {inner rest : List Token} {close : Token} (h : Within P ts)
    (hb : takeBracketed 0 ts = some (inner, close, rest)) :
    Within P inner ∧ P close.offset ∧ Within P rest := by
  rw [eq_append_of_takeBracketed hb] at h
  obtain ⟨hinner, hrest⟩ := List.forall_mem_append.1 h
  exact ⟨hinner, List.forall_mem_cons.1 hrest⟩

theorem Within.behind {front rest : List Token} (h : Within P ts) (hts : ts = front ++ rest) : Within P rest :=
  fun t ht => h t (hts ▸ List.mem_append_right front ht)

end Token

namespace Expr

open Token (Within)

variable {P : Nat → Prop} {t : Token} {ts : List Token} {n stop : Nat}

theorem blames_integerOf (k : Int) (h : P n) : Blames P (integerOf k n) := by
  rw [integerOf]
  split
  · exact .ok _
  · exact .fault _ h

theorem blames_literalValue (h : P t.offset) : Blames P (literalValue t) := by
  rw [literalValue]
  split
  · exact .ok _
  · exact blames_integerOf _ h
  · exact .ok _
  · exact .ok _

theorem blames_negative (ht : P t.offset) (hts : Within P ts) (hstop : P stop) :
    Blames P (negative t ts stop) := by
  cases ts with
  | nil => exact .fault _ hstop
  | cons digits ts =>
      rw [negative]
      split
      · exact (blames_integerOf _ ht).bind fun _ _ => .ok _
      · exact .fault _ (hts.cons).1

theorem blames_constant (ts : List Token) (stop : Nat) (hts : Within P ts) (hstop : P stop) :
    Blames P (constant ts stop) := by
  cases ts with
  | nil =>
      rw [constant]
      exact .fault _ hstop
  | cons t ts =>
      obtain ⟨ht, hts⟩ := hts.cons
      rw [constant]
      split
      · exact (blames_literalValue ht).bind fun _ _ => .ok _
      split
      · exact (blames_negative ht hts hstop).bind fun _ _ => .ok _
      split
      · split
        · exact .fault _ ht
        next inner close rest hb =>
          obtain ⟨hinner, hclose, -⟩ := hts.brackets hb
          have hlen := Token.length_of_takeBracketed hb
          refine Blames.bind (.mapM fun p _ => ?_) fun _ _ => .ok _
          obtain ⟨piece, hp⟩ := p
          have hpiece := Token.length_le_of_mem_splitTopLevel hp
          refine (blames_constant piece close.offset (hinner.of_piece hp) hclose).bind fun r hr => ?_
          obtain ⟨v, left⟩ := r
          obtain ⟨front, hfront, -⟩ := constant_sound piece close.offset v left hr
          have hleft := (hinner.of_piece hp).behind hfront
          dsimp only
          split
          · exact .ok _
          next extra more hmore =>
            rw [hmore] at hleft
            exact .fault _ (hleft extra List.mem_cons_self)
      · exact .fault _ ht
termination_by ts.length
decreasing_by
  subst_vars
  simp only [List.length_cons]
  omega

theorem blames_arguments (ts : List Token) (stop : Nat) (hts : Within P ts) (hstop : P stop) :
    Blames P (arguments ts stop) := by
  cases ts with
  | nil =>
      rw [arguments]
      exact .ok _
  | cons t ts =>
      rw [arguments]
      split
      · exact .ok _
      refine (blames_constant (t :: ts) stop hts hstop).bind fun r hr => ?_
      obtain ⟨v, left, hlen⟩ := r
      obtain ⟨front, hfront, -⟩ := constant_sound _ _ _ _ hr
      have hleft := hts.behind hfront
      cases left with
      | nil => exact .ok _
      | cons separator more =>
          obtain ⟨hseparator, hmore⟩ := hleft.cons
          dsimp only
          split
          · exact .ok _
          split
          · exact (blames_arguments more stop hmore hstop).bind fun _ _ => .ok _
          · exact .fault _ hseparator
termination_by ts.length
decreasing_by
  subst_vars
  simp only [List.length_cons] at hlen ⊢
  omega

theorem blames_pipeline (target : Expr) (ts : List Token) (stop : Nat) (hts : Within P ts) (hstop : P stop) :
    Blames P (pipeline target ts stop) := by
  cases ts with
  | nil =>
      rw [pipeline]
      exact .ok _
  | cons bar ts =>
      obtain ⟨hbar, hts⟩ := hts.cons
      rw [pipeline.eq_def]
      dsimp only
      split
      · exact .fault _ hbar
      cases ts with
      | nil => exact .fault _ hbar
      | cons name ts =>
          obtain ⟨hname, hts⟩ := hts.cons
          dsimp only
          split
          · exact .fault _ hbar
          cases ts with
          | nil => exact .ok _
          | cons next rest =>
              obtain ⟨hnext, hrest⟩ := hts.cons
              dsimp only
              split
              · exact blames_pipeline _ (next :: rest) stop hts hstop
              split
              · refine (blames_arguments rest stop hrest hstop).bind fun r hr => ?_
                obtain ⟨vs, left, hlen⟩ := r
                obtain ⟨front, hfront, -⟩ := arguments_sound rest stop vs ⟨left, hlen⟩ hr
                exact blames_pipeline _ left stop (hrest.behind hfront) hstop
              · exact .fault _ hnext
termination_by ts.length
decreasing_by
  all_goals subst_vars
  all_goals simp only [List.length_cons]
  all_goals omega

theorem blames_binaryOperator (ht : P t.offset) : Blames P (binaryOperator t) := by
  rw [binaryOperator]
  split
  · exact .fault _ ht
  split
  · exact .ok _
  · exact .fault _ ht

mutual

theorem blames_ofTokens (ts : List Token) (stop : Nat) (hts : Within P ts) (hstop : P stop) :
    Blames P (ofTokens ts stop) := by
  rw [ofTokens]
  refine .check hstop fun _ => ?_
  refine (blames_operand ts stop hts hstop).bind fun r hr => ?_
  obtain ⟨first, rest, hrest⟩ := r
  obtain ⟨front, hfront, -⟩ := operand_sound ts stop first ⟨rest, hrest⟩ hr
  have hts' := hts.behind hfront
  refine (blames_operations rest stop hts' hstop).bind fun r hr => ?_
  obtain ⟨chain, left⟩ := r
  obtain ⟨middle, hmiddle, -⟩ := operations_sound rest stop chain left hr
  exact blames_pipeline _ _ stop (hts'.behind hmiddle) hstop
termination_by (ts.length, 2)
decreasing_by
  · decreasing_tactic
  · exact Prod.Lex.left _ _ hrest

theorem blames_operations (ts : List Token) (stop : Nat) (hts : Within P ts) (hstop : P stop) :
    Blames P (operations ts stop) := by
  cases ts with
  | nil =>
      rw [operations]
      exact .ok _
  | cons t ts =>
      obtain ⟨ht, hts⟩ := hts.cons
      rw [operations]
      split
      · exact .ok _
      refine (blames_binaryOperator ht).bind fun op _ => ?_
      refine (blames_operand ts stop hts hstop).bind fun r hr => ?_
      obtain ⟨right, left, hlen⟩ := r
      obtain ⟨front, hfront, -⟩ := operand_sound ts stop right ⟨left, hlen⟩ hr
      exact (blames_operations left stop (hts.behind hfront) hstop).bind fun _ _ => .ok _
termination_by (ts.length, 0)
decreasing_by
  all_goals subst_vars
  all_goals simp only [Prod.lex_def, List.length_cons]
  all_goals omega

theorem blames_operand (ts : List Token) (stop : Nat) (hts : Within P ts) (hstop : P stop) :
    Blames P (operand ts stop) := by
  cases ts with
  | nil =>
      rw [operand]
      exact .fault _ hstop
  | cons t ts =>
      obtain ⟨ht, hts⟩ := hts.cons
      rw [operand]
      split
      · exact (blames_operand ts stop hts hstop).bind fun _ _ => .ok _
      split
      next hsign =>
        refine (blames_negative ht hts hstop).bind fun r hr => ?_
        obtain ⟨v, left, hlen⟩ := r
        rw [Bool.and_eq_true] at hsign
        obtain ⟨digits, hdigits, -⟩ := of_negative hsign.1 hr
        have hleft : Within P left := hts.behind (show ts = [digits] ++ left from hdigits)
        exact (blames_accesses _ left hleft).bind fun _ _ => .ok _
      split
      · exact (blames_accesses _ ts hts).bind fun _ _ => .ok _
      split
      · refine (blames_literalValue ht).bind fun v _ => ?_
        exact (blames_accesses _ ts hts).bind fun _ _ => .ok _
      split
      · split
        · exact .fault _ ht
        next inner close rest hb =>
          obtain ⟨hinner, hclose, hrest⟩ := hts.brackets hb
          have hlen := Token.length_of_takeBracketed hb
          refine Blames.bind (.mapM fun p _ => ?_) fun items _ => ?_
          · obtain ⟨piece, hp⟩ := p
            have hpiece := Token.length_le_of_mem_splitTopLevel hp
            exact blames_ofTokens piece close.offset (hinner.of_piece hp) hclose
          · exact (blames_accesses _ rest hrest).bind fun _ _ => .ok _
      · exact .fault _ ht
termination_by (ts.length, 1)
decreasing_by
  all_goals subst_vars
  all_goals simp only [Prod.lex_def, List.length_cons]
  all_goals omega

theorem blames_accesses (target : Expr) (ts : List Token) (hts : Within P ts) :
    Blames P (accesses target ts) := by
  cases ts with
  | nil =>
      rw [accesses]
      exact .ok _
  | cons t ts =>
      obtain ⟨ht, hts⟩ := hts.cons
      rw [accesses.eq_def]
      dsimp only
      split
      · cases ts with
        | nil => exact .fault _ ht
        | cons name ts =>
            dsimp only
            split
            · exact (blames_accesses _ ts hts.cons.2).bind fun _ _ => .ok _
            · exact .fault _ ht
      split
      · split
        · exact .fault _ ht
        next inner close rest hb =>
          obtain ⟨hinner, hclose, hrest⟩ := hts.brackets hb
          have hlen := Token.length_of_takeBracketed hb
          refine .check ht fun _ => ?_
          refine (blames_ofTokens inner close.offset hinner hclose).bind fun key _ => ?_
          exact (blames_accesses _ rest hrest).bind fun _ _ => .ok _
      · exact .ok _
termination_by (ts.length, 0)
decreasing_by
  all_goals subst_vars
  all_goals simp only [Prod.lex_def, List.length_cons]
  all_goals omega

end

end Expr

end Stencil
