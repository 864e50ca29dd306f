import Mathlib.Data.List.Forall2
import Stencil.Node.Basic
import Stencil.Proofs.Node.Tag
import Stencil.Proofs.Node.Walk

namespace List.SublistForall₂

variable {α β γ : Type} {R : α → β → Prop} {S : β → γ → Prop} {T : α → γ → Prop}

theorem append {as as' : List α} {bs bs' : List β} (h : SublistForall₂ R as bs)
    (h' : SublistForall₂ R as' bs') : SublistForall₂ R (as ++ as') (bs ++ bs') := by
  obtain ⟨l, hl, hs⟩ := sublistForall₂_iff.1 h
  obtain ⟨l', hl', hs'⟩ := sublistForall₂_iff.1 h'
  exact sublistForall₂_iff.2 ⟨l ++ l', rel_append hl hl', hs.append hs'⟩

theorem comp {as : List α} {bs : List β} {cs : List γ} (h : SublistForall₂ R as bs)
    (h' : SublistForall₂ S bs cs) (hcomp : ∀ a b c, R a b → S b c → T a c) : SublistForall₂ T as cs := by
  induction h' generalizing as with
  | nil =>
      cases h
      exact .nil
  | cons hs _ ih =>
      cases h with
      | nil => exact .nil
      | cons hr h => exact .cons (hcomp _ _ _ hr hs) (ih h)
      | cons_right h => exact .cons_right (ih h)
  | cons_right _ ih => exact .cons_right (ih h)

theorem exists_of_mem {as : List α} {bs : List β} {a : α} (h : SublistForall₂ R as bs) (ha : a ∈ as) :
    ∃ b ∈ bs, R a b := by
  induction h with
  | nil => cases ha
  | cons hr _ ih =>
      rcases List.mem_cons.1 ha with rfl | ha
      · exact ⟨_, List.mem_cons_self, hr⟩
      · obtain ⟨b, hb, hab⟩ := ih ha
        exact ⟨b, List.mem_cons_of_mem _ hb, hab⟩
  | cons_right _ ih =>
      obtain ⟨b, hb, hab⟩ := ih ha
      exact ⟨b, List.mem_cons_of_mem _ hb, hab⟩

end List.SublistForall₂

namespace Stencil

namespace Node

def ownExpressions : Node → List Expr
  | text _ _ => []
  | output e => [e]
  | assign _ value _ _ => [value]
  | capture _ _ _ => []
  | loop _ source _ _ => [source]
  | branch arms _ => arms.map Prod.fst
  | embed _ arguments _ => arguments.map Prod.snd
  | signal _ _ => []
  | comment _ => []
  | newline _ => []

def IsStripped (n m : Node) : Prop :=
  ∃ afterTag beforeTag, n = m.strip afterTag beforeTag

theorem ownExpressions_strip (afterTag beforeTag : Bool) (n : Node) :
    (n.strip afterTag beforeTag).ownExpressions = n.ownExpressions := by
  have harms (arms : List (Expr × List Node)) : (stripArms arms).map Prod.fst = arms.map Prod.fst := by
    induction arms with
    | nil => rfl
    | cons arm arms ih => rw [stripArms, List.map_cons, List.map_cons, ih]
  cases n with
  | branch arms => exact harms arms
  | text | output | assign | capture | loop | embed | signal | comment | newline => rfl

mutual

theorem walk_strip (afterTag beforeTag : Bool) : (n : Node) →
    List.SublistForall₂ IsStripped (walk (strip afterTag beforeTag n)) (walk n)
  | text _ _ | output _ | assign _ _ _ _ | embed _ _ _ | signal _ _ | comment _ | newline _ =>
      .cons ⟨afterTag, beforeTag, rfl⟩ .nil
  | capture _ body _ => .cons ⟨afterTag, beforeTag, rfl⟩ (walkAll_stripAll true true body)
  | loop _ _ body _ => .cons ⟨afterTag, beforeTag, rfl⟩ (walkAll_stripAll true true body)
  | branch arms _ => .cons ⟨afterTag, beforeTag, rfl⟩ (walkArms_stripArms arms)

theorem walkAll_stripAll (afterTag endsAtTag : Bool) : (ns : List Node) →
    List.SublistForall₂ IsStripped (walkAll (stripAll afterTag endsAtTag ns)) (walkAll ns)
  | [] => .nil
  | n :: rest => (walk_strip afterTag (startsWithTag endsAtTag rest) n).append
      (walkAll_stripAll n.isTag endsAtTag rest)

theorem walkArms_stripArms : (arms : List (Expr × List Node)) →
    List.SublistForall₂ IsStripped (walkArms (stripArms arms)) (walkArms arms)
  | [] => .nil
  | (_, body) :: rest => (walkAll_stripAll true true body).append (walkArms_stripArms rest)

end

end Node

namespace Instruction

def expressions : Instruction → List Expr
  | place n => n.ownExpressions
  | begin (.capture _) _ => []
  | begin (.loop _ source) _ => [source]
  | begin (.branch _ condition _) _ => [condition]
  | otherwiseIf condition _ => [condition]
  | otherwise offset => [.literal (.bool true) offset]
  | finish _ _ => []

def Bare : Instruction → Prop
  | .place n => n.walk = [n]
  | _ => True

inductive Makes (C : Expr → Prop) : Instruction → Node → Prop
  | place {n : Node} : Makes C (.place n) n
  | capture {name : String} {body : List Node} {o : Nat} :
      Makes C (.begin (.capture name) o) (.capture name body o)
  | loop {name : String} {source : Expr} {body : List Node} {o : Nat} :
      Makes C (.begin (.loop name source) o) (.loop name source body o)
  | branch {condition : Expr} {arms : List (Expr × List Node)} {o : Nat} : (∀ arm ∈ arms, C arm.1) →
      Makes C (.begin (.branch [] condition false) o) (.branch arms o)

variable {C : Expr → Prop} {i : Instruction} {n : Node} {r : Region}

theorem Makes.forall_ownExpressions (h : i.Makes C n) (hC : ∀ e ∈ i.expressions, C e) :
    ∀ e ∈ n.ownExpressions, C e := by
  cases h with
  | place => exact hC
  | capture => exact List.forall_mem_nil _
  | loop => exact hC
  | branch harms =>
      intro e he
      obtain ⟨arm, harm, rfl⟩ := List.mem_map.1 he
      exact harms arm harm

theorem bare_of_ofRegion (h : ofRegion r = .ok i) : i.Bare := by
  cases r with
  | text o cs =>
      obtain rfl := Except.ok.inj h
      rfl
  | output o cs =>
      obtain ⟨_, _, h⟩ := Except.of_bind_ok h
      obtain ⟨_, _, h⟩ := Except.of_bind_ok h
      obtain rfl := Except.ok.inj h
      rfl
  | tag o cs =>
      rcases says_of_ofTag h with rfl | ⟨keyword, ts, -, hs⟩
      · rfl
      · cases hs with
        | assign | embed | signal | newline => rfl
        | capture | loop | branch | otherwiseIf | otherwise | finish => trivial
  | unclosedOutput | unclosedTag => cases h

end Instruction

variable {C : Expr → Prop}

theorem makes_arm {R : Node → Instruction → Prop} {i : Instruction} {is js : List Instruction}
    {arms : List (Expr × List Node)} {condition : Expr} {body : List Node}
    (ha : (∀ arm ∈ arms, C arm.1) ∧ List.SublistForall₂ R (Node.walkArms arms) is) (hc : C condition)
    (hb : List.SublistForall₂ R (Node.walkAll body) js) :
    (∀ arm ∈ arms ++ [(condition, body)], C arm.1) ∧
      List.SublistForall₂ R (Node.walkArms (arms ++ [(condition, body)])) (is ++ i :: js) := by
  rw [Node.walkArms_append, Node.walkArms_singleton]
  exact ⟨List.forall_mem_append.2 ⟨ha.1, List.forall_mem_singleton.2 hc⟩, ha.2.append (.cons_right hb)⟩

mutual

theorem Derives.makes {is : List Instruction} {ns : List Node} : Derives is ns →
    (∀ i ∈ is, i.Bare ∧ ∀ e ∈ i.expressions, C e) →
      List.SublistForall₂ (fun n i => i.Makes C n) (Node.walkAll ns) is
  | .nil => fun _ => .nil
  | @Derives.place n _ _ hr => by
      intro his
      obtain ⟨hn, his⟩ := List.forall_mem_cons.1 his
      rw [Node.walkAll, show n.walk = [n] from hn.1]
      exact .cons .place (hr.makes his)
  | .capture hb hr => by
      intro his
      simp only [List.forall_mem_cons, List.forall_mem_append] at his
      exact .cons .capture ((hb.makes his.2.1).append (.cons_right (hr.makes his.2.2.2)))
  | .loop hb hr => by
      intro his
      simp only [List.forall_mem_cons, List.forall_mem_append] at his
      exact .cons .loop ((hb.makes his.2.1).append (.cons_right (hr.makes his.2.2.2)))
  | .branch ha hr => by
      intro his
      simp only [List.forall_mem_cons, List.forall_mem_append] at his
      obtain ⟨hconditions, hbodies⟩ := ha.makes (List.forall_mem_singleton.1 his.1.2) his.2.1
      exact .cons (.branch hconditions) (hbodies.append (.cons_right (hr.makes his.2.2.2)))

theorem DerivesArms.makes {first last : Expr} {hasElse : Bool} {is : List Instruction}
    {arms : List (Expr × List Node)} {body : List Node} :
    DerivesArms first hasElse is arms last body → C first →
      (∀ i ∈ is, i.Bare ∧ ∀ e ∈ i.expressions, C e) →
        (∀ arm ∈ arms ++ [(last, body)], C arm.1) ∧
          List.SublistForall₂ (fun n i => i.Makes C n) (Node.walkArms (arms ++ [(last, body)])) is
  | .first hb => by
      intro hfirst his
      rw [List.nil_append, Node.walkArms_singleton]
      exact ⟨List.forall_mem_singleton.2 hfirst, hb.makes his⟩
  | .elsif ha hb => by
      intro hfirst his
      simp only [List.forall_mem_cons, List.forall_mem_append] at his
      exact makes_arm (ha.makes hfirst his.1) (List.forall_mem_singleton.1 his.2.1.2) (hb.makes his.2.2)
  | .otherwise ha hb => by
      intro hfirst his
      simp only [List.forall_mem_cons, List.forall_mem_append] at his
      exact makes_arm (ha.makes hfirst his.1) (List.forall_mem_singleton.1 his.2.1.2) (hb.makes his.2.2)

end

end Stencil
