import Stencil.Proofs.Node.Nesting

namespace Stencil

namespace Node

mutual

def walk : Node → List Node
  | text s n => [text s n]
  | output e => [output e]
  | assign name value target n => [assign name value target n]
  | capture name body n => capture name body n :: walkAll body
  | loop name source body n => loop name source body n :: walkAll body
  | branch arms n => branch arms n :: walkArms arms
  | embed name arguments n => [embed name arguments n]
  | signal s n => [signal s n]
  | comment n => [comment n]
  | newline n => [newline n]

def walkAll : List Node → List Node
  | [] => []
  | n :: ns => walk n ++ walkAll ns

def walkArms : List (Expr × List Node) → List Node
  | [] => []
  | (_, body) :: rest => walkAll body ++ walkArms rest

end

theorem mem_walk (n : Node) : n ∈ walk n := by
  cases n <;> exact List.mem_cons_self

@[simp]
theorem walkArms_append (arms more : List (Expr × List Node)) :
    walkArms (arms ++ more) = walkArms arms ++ walkArms more := by
  induction arms with
  | nil => rfl
  | cons arm arms ih => rw [List.cons_append, walkArms, walkArms, ih, List.append_assoc]

theorem walkArms_singleton (condition : Expr) (body : List Node) :
    walkArms [(condition, body)] = walkAll body :=
  List.append_nil _

def leaves (ns : List Node) : List Node :=
  (walkAll ns).filter (!·.isTag)

@[simp]
theorem leaves_cons (n : Node) (ns : List Node) :
    leaves (n :: ns) = (walk n).filter (!·.isTag) ++ leaves ns := by
  rw [leaves, walkAll, List.filter_append, leaves]

theorem leaves_capture (name : String) (body ns : List Node) (o : Nat) :
    leaves (.capture name body o :: ns) = leaves body ++ leaves ns := by
  rw [leaves_cons, walk, List.filter_cons_of_neg (by simp [isTag])]
  rfl

theorem leaves_loop (name : String) (source : Expr) (body ns : List Node) (o : Nat) :
    leaves (.loop name source body o :: ns) = leaves body ++ leaves ns := by
  rw [leaves_cons, walk, List.filter_cons_of_neg (by simp [isTag])]
  rfl

theorem leaves_branch (arms : List (Expr × List Node)) (ns : List Node) (o : Nat) :
    leaves (.branch arms o :: ns) = (walkArms arms).filter (!·.isTag) ++ leaves ns := by
  rw [leaves_cons, walk, List.filter_cons_of_neg (by simp [isTag])]

end Node

def Instruction.leaves : Instruction → List Node
  | .place n => (Node.walk n).filter (!·.isTag)
  | .begin _ _ => []
  | .otherwiseIf _ _ => []
  | .otherwise _ => []
  | .finish _ _ => []

mutual

/-- The leaves of a tree come in the order of the instructions, whatever the blocks around them. -/
theorem Derives.leaves_eq {is : List Instruction} {ns : List Node} :
    Derives is ns → Node.leaves ns = is.flatMap Instruction.leaves
  | .nil => rfl
  | .place hr => by
      simp [hr.leaves_eq, Instruction.leaves]
  | .capture hb hr => by
      rw [Node.leaves_capture, hb.leaves_eq, hr.leaves_eq]
      simp [Instruction.leaves]
  | .loop hb hr => by
      rw [Node.leaves_loop, hb.leaves_eq, hr.leaves_eq]
      simp [Instruction.leaves]
  | .branch ha hr => by
      rw [Node.leaves_branch, Node.walkArms_append, ha.leaves_eq, hr.leaves_eq]
      simp [Instruction.leaves]

theorem DerivesArms.leaves_eq {first last : Expr} {hasElse : Bool} {is : List Instruction}
    {arms : List (Expr × List Node)} {body : List Node} :
    DerivesArms first hasElse is arms last body →
      (Node.walkArms arms ++ Node.walkArms [(last, body)]).filter (!·.isTag) =
        is.flatMap Instruction.leaves
  | .first hb => by
      rw [← hb.leaves_eq]
      simp [Node.walkArms, Node.leaves]
  | .elsif ha hb => by
      rw [Node.walkArms_append, List.filter_append, ha.leaves_eq]
      simp [Instruction.leaves, Node.walkArms, ← hb.leaves_eq, Node.leaves]
  | .otherwise ha hb => by
      rw [Node.walkArms_append, List.filter_append, ha.leaves_eq]
      simp [Instruction.leaves, Node.walkArms, ← hb.leaves_eq, Node.leaves]

end

theorem Region.exists_instructions {regions : List Region} {d d' : Draft}
    (h : regions.foldlM Draft.step d = .ok d') : ∃ is, regions.mapM Instruction.ofRegion = .ok is := by
  induction regions generalizing d with
  | nil => exact ⟨[], rfl⟩
  | cons r regions ih =>
      rw [List.foldlM_cons] at h
      obtain ⟨d₁, hr, h⟩ := Except.of_bind_ok h
      obtain ⟨i, hi, -⟩ := Except.of_bind_ok hr
      obtain ⟨is, his⟩ := ih h
      exact ⟨i :: is, by rw [List.mapM_cons, hi, his]; rfl⟩

/-- The instructions of a source that has nodes. -/
theorem exists_derives_of_parseNodes {skipNewline : Bool} {source : String} {ns : List Node}
    (h : parseNodes skipNewline source = .ok ns) :
    ∃ is, (Region.scan skipNewline 0 source.toList).mapM Instruction.ofRegion = .ok is ∧
      Derives is ns := by
  obtain ⟨⟨levels, nodes⟩, hrun, hfinish⟩ := Except.of_bind_ok h
  cases levels with
  | cons l levels => cases hfinish
  | nil =>
      obtain rfl := Except.ok.inj hfinish
      obtain ⟨is, his⟩ := Region.exists_instructions hrun
      rw [Region.foldlM_step_eq his] at hrun
      exact ⟨is, his, (run_empty_iff (Region.map_mark_eq his).2).1 hrun⟩

end Stencil
