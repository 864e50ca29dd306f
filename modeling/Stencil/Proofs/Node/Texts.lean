import Stencil.Proofs.Node.Tag
import Stencil.Template
import Stencil.Node.Basic

namespace Stencil

def TextChange : Type :=
  List Char → Nat → Option (List Char × Nat)

def TextChange.blank : TextChange :=
  fun _ n => some ([], n)

namespace Node

mutual

def retext (f : TextChange) : Node → Option Node
  | text s n => (f s.toList n).map fun (cs, o) => text (String.ofList cs) o
  | output e => some (output e)
  | assign name value target n => some (assign name value target n)
  | capture name body n => some (capture name (retextAll f body) n)
  | loop name source body n => some (loop name source (retextAll f body) n)
  | branch arms n => some (branch (retextArms f arms) n)
  | embed name arguments n => some (embed name arguments n)
  | signal s n => some (signal s n)
  | comment n => some (comment n)
  | newline n => some (newline n)

def retextAll (f : TextChange) : List Node → List Node
  | [] => []
  | n :: rest => (retext f n).toList ++ retextAll f rest

def retextArms (f : TextChange) : List (Expr × List Node) → List (Expr × List Node)
  | [] => []
  | (condition, body) :: rest => (condition, retextAll f body) :: retextArms f rest

end

variable {f : TextChange}

@[simp]
theorem retextAll_append (ns more : List Node) :
    retextAll f (ns ++ more) = retextAll f ns ++ retextAll f more := by
  induction ns with
  | nil => rfl
  | cons n ns ih => rw [List.cons_append, retextAll, retextAll, ih, List.append_assoc]

theorem retextAll_singleton (n : Node) : retextAll f [n] = (retext f n).toList :=
  List.append_nil _

@[simp]
theorem retextArms_append (arms more : List (Expr × List Node)) :
    retextArms f (arms ++ more) = retextArms f arms ++ retextArms f more := by
  induction arms with
  | nil => rfl
  | cons arm arms ih => rw [List.cons_append, retextArms, retextArms, ih, List.cons_append]

mutual

theorem retext_blank_strip (afterTag beforeTag : Bool) : (n : Node) →
    retext .blank (strip afterTag beforeTag n) = retext .blank n
  | text _ _ | output _ | assign _ _ _ _ | embed _ _ _ | signal _ _ | comment _ | newline _ => rfl
  | capture name body n => by rw [strip, retext, retext, retextAll_blank_stripAll true true body]
  | loop name source body n => by rw [strip, retext, retext, retextAll_blank_stripAll true true body]
  | branch arms n => by rw [strip, retext, retext, retextArms_blank_stripArms arms]

theorem retextAll_blank_stripAll (afterTag endsAtTag : Bool) : (ns : List Node) →
    retextAll .blank (stripAll afterTag endsAtTag ns) = retextAll .blank ns
  | [] => rfl
  | n :: rest => by
      rw [stripAll, retextAll, retextAll, retext_blank_strip _ _ n, retextAll_blank_stripAll _ _ rest]

theorem retextArms_blank_stripArms : (arms : List (Expr × List Node)) →
    retextArms .blank (stripArms arms) = retextArms .blank arms
  | [] => rfl
  | (condition, body) :: rest => by
      rw [stripArms, retextArms, retextArms, retextAll_blank_stripAll _ _ body,
        retextArms_blank_stripArms rest]

end

end Node

def Region.retext (f : TextChange) : Region → Option Region
  | .text o cs => (f cs o).map fun (cs, o) => .text o cs
  | .output o cs => some (.output o cs)
  | .tag o cs => some (.tag o cs)
  | .unclosedOutput o => some (.unclosedOutput o)
  | .unclosedTag o => some (.unclosedTag o)

def Block.retext (f : TextChange) : Block → Block
  | .capture name => .capture name
  | .loop name source => .loop name source
  | .branch arms condition isLast => .branch (Node.retextArms f arms) condition isLast

def Level.retext (f : TextChange) (l : Level) : Level :=
  ⟨l.block.retext f, l.offset, Node.retextAll f l.body⟩

def Instruction.IsTextFree : Instruction → Prop
  | .place n => ∀ f, n.retext f = some n
  | .begin block _ => ∀ f, block.retext f = block
  | _ => True

theorem Instruction.isTextFree_of_ofRegion {r : Region} {i : Instruction} (h : ofRegion r = .ok i)
    (hr : ∀ o cs, r ≠ .text o cs) : i.IsTextFree := by
  cases r with
  | text o cs => exact (hr o cs rfl).elim
  | output =>
      obtain ⟨ts, -, h⟩ := Except.of_bind_ok h
      obtain ⟨e, -, h⟩ := Except.of_bind_ok h
      cases h
      exact fun _ => rfl
  | tag =>
      rcases says_of_ofTag h with rfl | ⟨_, _, -, h⟩
      · exact fun _ => rfl
      · cases h with
        | assign | embed | signal | newline | capture | loop | branch => exact fun _ => rfl
        | otherwiseIf | otherwise | finish => trivial
  | unclosedOutput | unclosedTag => cases h

namespace Draft

variable {f : TextChange} {d : Draft}

def retext (f : TextChange) (d : Draft) : Draft :=
  ⟨d.levels.map (Level.retext f), Node.retextAll f d.nodes⟩

theorem retext_toNode (l : Level) : l.toNode.retext f = some (l.retext f).toNode := by
  obtain ⟨block, offset, body⟩ := l
  cases block with
  | capture | loop => rfl
  | branch arms condition isLast =>
      rw [Level.toNode, Node.retext, Node.retextArms_append]
      rfl

theorem retext_place (d : Draft) (n : Node) :
    (d.place n).retext f = ((n.retext f).map (d.retext f).place).getD (d.retext f) := by
  obtain ⟨levels, nodes⟩ := d
  cases levels with
  | nil =>
      rw [place, retext, Node.retextAll_append, Node.retextAll_singleton]
      cases n.retext f with
      | none => rw [Option.toList, List.append_nil]; rfl
      | some n => rfl
  | cons l rest =>
      rw [place, retext, List.map_cons, Level.retext, Node.retextAll_append, Node.retextAll_singleton]
      cases n.retext f with
      | none => rw [Option.toList, List.append_nil]; rfl
      | some n => rfl

theorem retext_nextArm (condition : Expr) (isLast : Bool) :
    (d.retext f).nextArm condition isLast = (d.nextArm condition isLast).map (retext f) := by
  obtain ⟨_ | ⟨⟨_ | _ | ⟨arms, current, _ | _⟩, offset, body⟩, rest⟩, nodes⟩ := d
  case cons.branch.false =>
    have harms : Node.retextArms f (arms ++ [(current, body)]) =
        Node.retextArms f arms ++ [(current, Node.retextAll f body)] := Node.retextArms_append ..
    simp only [nextArm, retext, List.map_cons, Level.retext, Block.retext, Option.map_some, harms]
    rfl
  all_goals rfl

theorem retext_close (kind : BlockKind) : (d.retext f).close kind = (d.close kind).map (retext f) := by
  obtain ⟨_ | ⟨l, rest⟩, nodes⟩ := d
  case nil => rfl
  case cons =>
    have hkind : (l.retext f).block.kind = l.block.kind := by
      obtain ⟨_ | _ | _, offset, body⟩ := l <;> rfl
    simp only [close, retext, List.map_cons, hkind]
    split
    · rw [Option.map_some, retext_place, retext_toNode]
      rfl
    · rfl

theorem retext_apply {i : Instruction} (hi : i.IsTextFree) :
    (d.retext f).apply i = (d.apply i).map (retext f) := by
  have hexpected : ∀ (keyword : String) (offset : Nat) (x : Option Draft),
      orUnexpected keyword offset (x.map (retext f)) = (orUnexpected keyword offset x).map (retext f) := by
    intro keyword offset x
    cases x <;> rfl
  cases i with
  | place n =>
      rw [apply, apply, Except.map, retext_place, hi f]
      rfl
  | begin block offset =>
      rw [apply, apply, Except.map, retext, retext, List.map_cons, Level.retext, hi f]
      rfl
  | otherwiseIf condition offset => rw [apply, apply, retext_nextArm, hexpected]
  | otherwise offset => rw [apply, apply, retext_nextArm, hexpected]
  | finish kind offset => rw [apply, apply, retext_close, hexpected]

theorem retext_step {r : Region} (hr : ∀ o cs, r ≠ .text o cs) :
    (d.retext f).step r = (d.step r).map (retext f) := by
  rw [step, step]
  cases h : Instruction.ofRegion r with
  | error e => rfl
  | ok i => exact retext_apply (Instruction.isTextFree_of_ofRegion h hr)

/-- A literal text is changed where it is placed. -/
theorem retext_foldlM (regions : List Region) (d : Draft) :
    (regions.filterMap (Region.retext f)).foldlM step (d.retext f) =
      (regions.foldlM step d).map (retext f) := by
  induction regions generalizing d with
  | nil => rfl
  | cons r rest ih =>
      rw [List.foldlM_cons]
      by_cases hr : ∃ o cs, r = .text o cs
      · obtain ⟨o, cs, rfl⟩ := hr
        have hplace : d.step (.text o cs) = .ok (d.place (.text (String.ofList cs) o)) := rfl
        rw [hplace]
        refine Eq.trans ?_ (ih _)
        rw [retext_place, Node.retext, String.toList_ofList]
        cases h : f cs o with
        | none =>
            have hnone : Region.retext f (.text o cs) = none := by rw [Region.retext, h, Option.map_none]
            rw [List.filterMap_cons_none hnone]
            rfl
        | some change =>
            have hsome : Region.retext f (.text o cs) = some (.text change.2 change.1) := by
              rw [Region.retext, h, Option.map_some]
            rw [List.filterMap_cons_some hsome, List.foldlM_cons]
            rfl
      · have hr : ∀ o cs, r ≠ .text o cs := fun o cs h => hr ⟨o, cs, h⟩
        have hretext : r.retext f = some r := by
          cases r with
          | text o cs => exact (hr o cs rfl).elim
          | output | tag | unclosedOutput | unclosedTag => rfl
        rw [List.filterMap_cons_some hretext, List.foldlM_cons, retext_step hr]
        cases d.step r with
        | error e => rfl
        | ok d' => exact ih d'

theorem retext_finish : (d.retext f).finish = d.finish.map (Node.retextAll f) := by
  obtain ⟨_ | ⟨⟨_ | _ | _, offset, body⟩, rest⟩, nodes⟩ := d <;> rfl

end Draft

end Stencil
