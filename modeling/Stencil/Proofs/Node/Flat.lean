import Stencil.Proofs.Node.Marked
import Stencil.Node.Basic

namespace Stencil

def Region.Places (r : Region) (n : Node) : Prop :=
  Instruction.ofRegion r = .ok (.place n)

theorem Region.Yields.places {r : Region} {n : Node} (h : r.Yields n) : r.Places n := by
  cases h with
  | text => rfl
  | output hts he =>
      rw [Places, Instruction.ofRegion, hts]
      dsimp only [bind, Except.bind]
      rw [he]
      rfl

variable {regions : List Region} {ns before : List Node}

theorem Draft.foldlM_places (h : List.Forall₂ Region.Places regions ns) (before : List Node) :
    regions.foldlM Draft.step ⟨[], before⟩ = .ok ⟨[], before ++ ns⟩ := by
  induction h generalizing before with
  | nil =>
      rw [List.append_nil]
      rfl
  | @cons r n regions ns hr _ ih =>
      have hstep : Draft.step ⟨[], before⟩ r = .ok ⟨[], before ++ [n]⟩ := by
        rw [Draft.step, hr]
        rfl
      have hrest := ih (before ++ [n])
      rw [List.append_assoc] at hrest
      rw [List.foldlM_cons, hstep]
      exact hrest

theorem parseNodes_of_places {skip : Bool} {source : String}
    (h : List.Forall₂ Region.Places (Region.scan skip 0 source.toList) ns) : parseNodes skip source = .ok ns := by
  rw [parseNodes, Draft.empty, Draft.foldlM_places h]
  rfl

theorem Template.parse_of_places {options : ParserOptions} {text : String} (path : Option String)
    (h : List.Forall₂ Region.Places
      (Region.scan options.skipNewline 0 (Text.withUnixLines text).toList) ns)
    (hs : Node.stripAll false false ns = ns) :
    Template.parse options path text = .ok ⟨Text.withUnixLines text, path, ns⟩ := by
  have hparse : Template.parse options path text = .ok (if options.stripLayout
      then Template.stripLayout ⟨Text.withUnixLines text, path, ns⟩ else ⟨Text.withUnixLines text, path, ns⟩) := by
    simp only [Template.parse, parseNodes_of_places h]
  rw [hparse, Template.stripLayout]
  dsimp only
  rw [hs, ite_self]

theorem Template.exists_parseNodes_of_parse {options : ParserOptions} {path : Option String} {text : String}
    {t : Template} (h : Template.parse options path text = .ok t) :
    ∃ ns, parseNodes options.skipNewline (Text.withUnixLines text) = .ok ns := by
  simp only [Template.parse] at h
  split at h
  next ns hns => exact ⟨ns, hns⟩
  next => cases h

namespace Node

theorem stripText_false (s : String) : stripText s false false = s :=
  String.ofList_toList

/-- Without tags there is no layout around them. -/
theorem stripAll_of_tagless (h : ∀ n ∈ ns, n.isTag = false) : stripAll false false ns = ns := by
  induction ns with
  | nil => rfl
  | cons n ns ih =>
      obtain ⟨hn, hns⟩ := List.forall_mem_cons.1 h
      have hstarts : startsWithTag false ns = false := by
        cases ns with
        | nil => rfl
        | cons m ns => exact hns m List.mem_cons_self
      rw [stripAll, hstarts, hn, ih hns]
      cases n with
      | text s o => rw [strip, stripText_false]
      | output e => rfl
      | _ => cases hn

end Node

end Stencil
