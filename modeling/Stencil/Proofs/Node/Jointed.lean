import Mathlib.Data.List.Chain
import Stencil.Proofs.Node.Spots
import Stencil.Proofs.Text.Trims

namespace Stencil

def Text.Joins (cs? ds? : Option (List Char)) : Prop :=
  ∀ cs ∈ cs?, ∀ ds ∈ ds?, Abut cs ds

open Text (Joins)

namespace Region

def text? : Region → Option (List Char)
  | text _ cs => some cs
  | _ => none

variable {skip : Bool} {o : Nat} {cs : List Char}

theorem head?_scan : ∀ r ∈ (scan skip o cs).head?, ∀ ds ∈ r.text?, ds.head? = cs.head? := by
  fun_cases scan skip o cs with
  | case1 => nofun
  | case2 | case3 | case4 | case5 =>
      rintro r ⟨⟩
      nofun
  | case6 | case7 | case8 =>
      rintro r ⟨⟩ ds ⟨⟩
      rfl

theorem isChain_scan : ((scan skip o cs).map text?).IsChain Joins := by
  fun_induction scan skip o cs with
  | case1 => exact .nil
  | case2 | case4 | case7 => exact .singleton _
  | case3 o cs body rest hsplit _ ih | case5 o cs body rest hsplit _ _ next ih =>
      refine List.isChain_cons.2 ⟨?_, ih⟩
      rintro _ - _ ⟨⟩
  | case6 o c cs _ _ ih =>
      refine List.isChain_cons.2 ⟨?_, ih⟩
      -- this text is a brace, whatever comes behind it
      rintro _ - _ ⟨⟩ _ -
      exact .inl rfl
  | case8 o c cs _ _ _ run rest _ _ ih =>
      refine List.isChain_cons.2 ⟨?_, ih⟩
      -- this text ends before a brace, with which the next one begins
      rw [List.head?_map]
      intro _ hnext _ _ ds hds
      obtain ⟨r, hr, rfl⟩ := Option.mem_map.1 hnext
      have hhead := head?_scan r hr ds hds
      cases hrest : rest.head? with
      | none =>
          obtain hnil : rest = [] := List.head?_eq_none_iff.1 hrest
          rw [hnil, scan] at hr
          cases hr
      | some c =>
          have hbrace := List.head?_dropWhile_not (· ≠ '\x7b') cs
          rw [hrest] at hbrace
          obtain rfl : c = '\x7b' := by simpa using hbrace
          exact .inr (hhead.trans hrest)

end Region

namespace Node

def text? : Node → Option (List Char)
  | text s _ => some s.toList
  | _ => none

mutual

def Jointed : Node → Prop
  | capture _ body _ => JointedAll body
  | loop _ _ body _ => JointedAll body
  | branch arms _ => JointedArms arms
  | _ => True

def JointedAll : List Node → Prop
  | [] => True
  | n :: rest => Jointed n ∧ (∀ m ∈ rest.head?, Joins n.text? m.text?) ∧ JointedAll rest

def JointedArms : List (Expr × List Node) → Prop
  | [] => True
  | (_, body) :: rest => JointedAll body ∧ JointedArms rest

end

variable {ns : List Node} {arms more : List (Expr × List Node)}

theorem JointedArms.append (h : JointedArms arms) (h' : JointedArms more) : JointedArms (arms ++ more) := by
  induction arms with
  | nil => exact h'
  | cons arm arms ih => exact ⟨h.1, ih h.2⟩

theorem eq_nil_of_walkAll (h : walkAll ns = []) : ns = [] := by
  cases ns with
  | nil => rfl
  | cons n ns =>
      have hmem : n ∈ walkAll (n :: ns) := List.mem_append_left _ n.mem_walk
      rw [h] at hmem
      cases hmem

theorem jointedArms_of_walkArms (h : walkArms arms = []) : JointedArms arms := by
  induction arms with
  | nil => trivial
  | cons arm arms ih =>
      obtain ⟨hbody, hrest⟩ := List.append_eq_nil_iff.1 h
      obtain ⟨condition, body⟩ := arm
      obtain rfl := eq_nil_of_walkAll hbody
      exact ⟨trivial, ih hrest⟩

/-- In a node without others in it no texts are neighbours. -/
theorem jointed_of_walk {n : Node} (h : n.walk = [n]) : n.Jointed := by
  cases n with
  | capture name body o =>
      obtain rfl := eq_nil_of_walkAll (List.cons.inj h).2
      trivial
  | loop name source body o =>
      obtain rfl := eq_nil_of_walkAll (List.cons.inj h).2
      trivial
  | branch arms o => exact jointedArms_of_walkArms (List.cons.inj h).2
  | text | output | assign | embed | signal | comment | newline => trivial

theorem exists_trims_of_strip {n : Node} {after before : Bool} :
    ∀ ds ∈ (n.strip after before).text?, ∃ cs ∈ n.text?, Text.Trims after before cs ds := by
  cases n with
  | text s =>
      rintro _ ⟨⟩
      exact ⟨s.toList, rfl, Text.Trims.stripText s after before⟩
  | output | assign | capture | loop | branch | embed | signal | comment | newline => nofun

theorem joins_strip {n m : Node} {after before after' before' : Bool} (h : Joins n.text? m.text?) :
    Joins (n.strip after before).text? (m.strip after' before').text? := by
  intro cs' hcs' ds' hds'
  obtain ⟨cs, hcs, htrims⟩ := exists_trims_of_strip cs' hcs'
  obtain ⟨ds, hds, htrims'⟩ := exists_trims_of_strip ds' hds'
  exact htrims.abut htrims' (h cs hcs ds hds)

mutual

theorem Jointed.strip (after before : Bool) : {n : Node} → n.Jointed → (n.strip after before).Jointed
  | .text _ _, _ | .output _, _ | .assign _ _ _ _, _ | .embed _ _ _, _ | .signal _ _, _ | .comment _, _
  | .newline _, _ => trivial
  | .capture _ _ _, h | .loop _ _ _ _, h => JointedAll.stripAll true true h
  | .branch _ _, h => JointedArms.stripArms h

theorem JointedAll.stripAll (after ends : Bool) : {ns : List Node} → JointedAll ns →
    JointedAll (stripAll after ends ns)
  | [], _ => trivial
  | n :: rest, ⟨hn, hjoint, hrest⟩ => by
      refine ⟨hn.strip .., ?_, JointedAll.stripAll _ _ hrest⟩
      cases rest with
      | nil => nofun
      | cons m rest =>
          rintro _ ⟨⟩
          exact joins_strip (hjoint m rfl)

theorem JointedArms.stripArms : {arms : List (Expr × List Node)} → JointedArms arms →
    JointedArms (stripArms arms)
  | [], _ => trivial
  | (_, _) :: _, ⟨hbody, hrest⟩ => ⟨JointedAll.stripAll true true hbody, JointedArms.stripArms hrest⟩

end

end Node

namespace Instruction

def text? : Instruction → Option (List Char)
  | place n => n.text?
  | _ => none

theorem text?_of_ofRegion {r : Region} {i : Instruction} (h : ofRegion r = .ok i) : i.text? = r.text? := by
  cases r with
  | text o cs =>
      obtain rfl := Except.ok.inj h
      exact congrArg some String.toList_ofList
  | output o cs =>
      obtain ⟨_, _, h⟩ := Except.of_bind_ok h
      obtain ⟨_, _, h⟩ := Except.of_bind_ok h
      obtain rfl := Except.ok.inj h
      rfl
  | tag o cs =>
      rcases says_of_ofTag h with rfl | ⟨keyword, ts, -, hs⟩
      · rfl
      · cases hs <;> rfl
  | unclosedOutput | unclosedTag => cases h

theorem map_text?_of_mapM {regions : List Region} {is : List Instruction}
    (h : regions.mapM ofRegion = .ok is) : is.map text? = regions.map Region.text? := by
  induction regions generalizing is with
  | nil =>
      obtain rfl := Except.ok.inj h
      rfl
  | cons r regions ih =>
      obtain ⟨i, is, hi, his, rfl⟩ := Except.of_mapM_cons h
      rw [List.map_cons, List.map_cons, text?_of_ofRegion hi, ih his]

structure Sourced (is : List Instruction) : Prop where
  bare : ∀ i ∈ is, i.Bare
  joins : (is.map text?).IsChain Joins

variable {i j : Instruction} {is js : List Instruction}

theorem Sourced.split (h : Sourced (is ++ j :: js)) : Sourced is ∧ Sourced js := by
  obtain ⟨hbare, hjoins⟩ := h
  simp only [List.forall_mem_cons, List.forall_mem_append] at hbare
  rw [List.map_append, List.map_cons] at hjoins
  exact ⟨⟨hbare.1, hjoins.left_of_append⟩, ⟨hbare.2.2, hjoins.right_of_append.tail⟩⟩

theorem Sourced.tail (h : Sourced (i :: is)) : Sourced is :=
  ⟨(List.forall_mem_cons.1 h.bare).2, (List.isChain_cons.1 h.joins).2⟩

theorem Sourced.of_mapM {skip : Bool} {o : Nat} {cs : List Char}
    (h : (Region.scan skip o cs).mapM ofRegion = .ok is) : Sourced is where
  bare i hi := by
    obtain ⟨r, -, hir⟩ := Except.exists_of_mem_mapM h hi
    exact bare_of_ofRegion hir
  joins := by
    rw [map_text?_of_mapM h]
    exact Region.isChain_scan

end Instruction

theorem Derives.head?_map_text? {is : List Instruction} {ns : List Node} (h : Derives is ns) :
    ns.head?.map Node.text? = is.head?.map Instruction.text? := by
  cases h <;> rfl

mutual

/-- Neighbours in a tree come of neighbours among the instructions. -/
theorem Derives.jointed {is : List Instruction} {ns : List Node} :
    Derives is ns → Instruction.Sourced is → Node.JointedAll ns
  | .nil => fun _ => trivial
  | .place hr => by
      intro his
      refine ⟨Node.jointed_of_walk (List.forall_mem_cons.1 his.bare).1, fun m hm => ?_, hr.jointed his.tail⟩
      refine (List.isChain_cons.1 his.joins).1 m.text? ?_
      rw [List.head?_map, ← hr.head?_map_text?]
      exact Option.mem_map_of_mem Node.text? hm
  | .capture hb hr => by
      intro his
      obtain ⟨hinner, hrest⟩ := his.tail.split
      exact ⟨hb.jointed hinner, fun _ _ => nofun, hr.jointed hrest⟩
  | .loop hb hr => by
      intro his
      obtain ⟨hinner, hrest⟩ := his.tail.split
      exact ⟨hb.jointed hinner, fun _ _ => nofun, hr.jointed hrest⟩
  | .branch ha hr => by
      intro his
      obtain ⟨hinner, hrest⟩ := his.tail.split
      exact ⟨ha.jointed hinner, fun _ _ => nofun, hr.jointed hrest⟩

theorem DerivesArms.jointed {first last : Expr} {hasElse : Bool} {is : List Instruction}
    {arms : List (Expr × List Node)} {body : List Node} :
    DerivesArms first hasElse is arms last body → Instruction.Sourced is →
      Node.JointedArms (arms ++ [(last, body)])
  | .first hb => fun his => ⟨hb.jointed his, trivial⟩
  | .elsif ha hb => by
      intro his
      obtain ⟨hbefore, hbody⟩ := his.split
      exact (ha.jointed hbefore).append ⟨hb.jointed hbody, trivial⟩
  | .otherwise ha hb => by
      intro his
      obtain ⟨hbefore, hbody⟩ := his.split
      exact (ha.jointed hbefore).append ⟨hb.jointed hbody, trivial⟩

end

theorem jointed_of_parseNodes {skipNewline : Bool} {source : String} {ns : List Node}
    (h : parseNodes skipNewline source = .ok ns) : Node.JointedAll ns := by
  obtain ⟨is, his, hd⟩ := exists_derives_of_parseNodes h
  exact hd.jointed (.of_mapM his)

/-- In a template that was read from a text, a brace is at every joint of two texts. -/
theorem Template.Parsed.jointed {t : Template} (h : t.Parsed) : Node.JointedAll t.nodes :=
  h.forall_nodes (P := fun _ nodes => Node.JointedAll nodes) (fun _ _ _ => jointed_of_parseNodes)
    fun _ _ hjointed => hjointed.stripAll false false

end Stencil
