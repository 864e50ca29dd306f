import Stencil.Proofs.Node.Jointed
import Stencil.Proofs.Node.Thinned

namespace Stencil

open Text (Joins Trims)

namespace Node

def prepend : Node → List Node → List Node
  | text s k, text u _ :: rest => text (s ++ u) k :: rest
  | n, rest => n :: rest

mutual

def joined : Node → Node
  | capture name body k => capture name (joinAll body) k
  | loop name source body k => loop name source (joinAll body) k
  | branch arms k => branch (joinArms arms) k
  | n => n

def joinAll : List Node → List Node
  | [] => []
  | n :: rest => prepend (joined n) (joinAll rest)

def joinArms : List (Expr × List Node) → List (Expr × List Node)
  | [] => []
  | (condition, body) :: rest => (condition, joinAll body) :: joinArms rest

end

mutual

inductive Trimmed : Node → Node → Prop
  | plain {n : Node} (ht : n.text? = none) (hw : n.walk = [n]) : Trimmed n n
  | capture (name : String) {body body' : List Node} (h : TrimmedAll true true body body') (k : Nat) :
      Trimmed (capture name body k) (capture name body' k)
  | loop (name : String) (source : Expr) {body body' : List Node} (h : TrimmedAll true true body body') (k : Nat) :
      Trimmed (loop name source body k) (loop name source body' k)
  | branch {arms arms' : List (Expr × List Node)} (h : TrimmedArms arms arms') (k : Nat) :
      Trimmed (branch arms k) (branch arms' k)

/-- What nodes lose where each text is a whole run: its layout in front if that is behind a tag or opens a body,
then its indent at the back if that is before a tag or ends a body. -/
inductive TrimmedAll : Bool → Bool → List Node → List Node → Prop
  | nil {opens ends : Bool} : TrimmedAll opens ends [] []
  | text {opens ends : Bool} {s s' : String} {rest rest' : List Node} (hrun : ∀ m ∈ rest.head?, m.text? = none)
      (hs : Trims opens (startsWithTag ends rest) s.toList s'.toList) (hr : TrimmedAll false ends rest rest')
      (k : Nat) : TrimmedAll opens ends (text s k :: rest) (text s' k :: rest')
  | node {opens ends : Bool} {n n' : Node} {rest rest' : List Node} (h : Trimmed n n')
      (hr : TrimmedAll n.isTag ends rest rest') : TrimmedAll opens ends (n :: rest) (n' :: rest')

inductive TrimmedArms : List (Expr × List Node) → List (Expr × List Node) → Prop
  | nil : TrimmedArms [] []
  | cons (condition : Expr) {body body' : List Node} {rest rest' : List (Expr × List Node)}
      (h : TrimmedAll true true body body') (hr : TrimmedArms rest rest') :
      TrimmedArms ((condition, body) :: rest) ((condition, body') :: rest')

end

variable {n : Node} {ns : List Node} {opens ends : Bool}

theorem isTag_strip (after before : Bool) (n : Node) : (n.strip after before).isTag = n.isTag := by
  cases n <;> rfl

theorem isTag_joined (n : Node) : n.joined.isTag = n.isTag := by
  cases n <;> rfl

theorem text?_joined (n : Node) : n.joined.text? = n.text? := by
  cases n <;> rfl

theorem startsWithTag_stripAll (ends after ends' : Bool) (ns : List Node) :
    startsWithTag ends (stripAll after ends' ns) = startsWithTag ends ns := by
  cases ns with
  | nil => rfl
  | cons n ns => exact isTag_strip ..

theorem startsWithTag_prepend (ends : Bool) (n : Node) (ns : List Node) :
    startsWithTag ends (prepend n ns) = n.isTag := by
  fun_cases prepend n ns <;> rfl

theorem startsWithTag_joinAll (ends : Bool) (ns : List Node) :
    startsWithTag ends (joinAll ns) = startsWithTag ends ns := by
  cases ns with
  | nil => rfl
  | cons n ns => rw [joinAll, startsWithTag_prepend, isTag_joined, startsWithTag]

theorem prepend_of_text? (h : n.text? = none) (ns : List Node) : prepend n ns = n :: ns := by
  cases n with
  | text => cases h
  | output | assign | capture | loop | branch | embed | signal | comment | newline => rfl

theorem exists_prefix_of_prepend : ∀ m ∈ (prepend n ns).head?, ∀ cs ∈ m.text?, ∃ ds ∈ n.text?, ds <+: cs := by
  fun_cases prepend n ns with
  | case1 s k u l rest =>
      rintro m ⟨⟩ cs ⟨⟩
      rw [String.toList_append]
      exact ⟨s.toList, rfl, List.prefix_append _ _⟩
  | case2 =>
      rintro m ⟨⟩ cs hcs
      exact ⟨cs, hcs, List.prefix_rfl⟩

theorem exists_prefix_of_joinAll : ∀ m ∈ (joinAll ns).head?, ∀ cs ∈ m.text?,
    ∃ m' ∈ ns.head?, ∃ ds ∈ m'.text?, ds <+: cs := by
  cases ns with
  | nil => nofun
  | cons n ns =>
      intro m hm cs hcs
      refine ⟨n, rfl, ?_⟩
      rw [← text?_joined]
      exact exists_prefix_of_prepend m hm cs hcs

theorem joins_joinAll {cs? : Option (List Char)} (h : ∀ m ∈ ns.head?, Joins cs? m.text?) :
    ∀ m ∈ (joinAll ns).head?, Joins cs? m.text? := by
  intro m hm cs hcs ds hds
  obtain ⟨m', hm', es, hes, hprefix⟩ := exists_prefix_of_joinAll m hm ds hds
  exact (h m' hm' cs hcs es hes).extend hprefix

theorem prepend_strip (h : ∀ m ∈ ns.head?, Joins n.text? m.text?) :
    prepend (n.strip opens (startsWithTag ends ns)) (stripAll n.isTag ends ns) =
      stripAll opens ends (prepend n ns) := by
  cases n with
  | text s k =>
      cases ns with
      | nil => rfl
      | cons m rest =>
          cases m with
          | text u l =>
              -- neither text is next to a tag at the joint, so each is trimmed at its outer end
              have hs := Trims.stripText s opens false
              have hu := Trims.stripText u false (startsWithTag ends rest)
              have hboth := hs.append hu (h _ rfl _ rfl _ rfl)
              rw [← String.toList_append, ← String.toList_append, Trims.iff_stripText, String.toList_inj] at hboth
              exact congrArg (text · k :: stripAll false ends rest) hboth.symm
          | output | assign | capture | loop | branch | embed | signal | comment | newline => rfl
  | output | assign | capture | loop | branch | embed | signal | comment | newline => rfl

mutual

theorem Jointed.joined_strip (after before : Bool) : {n : Node} → n.Jointed →
    (n.strip after before).joined = n.joined.strip after before
  | .text _ _, _ | .output _, _ | .assign _ _ _ _, _ | .embed _ _ _, _ | .signal _ _, _ | .comment _, _
  | .newline _, _ => rfl
  | .capture name body k, h => by
      rw [Node.strip, joined, joined, Node.strip, JointedAll.joinAll_stripAll true true h]
  | .loop name source body k, h => by
      rw [Node.strip, joined, joined, Node.strip, JointedAll.joinAll_stripAll true true h]
  | .branch arms k, h => by rw [Node.strip, joined, joined, Node.strip, JointedArms.joinArms_stripArms h]

theorem JointedAll.joinAll_stripAll (opens ends : Bool) : {ns : List Node} → JointedAll ns →
    joinAll (Node.stripAll opens ends ns) = Node.stripAll opens ends (joinAll ns)
  | [], _ => rfl
  | n :: rest, ⟨hn, hjoint, hrest⟩ => by
      have hjoint' : ∀ m ∈ (joinAll rest).head?, Joins n.joined.text? m.text? := by
        rw [text?_joined]
        exact joins_joinAll hjoint
      rw [Node.stripAll, joinAll, joinAll, hn.joined_strip, JointedAll.joinAll_stripAll _ _ hrest,
        ← startsWithTag_joinAll, ← isTag_joined, prepend_strip hjoint']

theorem JointedArms.joinArms_stripArms : {arms : List (Expr × List Node)} → JointedArms arms →
    joinArms (Node.stripArms arms) = Node.stripArms (joinArms arms)
  | [], _ => rfl
  | (_, _) :: _, ⟨hbody, hrest⟩ => by
      rw [Node.stripArms, joinArms, joinArms, Node.stripArms, JointedAll.joinAll_stripAll true true hbody,
        JointedArms.joinArms_stripArms hrest]

end

theorem exists_eq_text {cs : List Char} (h : n.text? = some cs) : ∃ s k, n = text s k := by
  cases n with
  | text s k => exact ⟨s, k, rfl⟩
  | output | assign | capture | loop | branch | embed | signal | comment | newline => cases h

theorem TrimmedAll.of_text {s : String} {k : Nat} {ns' : List Node}
    (h : TrimmedAll opens ends (.text s k :: ns) ns') :
    (∀ m ∈ ns.head?, m.text? = none) ∧ ∃ s' rest', ns' = .text s' k :: rest' ∧ TrimmedAll false ends ns rest' := by
  cases h with
  | @text _ _ _ s' _ rest' hrun _ hr => exact ⟨hrun, s', rest', rfl, hr⟩
  | node h =>
      cases h with
      | plain ht => cases ht

theorem trimmedAll_prepend_text {s : String} {k : Nat} (h : TrimmedAll false ends ns (stripAll false ends ns)) :
    TrimmedAll opens ends (prepend (text s k) ns) (stripAll opens ends (prepend (text s k) ns)) := by
  cases ns with
  | nil =>
      refine .text ?_ (.stripText s opens ends) .nil k
      nofun
  | cons m rest =>
      cases m with
      | text u l =>
          -- the text that was first in the run is no node of its own now
          obtain ⟨hrun, s', rest', he, hr⟩ := h.of_text
          obtain ⟨-, rfl⟩ := List.cons.inj he
          exact .text hrun (.stripText (s ++ u) opens _) hr k
      | output | assign | capture | loop | branch | embed | signal | comment | newline =>
          refine .text ?_ (.stripText s opens _) h k
          rintro m ⟨⟩
          rfl

mutual

theorem trimmed_joined (after before : Bool) : (n : Node) → n.text? = none →
    Trimmed n.joined (n.joined.strip after before)
  | .text _ _, h => nomatch h
  | .output _, h | .assign _ _ _ _, h | .embed _ _ _, h | .signal _ _, h | .comment _, h | .newline _, h =>
      .plain h rfl
  | .capture name body k, _ => .capture name (trimmedAll_joinAll true true body) k
  | .loop name source body k, _ => .loop name source (trimmedAll_joinAll true true body) k
  | .branch arms k, _ => .branch (trimmedArms_joinArms arms) k

theorem trimmedAll_joinAll (opens ends : Bool) : (ns : List Node) →
    TrimmedAll opens ends (joinAll ns) (stripAll opens ends (joinAll ns))
  | [] => .nil
  | n :: rest => by
      have hrest := trimmedAll_joinAll n.isTag ends rest
      rw [joinAll]
      cases htext : n.text? with
      | none =>
          rw [prepend_of_text? ((text?_joined n).trans htext), stripAll]
          rw [← isTag_joined] at hrest
          exact .node (trimmed_joined _ _ n htext) hrest
      | some cs =>
          obtain ⟨s, k, rfl⟩ := exists_eq_text htext
          exact trimmedAll_prepend_text hrest

theorem trimmedArms_joinArms : (arms : List (Expr × List Node)) →
    TrimmedArms (joinArms arms) (stripArms (joinArms arms))
  | [] => .nil
  | (condition, body) :: rest => .cons condition (trimmedAll_joinAll true true body) (trimmedArms_joinArms rest)

end

mutual

theorem strip_strip (after before : Bool) : (n : Node) →
    (n.strip after before).strip after before = n.strip after before
  | .text s k => by
      have hagain := (Trims.stripText s after before).again
      rw [strip, strip, String.toList_injective (Trims.iff_stripText.1 hagain)]
  | .output _ | .assign _ _ _ _ | .embed _ _ _ | .signal _ _ | .comment _ | .newline _ => rfl
  | .capture name body k => by rw [strip, strip, stripAll_stripAll true true body]
  | .loop name source body k => by rw [strip, strip, stripAll_stripAll true true body]
  | .branch arms k => by rw [strip, strip, stripArms_stripArms arms]

theorem stripAll_stripAll (opens ends : Bool) : (ns : List Node) →
    stripAll opens ends (stripAll opens ends ns) = stripAll opens ends ns
  | [] => rfl
  | n :: rest => by
      rw [stripAll, stripAll, startsWithTag_stripAll, isTag_strip, strip_strip, stripAll_stripAll _ _ rest]

theorem stripArms_stripArms : (arms : List (Expr × List Node)) → stripArms (stripArms arms) = stripArms arms
  | [] => rfl
  | (condition, body) :: rest => by
      rw [stripArms, stripArms, stripAll_stripAll true true body, stripArms_stripArms rest]

end

end Node

namespace Template

variable {t : Template}

/-- Stripping a template again changes nothing. It keeps the nodes, with their tags, expressions and offsets, and
takes from the texts nothing but layout. With each run of neighbouring texts as one text, what it takes is the
layout in front of a run that is behind a tag or opens a body, and then the indent at the back of a run that is
before a tag or ends a body. Into which texts the braces of a source have cut a run makes no difference. -/
theorem stripLayout_by_runs (h : t.Parsed) :
    t.stripLayout.stripLayout = t.stripLayout ∧
      t.stripLayout.source = t.source ∧ t.stripLayout.path = t.path ∧
        Node.AlikeAll Text.Thinned True t.nodes t.stripLayout.nodes ∧
          Node.TrimmedAll false false (Node.joinAll t.nodes) (Node.joinAll t.stripLayout.nodes) ∧
            Node.joinAll t.stripLayout.nodes = Node.stripAll false false (Node.joinAll t.nodes) := by
  have hjoin : Node.joinAll t.stripLayout.nodes = Node.stripAll false false (Node.joinAll t.nodes) :=
    h.jointed.joinAll_stripAll false false
  refine ⟨?_, rfl, rfl, Node.alikeAll_stripAll false false t.nodes fun _ _ _ => trivial, ?_, hjoin⟩
  · rw [stripLayout, stripLayout, Node.stripAll_stripAll]
  · rw [hjoin]
    exact Node.trimmedAll_joinAll false false t.nodes

def bracedSource : String :=
  "a \x7b \x7b% if x %\x7d\n \x7b\t\x7b \n \x7b% endif %\x7d \n\x7b"

def bracedPage : Template :=
  ⟨bracedSource, none, [.text "a " 0, .text "\x7b" 2, .text " " 3,
    .branch [(.variable "x" 10,
      [.text "\n " 14, .text "\x7b" 16, .text "\t" 17, .text "\x7b" 18, .text " \n " 19])] 7,
    .text " \n\x7b" 33]⟩

theorem stripLayout_by_runs_braced :
    Template.parse .plain none bracedSource = .ok bracedPage ∧
      bracedPage.stripLayout.stripLayout = bracedPage.stripLayout ∧
        Node.TrimmedAll false false
          [.text "a \x7b " 0, .branch [(.variable "x" 10, [.text "\n \x7b\t\x7b \n " 14])] 7, .text " \n\x7b" 33]
          [.text "a \x7b" 0, .branch [(.variable "x" 10, [.text "\x7b\t\x7b \n" 14])] 7, .text "\x7b" 33] := by
  have hparse : Template.parse .plain none bracedSource = .ok bracedPage := by cbv
  have hruns : Node.joinAll bracedPage.nodes =
      [.text "a \x7b " 0, .branch [(.variable "x" 10, [.text "\n \x7b\t\x7b \n " 14])] 7,
        .text " \n\x7b" 33] := by cbv
  have hstripped : Node.joinAll bracedPage.stripLayout.nodes =
      [.text "a \x7b" 0, .branch [(.variable "x" 10, [.text "\x7b\t\x7b \n" 14])] 7,
        .text "\x7b" 33] := by cbv
  obtain ⟨hagain, -, -, -, htrimmed, -⟩ := stripLayout_by_runs (.parse hparse)
  rw [hruns, hstripped] at htrimmed
  exact ⟨hparse, hagain, htrimmed⟩

end Template

end Stencil
