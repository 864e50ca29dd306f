import Stencil.Proofs.Expr.Offsets
import Stencil.Proofs.Node.Heads
import Stencil.Proofs.Node.Marked
import Stencil.Proofs.Token.Lexeme

namespace Stencil

namespace Node

/-- The offsets in the expressions of the node itself, and that of an include, but not those in the nodes
that stand in it. -/
def spots : Node → List Nat
  | output e => e.offsets
  | assign _ value _ _ => value.offsets
  | loop _ source _ _ => source.offsets
  | branch arms _ => arms.flatMap fun arm => arm.1.offsets
  | embed _ arguments n => n :: arguments.flatMap fun a => a.2.offsets
  | text _ _ => []
  | capture _ _ _ => []
  | signal _ _ => []
  | comment _ => []
  | newline _ => []

theorem conditions_stripArms (arms : List (Expr × List Node)) :
    (stripArms arms).flatMap (fun arm => arm.1.offsets) = arms.flatMap fun arm => arm.1.offsets := by
  induction arms with
  | nil => rfl
  | cons arm arms ih => rw [stripArms, List.flatMap_cons, List.flatMap_cons, ih]

theorem spots_strip (afterTag beforeTag : Bool) (n : Node) : (n.strip afterTag beforeTag).spots = n.spots := by
  cases n with
  | branch arms => exact conditions_stripArms arms
  | text | output | assign | capture | loop | embed | signal | comment | newline => rfl

theorem offsets_subset_spots {n : Node} {e : Expr} (h : e ∈ n.ownExpressions) : e.offsets ⊆ n.spots := by
  cases n with
  | output | assign | loop =>
      obtain rfl := List.mem_singleton.1 h
      exact List.Subset.refl _
  | branch arms =>
      obtain ⟨arm, harm, rfl⟩ := List.mem_map.1 h
      exact fun o ho => List.mem_flatMap.2 ⟨arm, harm, ho⟩
  | embed name arguments n =>
      obtain ⟨a, ha, rfl⟩ := List.mem_map.1 h
      exact fun o ho => List.mem_cons_of_mem n (List.mem_flatMap.2 ⟨a, ha, ho⟩)
  | text | capture | signal | comment | newline => cases h

end Node

theorem Expr.ReadFrom.offsets_subset {ts : List Token} {e : Expr} (h : e.ReadFrom ts) :
    e.offsets ⊆ ts.map Token.offset := by
  obtain ⟨us, stop, hus, he⟩ := h
  exact List.Subset.trans (Expr.offsets_subset_of_ofTokens he) (List.map_subset _ hus)

namespace Instruction

def spots : Instruction → List Nat
  | place n => (Node.walk n).flatMap Node.spots
  | begin (.capture _) _ => []
  | begin (.loop _ source) _ => source.offsets
  | begin (.branch _ condition _) _ => condition.offsets
  | otherwiseIf condition _ => condition.offsets
  | otherwise offset => [offset]
  | finish _ _ => []

variable {i : Instruction} {r : Region}

theorem Says.spots_subset {offset : Nat} {ts : List Token} (h : i.Says offset ts) :
    i.spots ⊆ offset :: ts.map Token.offset := by
  have hread : ∀ {e : Expr}, e.ReadFrom ts → e.offsets ⊆ offset :: ts.map Token.offset := fun h =>
    List.Subset.trans h.offsets_subset (List.subset_cons_self ..)
  cases h with
  | assign hv =>
      rw [spots, Node.walk, List.flatMap_singleton]
      exact hread hv
  | embed ha =>
      rw [spots, Node.walk, List.flatMap_singleton]
      refine List.cons_subset.2 ⟨List.mem_cons_self, fun o ho => ?_⟩
      obtain ⟨a, hm, ho⟩ := List.mem_flatMap.1 ho
      exact hread (ha a hm) ho
  | signal | newline | capture | finish => exact List.nil_subset _
  | loop hs => exact hread hs
  | branch hc => exact hread hc
  | otherwiseIf hc => exact hread hc
  | otherwise => exact List.cons_subset.2 ⟨List.mem_cons_self, List.nil_subset _⟩

theorem holds_of_ofRegion (h : ofRegion r = .ok i) : ∀ o ∈ i.spots, r.Holds o := by
  cases r with
  | text o cs =>
      obtain rfl := Except.ok.inj h
      exact List.forall_mem_nil _
  | output o cs =>
      obtain ⟨tokens, ht, h⟩ := Except.of_bind_ok h
      obtain ⟨e, he, h⟩ := Except.of_bind_ok h
      obtain rfl := Except.ok.inj h
      rw [spots, Node.walk, List.flatMap_singleton]
      intro o ho
      obtain ⟨t, hm, rfl⟩ := List.mem_map.1 (Expr.offsets_subset_of_ofTokens he ho)
      exact Token.bounds_of_scan ht t hm
  | tag o cs =>
      rcases says_of_ofTag h with rfl | ⟨keyword, ts, ht, hs⟩
      · exact List.forall_mem_nil _
      · intro o ho
        obtain ⟨t, hm, rfl⟩ : ∃ t ∈ keyword :: ts, t.offset = o := by
          simpa [eq_comm] using hs.spots_subset ho
        exact Token.bounds_of_scan ht t hm
  | unclosedOutput | unclosedTag => cases h

theorem offsets_subset_spots {e : Expr} (h : e ∈ i.expressions) : e.offsets ⊆ i.spots := by
  cases i with
  | place n => exact fun o ho => List.mem_flatMap.2 ⟨n, n.mem_walk, Node.offsets_subset_spots h ho⟩
  | begin block o =>
      cases block with
      | capture => cases h
      | loop | branch =>
          obtain rfl := List.mem_singleton.1 h
          exact List.Subset.refl _
  | otherwiseIf | otherwise =>
      obtain rfl := List.mem_singleton.1 h
      exact List.Subset.refl _
  | finish => cases h

theorem Makes.forall_spots {P : Nat → Prop} {n : Node} (h : i.Makes (fun e => ∀ o ∈ e.offsets, P o) n)
    (hi : ∀ o ∈ i.spots, P o) : ∀ o ∈ n.spots, P o := by
  cases h with
  | place => exact fun o ho => hi o (List.mem_flatMap.2 ⟨n, n.mem_walk, ho⟩)
  | capture => exact List.forall_mem_nil _
  | loop => exact hi
  | branch harms =>
      intro o ho
      obtain ⟨arm, harm, ho⟩ := List.mem_flatMap.1 ho
      exact harms arm harm o ho

end Instruction

namespace Template

/-- The template was read from a text, and may have lost its layout since. -/
inductive Parsed : Template → Prop
  | parse {options : ParserOptions} {path : Option String} {text : String} {t : Template} :
      Template.parse options path text = .ok t → Parsed t
  | stripLayout {t : Template} : Parsed t → Parsed t.stripLayout

def Inside (t : Template) (offset : Nat) : Prop :=
  ∃ r ∈ Region.scan false 0 t.source.toList, r.Holds offset

variable {t : Template}

/-- What the nodes of a source have and keep when they are stripped, the nodes of every template have. -/
theorem Parsed.forall_nodes {P : String → List Node → Prop} (h : t.Parsed)
    (hparse : ∀ skipNewline source nodes, parseNodes skipNewline source = .ok nodes → P source nodes)
    (hstrip : ∀ source nodes, P source nodes → P source (Node.stripAll false false nodes)) : P t.source t.nodes := by
  induction h with
  | @parse options path text t h =>
      simp only [Template.parse] at h
      split at h
      next nodes hn =>
        have hnodes := hparse _ _ _ hn
        obtain rfl := Except.ok.inj h
        split
        · exact hstrip _ _ hnodes
        · exact hnodes
      next => cases h
  | stripLayout _ ih => exact hstrip _ _ ih

theorem inside_of_parseNodes {skipNewline : Bool} {nodes : List Node}
    (h : parseNodes skipNewline t.source = .ok nodes) :
    ∀ n ∈ Node.walkAll nodes, ∀ o ∈ n.spots, t.Inside o := by
  obtain ⟨is, his, hd⟩ := exists_derives_of_parseNodes h
  have hinside (i : Instruction) (hi : i ∈ is) : i.Bare ∧ ∀ o ∈ i.spots, t.Inside o := by
    obtain ⟨r, hr, hir⟩ := Except.exists_of_mem_mapM his hi
    refine ⟨Instruction.bare_of_ofRegion hir, fun o ho => ?_⟩
    have hholds := Instruction.holds_of_ofRegion hir o ho
    exact ⟨r, Region.mem_scan_of_holds hr hholds, hholds⟩
  have hmakes := hd.makes (C := fun e => ∀ o ∈ e.offsets, t.Inside o) fun i hi =>
    ⟨(hinside i hi).1, fun e he o ho => (hinside i hi).2 o (Instruction.offsets_subset_spots he ho)⟩
  intro n hn
  obtain ⟨i, hi, hin⟩ := hmakes.exists_of_mem hn
  exact hin.forall_spots (hinside i hi).2

/-- Whatever a node of a template can blame is inside an output or a tag of it. -/
theorem Parsed.inside (h : t.Parsed) : ∀ n ∈ Node.walkAll t.nodes, ∀ o ∈ n.spots, t.Inside o := by
  refine h.forall_nodes (P := fun source nodes => ∀ n ∈ Node.walkAll nodes, ∀ o ∈ n.spots,
    ∃ r ∈ Region.scan false 0 source.toList, r.Holds o) (fun skipNewline source nodes hn => ?_) ?_
  · exact inside_of_parseNodes (t := ⟨source, none, nodes⟩) hn
  · intro source nodes hinside n hn
    obtain ⟨m, hm, after, before, rfl⟩ := (Node.walkAll_stripAll false false nodes).exists_of_mem hn
    rw [Node.spots_strip]
    exact hinside m hm

end Template

end Stencil
