import Mathlib.Order.WellFoundedSet
import Stencil.Proofs.Render.Provided

namespace Stencil

namespace Node

mutual

/-- How deep calls nest in a node, if they nest as deep in an included template as its name's rank says. -/
def nesting (rank : String → Nat) : Node → Nat
  | text _ _ => 0
  | output _ => 0
  | assign _ _ _ _ => 0
  | capture _ body _ => nestingAll rank body + 1
  | loop _ _ body _ => nestingAll rank body + 2
  | branch arms _ => nestingArms rank arms + 1
  | embed name _ _ => rank name + 1
  | signal _ _ => 0
  | comment _ => 0
  | newline _ => 0

def nestingAll (rank : String → Nat) : List Node → Nat
  | [] => 0
  | n :: rest => max (nesting rank n) (nestingAll rank rest)

def nestingArms (rank : String → Nat) : List (Expr × List Node) → Nat
  | [] => 0
  | (_, body) :: rest => max (nestingAll rank body) (nestingArms rank rest)

end

variable {rank rank' : String → Nat}

mutual

theorem nesting_congr : (n : Node) → (∀ name ∈ n.included, rank name = rank' name) →
    nesting rank n = nesting rank' n
  | text _ _ | output _ | assign _ _ _ _ | signal _ _ | comment _ | newline _ => fun _ => rfl
  | capture _ body _ => fun h => congrArg (· + 1) (nestingAll_congr body h)
  | loop _ _ body _ => fun h => congrArg (· + 2) (nestingAll_congr body h)
  | branch arms _ => fun h => congrArg (· + 1) (nestingArms_congr arms h)
  | embed name _ _ => fun h => congrArg (· + 1) (h name List.mem_cons_self)

theorem nestingAll_congr : (ns : List Node) → (∀ name ∈ includedInAll ns, rank name = rank' name) →
    nestingAll rank ns = nestingAll rank' ns
  | [] => fun _ => rfl
  | n :: rest => by
      intro h
      obtain ⟨hn, hrest⟩ := List.forall_mem_append.1 h
      rw [nestingAll, nestingAll, nesting_congr n hn, nestingAll_congr rest hrest]

theorem nestingArms_congr : (arms : List (Expr × List Node)) →
    (∀ name ∈ includedInArms arms, rank name = rank' name) → nestingArms rank arms = nestingArms rank' arms
  | [] => fun _ => rfl
  | (_, body) :: rest => by
      intro h
      obtain ⟨hbody, hrest⟩ := List.forall_mem_append.1 h
      rw [nestingArms, nestingArms, nestingAll_congr body hbody, nestingArms_congr rest hrest]

end

mutual

theorem rank_lt_nesting (rank : String → Nat) : (n : Node) → ∀ name ∈ n.included, rank name < nesting rank n
  | text _ _ | output _ | assign _ _ _ _ | signal _ _ | comment _ | newline _ => nofun
  | capture _ body _ => fun name h => Nat.lt_succ_of_lt (rank_lt_nestingAll rank body name h)
  | loop _ _ body _ => fun name h => Nat.lt_add_right 2 (rank_lt_nestingAll rank body name h)
  | branch arms _ => fun name h => Nat.lt_succ_of_lt (rank_lt_nestingArms rank arms name h)
  | embed name _ _ => by
      intro other h
      obtain rfl := List.mem_singleton.1 h
      exact Nat.lt_succ_self _

theorem rank_lt_nestingAll (rank : String → Nat) : (ns : List Node) →
    ∀ name ∈ includedInAll ns, rank name < nestingAll rank ns
  | [] => nofun
  | n :: rest => by
      intro name h
      rcases List.mem_append.1 h with h | h
      · exact Nat.lt_of_lt_of_le (rank_lt_nesting rank n name h) (Nat.le_max_left ..)
      · exact Nat.lt_of_lt_of_le (rank_lt_nestingAll rank rest name h) (Nat.le_max_right ..)

theorem rank_lt_nestingArms (rank : String → Nat) : (arms : List (Expr × List Node)) →
    ∀ name ∈ includedInArms arms, rank name < nestingArms rank arms
  | [] => nofun
  | (_, body) :: rest => by
      intro name h
      rcases List.mem_append.1 h with h | h
      · exact Nat.lt_of_lt_of_le (rank_lt_nestingAll rank body name h) (Nat.le_max_left ..)
      · exact Nat.lt_of_lt_of_le (rank_lt_nestingArms rank rest name h) (Nat.le_max_right ..)

end

/-- The body of an arm nests no deeper, and includes nothing else, than all arms. -/
theorem nestingAll_le_nestingArms (rank : String → Nat) {arms : List (Expr × List Node)} {condition : Expr}
    {body : List Node} (h : (condition, body) ∈ arms) :
    nestingAll rank body ≤ nestingArms rank arms ∧ includedInAll body ⊆ includedInArms arms := by
  induction arms with
  | nil => cases h
  | cons arm arms ih =>
      rcases List.mem_cons.1 h with rfl | h
      · exact ⟨Nat.le_max_left .., List.subset_append_left ..⟩
      · obtain ⟨hle, hsub⟩ := ih h
        exact ⟨hle.trans (Nat.le_max_right ..), List.Subset.trans hsub (List.subset_append_right ..)⟩

end Node

namespace Template

variable {provide : String → Option Template} {t : Template}

def NameIncludes (provide : String → Option Template) (name other : String) : Prop :=
  ∃ u, provide name = some u ∧ other ∈ Node.includedInAll u.nodes

/-- The include names that a render of the template may come to. -/
def ReachesName (provide : String → Option Template) (t : Template) (name : String) : Prop :=
  ∃ u, t.Reaches provide u ∧ name ∈ Node.includedInAll u.nodes

/-- No name that a render of the template may come to leads back to itself. -/
def Acyclic (provide : String → Option Template) (t : Template) : Prop :=
  ∀ name, t.ReachesName provide name → ¬Relation.TransGen (NameIncludes provide) name name

theorem ReachesName.of_mem {name : String} (h : name ∈ Node.includedInAll t.nodes) :
    t.ReachesName provide name :=
  ⟨t, .refl, h⟩

theorem ReachesName.next {name other : String} (h : t.ReachesName provide name)
    (hn : NameIncludes provide name other) : t.ReachesName provide other := by
  obtain ⟨u, hu, hname⟩ := h
  obtain ⟨v, hv, hother⟩ := hn
  exact ⟨v, hu.tail ⟨name, hname, hv⟩, hother⟩

theorem Acyclic.wellFounded (h : t.Acyclic provide) (hfin : Set.Finite {name | t.ReachesName provide name}) :
    WellFounded fun other name => t.ReachesName provide name ∧ NameIncludes provide name other := by
  let below : String → String → Prop := fun other name =>
    t.ReachesName provide name ∧ Relation.TransGen (NameIncludes provide) name other
  have : IsStrictOrder String below :=
    { irrefl := fun name hn => h name hn.1 hn.2
      trans := fun a b c hab hbc => ⟨hbc.1, hbc.2.trans hab.2⟩ }
  have hwf := Set.wellFoundedOn_iff.1 (hfin.wellFoundedOn (r := below))
  refine Subrelation.wf ?_ hwf
  intro other name hn
  exact ⟨⟨hn.1, .single hn.2⟩, hn.1.next hn.2, hn.1⟩

open Classical in
noncomputable def Acyclic.rank (h : t.Acyclic provide) (hfin : Set.Finite {name | t.ReachesName provide name}) :
    String → Nat :=
  (h.wellFounded hfin).fix fun name rank => match provide name with
    | none => 0
    | some u => Node.nestingAll (fun other =>
        if hn : t.ReachesName provide name ∧ NameIncludes provide name other then rank other hn else 0) u.nodes

theorem Acyclic.rank_eq (h : t.Acyclic provide) (hfin : Set.Finite {name | t.ReachesName provide name})
    {name : String} {u : Template} (hname : t.ReachesName provide name) (hu : provide name = some u) :
    h.rank hfin name = Node.nestingAll (h.rank hfin) u.nodes := by
  rw [rank, (h.wellFounded hfin).fix_eq]
  simp only [hu]
  refine Node.nestingAll_congr u.nodes fun other hother => ?_
  exact dif_pos ⟨hname, u, hu, hother⟩

structure Ranked (provide : String → Option Template) (known : String → Prop) (rank : String → Nat) : Prop where
  known_next : ∀ {name u}, known name → provide name = some u → ∀ other ∈ Node.includedInAll u.nodes, known other
  nesting_le : ∀ {name u}, known name → provide name = some u → Node.nestingAll rank u.nodes ≤ rank name

/-- Names may stand for anything else where no render comes to them. -/
theorem Acyclic.ranked (h : t.Acyclic provide) (hfin : Set.Finite {name | t.ReachesName provide name})
    {provide' : String → Option Template}
    (hsame : ∀ name, t.ReachesName provide name → provide' name = provide name) :
    Ranked provide' (t.ReachesName provide) (h.rank hfin) where
  known_next := by
    intro name u hname hu other hother
    rw [hsame name hname] at hu
    exact hname.next ⟨u, hu, hother⟩
  nesting_le := by
    intro name u hname hu
    rw [hsame name hname] at hu
    exact (h.rank_eq hfin hname hu).ge

end Template

end Stencil
