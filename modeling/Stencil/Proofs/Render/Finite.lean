import Stencil.Loader
import Stencil.Proofs.Bind
import Stencil.Proofs.Render.Provided
import Stencil.Proofs.Render.Rank

namespace Stencil

/-- However many names it answers, the loader gives templates with finitely many lists of nodes. -/
def Loader.IsFinite (l : Loader) : Prop :=
  Set.Finite {nodes | ∃ name u, l.load name = .ok u ∧ u.nodes = nodes}

theorem Template.nodes_of_parse {options : ParserOptions} {path : Option String} {text : String} {u : Template}
    (h : parse options path text = .ok u) :
    (parse options none text).toOption.map nodes = some u.nodes := by
  simp only [parse] at h ⊢
  cases hp : parseNodes options.skipNewline (Text.withUnixLines text) with
  | error e =>
      rw [hp] at h
      cases h
  | ok nodes =>
      rw [hp] at h
      cases h
      cases options.stripLayout <;> rfl

namespace Loader

theorem isFinite_of_texts {l : Loader} (options : ParserOptions) {texts : Set String} (hfin : texts.Finite)
    (h : ∀ name u, l.load name = .ok u → ∃ path, ∃ text ∈ texts, Template.parse options path text = .ok u) :
    l.IsFinite := by
  let found (text : String) : Option (List Node) := (Template.parse options none text).toOption.map Template.nodes
  refine ((hfin.image found).preimage (Option.some_injective _).injOn).subset ?_
  rintro _ ⟨name, u, hload, rfl⟩
  obtain ⟨path, text, htext, hparse⟩ := h name u hload
  exact ⟨text, htext, Template.nodes_of_parse hparse⟩

theorem isFinite_ofSources (options : ParserOptions) (sources : Dict String) :
    (ofSources options sources).IsFinite := by
  refine isFinite_of_texts options (sources.map Prod.snd).finite_toSet ?_
  intro name u hload
  rw [ofSources] at hload
  dsimp only at hload
  cases hs : sources.get? name with
  | none =>
      rw [hs] at hload
      cases hload
  | some source =>
      rw [hs] at hload
      exact ⟨none, source, List.mem_map.2 ⟨_, Dict.mem_of_get? hs, rfl⟩, Except.mapError_eq_ok_iff.1 hload⟩

theorem isFinite_ofDirectories (options : ParserOptions) {files : Files} (directories : List String)
    (hfiles : Set.Finite {text | ∃ path, files.read path = .ok text}) :
    (ofDirectories options files directories).IsFinite := by
  refine isFinite_of_texts options hfiles ?_
  intro name u hload
  rw [ofDirectories] at hload
  dsimp only at hload
  split at hload
  · cases hload
  split at hload
  next path _ =>
      obtain ⟨text, hread, hparse⟩ := Except.of_bind_ok hload
      exact ⟨some path, text, ⟨path, Except.mapError_eq_ok_iff.1 hread⟩, Except.mapError_eq_ok_iff.1 hparse⟩
  next => cases hload

theorem load_of_search {name : String} {loaders : List Loader} {u : Template}
    (h : search name loaders = .ok u) : ∃ l ∈ loaders, l.load name = .ok u := by
  induction loaders with
  | nil => cases h
  | cons l rest ih =>
      rw [search] at h
      split at h
      next hl =>
          cases h
          exact ⟨l, List.mem_cons_self, hl⟩
      next =>
          obtain ⟨l', hm, hl'⟩ := ih h
          exact ⟨l', List.mem_cons_of_mem _ hm, hl'⟩
      next => cases h

end Loader

/-- The names that are reached stand in the template itself and in those that names stand for. -/
theorem Template.finite_reachesName {provide : String → Option Template} (t : Template)
    (h : Set.Finite {nodes | ∃ name u, provide name = some u ∧ u.nodes = nodes}) :
    Set.Finite {name | t.ReachesName provide name} := by
  refine ((h.insert t.nodes).biUnion fun nodes _ => (Node.includedInAll nodes).finite_toSet).subset ?_
  rintro name ⟨u, hu, hname⟩
  refine Set.mem_biUnion (x := u.nodes) ?_ hname
  rcases Relation.ReflTransGen.cases_tail hu with rfl | ⟨_, -, key, -, hkey⟩
  · exact .inl rfl
  · exact .inr ⟨key, u, hkey, rfl⟩

namespace Renderer

variable (r : Renderer)

theorem finite_nodes (hl : ∀ l ∈ r.loaders, l.IsFinite) :
    Set.Finite {nodes | ∃ name u, r.provides name = some u ∧ u.nodes = nodes} := by
  have hkept : Set.Finite {nodes | ∃ u ∈ r.templates.map Prod.snd, u.nodes = nodes} :=
    (r.templates.map Prod.snd).finite_toSet.image Template.nodes
  refine (hkept.union (r.loaders.finite_toSet.biUnion hl)).subset ?_
  rintro _ ⟨name, u, hu, rfl⟩
  rcases Engine.provide_eq_some_iff.1 hu with hkept | ⟨-, hs⟩
  · exact .inl ⟨u, List.mem_map.2 ⟨_, Dict.mem_of_get? hkept, rfl⟩, rfl⟩
  · obtain ⟨l, hm, hload⟩ := Loader.load_of_search hs
    exact .inr (Set.mem_biUnion hm ⟨name, u, hload, rfl⟩)

theorem finite_reachesName (t : Template) (hl : ∀ l ∈ r.loaders, l.IsFinite) :
    Set.Finite {name | t.ReachesName r.provides name} :=
  t.finite_reachesName (r.finite_nodes hl)

end Renderer

end Stencil
