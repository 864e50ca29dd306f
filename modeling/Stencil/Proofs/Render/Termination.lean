import Stencil.Proofs.Render.Blind
import Stencil.Proofs.Render.Finite
import Stencil.Proofs.Render.OpenCalls
import Stencil.Proofs.Render.Origin

namespace Stencil

open Rendering

/-- The number of includes that may be open makes no difference if it is no less than calls nest in the nodes. -/
theorem Template.Ranked.pairs {provide : String → Option Template} {known : String → Prop}
    {rank : String → Nat} (hr : Ranked provide known rank) (engine : Engine) {depth depth' : Nat}
    {nodes : List Node} (hnodes : ∀ name ∈ Node.includedInAll nodes, known name)
    (hd : Node.nestingAll rank nodes ≤ depth) (hd' : Node.nestingAll rank nodes ≤ depth') :
    Scope.Congruence.Pairs False Eq engine provide (Node.processAll engine (engine.includer depth) nodes)
      (Node.processAll engine (engine.includer depth') nodes) := by
  have hS := Scope.congruence_eq engine.filters
  -- a template that is included nests less deep than the nodes that include it
  induction depth generalizing depth' nodes with
  | zero =>
      refine hS.processAll nodes (fun _ _ => trivial) fun name hm => ?_
      have hlt := Node.rank_lt_nestingAll rank nodes name hm
      omega
  | succ depth ih =>
      refine hS.processAll nodes (fun _ _ => trivial) fun name hm d offset => ?_
      have hlt := Node.rank_lt_nestingAll rank nodes name hm
      cases depth' with
      | zero => omega
      | succ depth' =>
          refine hS.includer_succ (fun u hu => ?_) d offset
          have hle := hr.nesting_le (hnodes name hm) hu
          exact ih (hr.known_next (hnodes name hm) hu) (by omega) (by omega)

namespace Renderer

variable (r : Renderer) (t : Template) (data : Dict Value)

def limited (limit : Nat) : Renderer :=
  { r with includeLimit := limit }

theorem render_limited {known : String → Prop} {rank : String → Nat}
    (hr : Template.Ranked r.provides known rank) (ht : ∀ name ∈ Node.includedInAll t.nodes, known name)
    {limit limit' : Nat} (hl : Node.nestingAll rank t.nodes ≤ limit)
    (hl' : Node.nestingAll rank t.nodes ≤ limit') :
    ¬(r.limited limit).Overruns t data ∧
      ((r.limited limit').render t data).1 = ((r.limited limit).render t data).1 ∧
      ((r.limited limit').render t data).2.errors = ((r.limited limit).render t data).2.errors ∧
      ((r.limited limit').render t data).2.globals? = ((r.limited limit).render t data).2.globals? := by
  have hpairs := hr.pairs r.engine ht hl hl' (r.start data) (r.start data) ⟨rfl, rfl, rfl, rfl⟩
  obtain ⟨he, hst⟩ : ((r.limited limit').run t data).2 = ((r.limited limit).run t data).2 ∧
      RenderState.Related Eq r.engine r.provides ((r.limited limit).run t data).1
        ((r.limited limit').run t data).1 := run_paired hpairs
  have hscope : ((r.limited limit').run t data).1.scope = ((r.limited limit).run t data).1.scope := hst.scope.symm
  obtain ⟨hshown, herrors⟩ := render_eq_of_run he hst.output (congrArg Scope.signals hscope) rfl rfl
  refine ⟨?_, hshown, herrors, ?_⟩
  · -- acts that are paired never fail for want of room
    rintro ⟨st, hdeep⟩
    rcases hpairs.cases with ⟨_, _, _, hok, -⟩ | ⟨e, _, _, herror, -, hnever, -⟩
    · cases hok.symm.trans hdeep
    · cases herror.symm.trans hdeep
      exact hnever rfl
  · show (((r.limited limit').run t data).1.scope.clearSignals.truncate 1).globals? =
      (((r.limited limit).run t data).1.scope.clearSignals.truncate 1).globals?
    rw [hscope]

/-- Where finitely many names are reached and includes are acyclic, every render ends. There is a bound, the same
for all data and for all renderers in which the names reached stand for these templates: no more calls than that
are ever open, and with so many includes allowed none is refused and allowing more does not show. A loop, in
whatever state it is entered, evaluates its source once, before the first round, and enters its body at most once
with each of the items. -/
theorem render_bounded (provide : String → Option Template) (t : Template) (hacyclic : t.Acyclic provide)
    (hfin : Set.Finite {name | t.ReachesName provide name}) :
    ∃ bound, ∀ r : Renderer, (∀ name, t.ReachesName provide name → r.provides name = provide name) →
      ∀ data,
        (∀ count q, Nested r.engine (.nodes r.includeLimit t.nodes, r.start data) count q → count ≤ bound) ∧
        (∀ limit limit', bound ≤ limit → bound ≤ limit' → ¬(r.limited limit).Overruns t data ∧
          ((r.limited limit').render t data).1 = ((r.limited limit).render t data).1 ∧
          ((r.limited limit').render t data).2.errors = ((r.limited limit).render t data).2.errors ∧
          ((r.limited limit').render t data).2.globals? = ((r.limited limit).render t data).2.globals?) ∧
        ∀ depth name source body k rest st entry,
          Enters r.engine (.nodes depth (.loop name source body k :: rest), st) entry →
            ∃ v items, source.eval ⟨st.scope, r.engine.filters⟩ = .ok v ∧ v.rounds? = some items ∧
              ∀ i q round, FollowsAfter r.engine entry i q → Enters r.engine q round →
                ∃ (hi : i < items.length) (before : RenderState),
                  round = (.nodes depth body, before.openRound name items[i] i items.length) ∧
                    ∀ q' round', FollowsAfter r.engine entry i q' → Enters r.engine q' round' → round' = round := by
  refine ⟨Node.nestingAll (hacyclic.rank hfin) t.nodes, fun r hsame data => ?_⟩
  have hr := hacyclic.ranked hfin hsame
  have ht : ∀ name ∈ Node.includedInAll t.nodes, t.ReachesName provide name := fun _ => .of_mem
  refine ⟨?_, ?_, ?_⟩
  · intro count q hq
    exact Nat.le_trans (Nat.le_add_right ..) (add_nesting_le hr ht hq).1
  · intro limit limit' hl hl'
    exact r.render_limited t data hr ht hl hl'
  · intro depth name source body k rest st entry hentry
    obtain ⟨v, items, hv, hitems, rfl⟩ := hentry.of_loop
    refine ⟨v, items, hv, hitems, fun i q round hq hround => ?_⟩
    have hbody := hq.body_of_rounds hround
    rwa [Nat.zero_add] at hbody

def linedPage : Template :=
  ⟨"", none, [.loop "line" (.variable "lines" 0) [.embed "row" [] 0, .newline 0] 0]⟩

def linedRow : Template :=
  ⟨"", none, [.text "|" 0, .embed "cell" [] 0]⟩

def cells : Loader :=
  .ofSources .plain [("cell", "\x7b\x7b line \x7d\x7d")]

def lined : Renderer :=
  ((new .standard).register "row" linedRow).addLoader cells

theorem load_cells {name : String} {u : Template} (h : Loader.search name [cells] = .ok u) :
    u.nodes = [.output (.variable "line" 3)] := by
  obtain ⟨_, hl, hload⟩ := Loader.load_of_search h
  obtain rfl := List.mem_singleton.1 hl
  by_cases hname : name = "cell"
  · subst hname
    have hcell : cells.load "cell" = .ok ⟨"\x7b\x7b line \x7d\x7d", none, [.output (.variable "line" 3)]⟩ := by cbv
    cases hload.symm.trans hcell
    rfl
  · have hnone : Dict.get? [("cell", "\x7b\x7b line \x7d\x7d")] name = none := by
      rw [Dict.get?_cons, if_neg hname]
      rfl
    rw [cells, Loader.ofSources] at hload
    dsimp only at hload
    rw [hnone] at hload
    cases hload

theorem nameIncludes_lined {name other : String} (h : Template.NameIncludes lined.provides name other) :
    name = "row" ∧ other = "cell" := by
  obtain ⟨u, hu, hother⟩ := h
  rcases Engine.provide_eq_some_iff.1 hu with hrow | ⟨-, hcell⟩
  · have hkept : Dict.get? [("row", linedRow)] name = some u := hrow
    rw [Dict.get?_cons] at hkept
    split at hkept
    next hname =>
      obtain rfl := Option.some.inj hkept
      exact ⟨hname, List.mem_singleton.1 hother⟩
    · cases hkept
  · rw [load_cells hcell] at hother
    cases hother

theorem render_bounded_lined :
    linedPage.Acyclic lined.provides ∧ Set.Finite {name | linedPage.ReachesName lined.provides name} ∧
      ∃ bound, ∀ data limit, bound ≤ limit → ¬(lined.limited limit).Overruns linedPage data := by
  have hfin : Set.Finite {name | linedPage.ReachesName lined.provides name} := by
    refine lined.finite_reachesName linedPage fun l hl => ?_
    obtain rfl := List.mem_singleton.1 hl
    exact Loader.isFinite_ofSources _ _
  have hacyclic : linedPage.Acyclic lined.provides := by
    intro name _ hcycle
    obtain ⟨other, hfirst, -⟩ := Relation.TransGen.head'_iff.1 hcycle
    obtain ⟨other', -, hlast⟩ := Relation.TransGen.tail'_iff.1 hcycle
    have hrow := (nameIncludes_lined hfirst).1
    have hcell := (nameIncludes_lined hlast).2
    exact absurd (hrow.symm.trans hcell) (by decide)
  obtain ⟨bound, h⟩ := render_bounded lined.provides linedPage hacyclic hfin
  exact ⟨hacyclic, hfin, bound, fun data limit hl => ((h lined (fun _ _ => rfl) data).2.1 limit limit hl hl).1⟩

def including (name : String) : Template :=
  ⟨"", none, [.embed name [] 0]⟩

/-- Under every name a template that includes the name one letter longer. -/
def endless : Renderer :=
  (new .standard).addLoader ⟨fun name => .ok (including (name ++ "a"))⟩

theorem provides_endless (name : String) : endless.provides name = some (including (name ++ "a")) := rfl

theorem acyclic_endless : (including "a").Acyclic endless.provides := by
  have hlonger {name other : String} (h : Template.NameIncludes endless.provides name other) :
      name.length < other.length := by
    obtain ⟨u, hu, hother⟩ := h
    rw [provides_endless, Option.some.injEq] at hu
    subst hu
    obtain rfl := List.mem_singleton.1 hother
    have hone : "a".length = 1 := rfl
    simp [String.length_append, hone]
  intro name _ hcycle
  have hlt := Relation.TransGen.trans_induction_on (motive := fun {a b} _ => a.length < b.length) hcycle hlonger
    fun _ _ => Nat.lt_trans
  exact Nat.lt_irrefl _ hlt

theorem resolve_endless {st : RenderState} (hst : endless.engine.provide st.templates = endless.provides)
    (name : String) :
    ∃ st', (∀ kind bindings, endless.engine.provide (st'.enter kind bindings).templates = endless.provides) ∧
      endless.engine.resolve name 0 st = .ok (including (name ++ "a")) st' := by
  have hname : endless.engine.provide st.templates name = some (including (name ++ "a")) := by
    rw [hst, provides_endless]
  obtain ⟨templates, hresolve, hsame⟩ := endless.engine.resolve_of_some hname 0
  exact ⟨{ st with templates }, fun _ _ => hsame.trans hst, hresolve⟩

/-- However many includes may be open, so many are. -/
theorem nested_endless (limit : Nat) {p : Point × RenderState} {count : Nat} {name : String} {st : RenderState}
    (hst : endless.engine.provide st.templates = endless.provides)
    (h : Nested endless.engine p count (.nodes limit (including name).nodes, st)) :
    ∃ q, Nested endless.engine p (count + limit) q := by
  induction limit generalizing count name st with
  | zero => exact ⟨_, h⟩
  | succ limit ih =>
      obtain ⟨st', hst', hresolve⟩ := resolve_endless hst name
      obtain ⟨q, hq⟩ := ih (hst' _ _) (h.enter (.embed rfl hresolve))
      exact ⟨q, by rwa [Nat.add_assoc, Nat.add_comm 1] at hq⟩

theorem processAll_endless (limit : Nat) {name : String} {st : RenderState}
    (hst : endless.engine.provide st.templates = endless.provides) :
    ∃ st', Node.processAll endless.engine (endless.engine.includer limit) (including name).nodes st =
      .error .tooDeep st' := by
  induction limit generalizing name st with
  | zero => exact ⟨st, rfl⟩
  | succ limit ih =>
      obtain ⟨st', hst', hresolve⟩ := resolve_endless hst name
      obtain ⟨st'', hdeep⟩ := ih (hst' .file [("include", .map [("__", .bool true)])])
      refine ⟨st''.leave, ?_⟩
      rw [including, Node.processAll_cons, Node.process_embed, Expr.evalArguments]
      dsimp only
      rw [Engine.includer_succ, hresolve]
      dsimp only
      rw [hdeep]

/-- Where names lead on for ever, none back to itself, nothing bounds a render: whatever number of includes is
allowed, the render overruns it with so many calls open. -/
theorem render_bounded_endless :
    (including "a").Acyclic endless.provides ∧
      (∀ data limit, (endless.limited limit).Overruns (including "a") data) ∧
      ¬∃ bound, ∀ r : Renderer,
        (∀ name, (including "a").ReachesName endless.provides name → r.provides name = endless.provides name) →
          ∀ data count q,
            Nested r.engine (.nodes r.includeLimit (including "a").nodes, r.start data) count q →
              count ≤ bound := by
  refine ⟨acyclic_endless, fun data limit => processAll_endless limit rfl, ?_⟩
  rintro ⟨bound, h⟩
  obtain ⟨q, hq⟩ := @nested_endless (bound + 1) _ 0 "a" (endless.start []) rfl .here
  have hle := h (endless.limited (bound + 1)) (fun _ _ => rfl) [] _ q hq
  omega

end Renderer

end Stencil
