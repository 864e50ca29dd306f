import Stencil.Proofs.Filter
import Stencil.Proofs.Node.Spots
import Stencil.Proofs.Render.Unwinding

namespace Stencil

def Filter.Unplaced (f : Filter) : Prop :=
  ∀ v arguments e, f v arguments = .error e → e.origin = none

namespace FilterRegistry

variable {r : FilterRegistry} {e : EvalError}

/-- All filters but those that are always there leave it open in which template they fail. -/
def HostsUnplaced (r : FilterRegistry) : Prop :=
  ∀ name f, r.filters.get? name = some f → builtins.filters.get? name ≠ some f → f.Unplaced

theorem HostsUnplaced.origin (h : r.HostsUnplaced) (he : r.Raises e) : e.origin = none := by
  obtain ⟨name, f, v, arguments, hf, he⟩ := he
  by_cases hb : builtins.filters.get? name = some f
  · obtain ⟨fault, -, rfl⟩ := complains_of_builtins hb v arguments e he
    rfl
  · exact h name f hf hb v arguments e he

theorem Explains.eq_at {offsets : List Nat} (h : r.Explains offsets e) (hr : r.HostsUnplaced) :
    ∃ offset ∈ offsets, e = EvalFault.at e.fault offset := by
  obtain ⟨offset, ho, ⟨fault, -, rfl⟩ | ⟨inner, hi, rfl⟩⟩ := h
  · exact ⟨offset, ho, rfl⟩
  · refine ⟨offset, ho, ?_⟩
    rw [EvalError.withOffset, EvalFault.at, hr.origin hi]

end FilterRegistry

namespace Expr

theorem exists_of_evalArguments {env : Environment} {x : EvalError} {arguments : List (String × Expr)}
    {d : Dict Value} (h : evalArguments env arguments d = .error x) :
    ∃ a ∈ arguments, a.2.eval env = .error x := by
  induction arguments generalizing d with
  | nil => cases h
  | cons a arguments ih =>
      rw [evalArguments] at h
      rcases Except.of_bind_error h with h | ⟨v, -, h⟩
      · exact ⟨a, List.mem_cons_self, h⟩
      · obtain ⟨b, hb, hx⟩ := ih h
        exact ⟨b, List.mem_cons_of_mem _ hb, hx⟩

end Expr

namespace Node

variable {engine : Engine} {st : RenderState} {n : Node} {x : EvalError}

theorem Fails.eq_at (h : n.Fails engine st x) (hr : engine.filters.HostsUnplaced) :
    ∃ offset ∈ n.spots, x = EvalFault.at x.fault offset := by
  cases h with
  | output h => exact (Expr.explains_of_eval _ h).eq_at hr
  | assign h => exact (Expr.explains_of_eval _ h).eq_at hr
  | loop h => exact (Expr.explains_of_eval _ h).eq_at hr
  | @branch skipped condition body more k _ _ h =>
      have hc : condition.offsets ⊆ spots (.branch (skipped ++ (condition, body) :: more) k) :=
        fun o ho => List.mem_flatMap.2 ⟨(condition, body), by simp, ho⟩
      exact ((Expr.explains_of_eval _ h).mono hc).eq_at hr
  | argument h =>
      obtain ⟨a, ha, h⟩ := Expr.exists_of_evalArguments h
      refine ((Expr.explains_of_eval _ h).mono fun o ho => ?_).eq_at hr
      exact List.mem_cons_of_mem _ (List.mem_flatMap.2 ⟨a, ha, ho⟩)
  | @missing _ _ k => exact ⟨k, List.mem_cons_self, rfl⟩

end Node

namespace Point

def walk : Point → List Node
  | .nodes _ ns => Node.walkAll ns
  | .rounds _ _ body _ _ _ => Node.walkAll body

end Point

theorem Proceeds.walk_subset {engine : Engine} {p q : Point × RenderState} (h : Proceeds engine p q)
    (hd : q.1.depth = p.1.depth) : q.1.walk ⊆ p.1.walk := by
  cases h with
  | nextRound => exact List.Subset.refl _
  | call h =>
      cases h with
      | next => exact List.subset_append_right ..
      | capture | loop =>
          refine List.Subset.trans ?_ (List.subset_append_left ..)
          exact List.subset_cons_self ..
      | @arm _ skipped condition body more =>
          refine List.Subset.trans ?_ (List.subset_append_left ..)
          refine List.Subset.trans ?_ (List.subset_cons_self ..)
          rw [Node.walkArms_append]
          exact List.Subset.trans (List.subset_append_left ..) (List.subset_append_right ..)
      | round | nextRound | continued => exact List.Subset.refl _
      | embed => exact absurd hd (Nat.ne_of_lt (Nat.lt_succ_self _))

def innermost (t : Template) : List (String × Template) → Template
  | [] => t
  | (_, included) :: _ => included

namespace Leads

variable {t : Template} {stack : List (String × Template)} {q : Point × RenderState}

/-- Whatever is processed stands in the innermost template. -/
theorem walk_subset {engine : Engine} {depth : Nat} {st : RenderState}
    (h : Leads engine (.nodes depth t.nodes, st) stack q) :
    q.1.walk ⊆ Node.walkAll (innermost t stack).nodes := by
  induction h with
  | here => exact List.Subset.refl _
  | proceed _ hs hd ih => exact List.Subset.trans (hs.walk_subset hd) ih
  | embed => exact List.Subset.refl _

variable {r : Renderer} {data : Dict Value}

theorem visits (h : Leads r.engine (.nodes r.includeLimit t.nodes, r.start data) stack q) :
    r.Visits t data q := by
  induction h with
  | here => exact .refl
  | proceed _ hs _ ih => exact ih.tail hs
  | embed _ hd hr ih => exact ih.tail (.call (.embed hd hr))

theorem provides (h : Leads r.engine (.nodes r.includeLimit t.nodes, r.start data) stack q) :
    ∀ entered ∈ stack, r.provides entered.1 = some entered.2 := by
  induction h with
  | here => exact List.forall_mem_nil _
  | proceed _ _ _ ih => exact ih
  | embed h _ hr ih =>
      obtain ⟨templates, -, hp, -⟩ := r.engine.of_resolve_ok hr
      rw [h.visits.calls.2.1.provide] at hp
      exact List.forall_mem_cons.2 ⟨hp, ih⟩

end Leads

def originIn (offset : Nat) : List (String × Template) → Option Origin
  | [] => none
  | (name, t) :: _ =>
      let p := t.position offset
      some ⟨t.path.getD name, p.line, p.column⟩

theorem unwind_located (stack : List (String × Template)) (fault : EvalFault) (offset : Nat)
    (origin : Origin) : unwind stack ⟨fault, some offset, some origin⟩ = ⟨fault, some offset, some origin⟩ := by
  induction stack with
  | nil => rfl
  | cons entered stack ih => exact ih

theorem unwind_at (stack : List (String × Template)) (fault : EvalFault) (offset : Nat) :
    unwind stack (fault.at offset) = ⟨fault, some offset, originIn offset stack⟩ := by
  cases stack with
  | nil => rfl
  | cons entered stack => exact unwind_located stack fault offset _

namespace Renderer

def Overruns (r : Renderer) (t : Template) (data : Dict Value) : Prop :=
  ∃ st, Node.processAll r.engine (r.engine.includer r.includeLimit) t.nodes (r.start data) = .error .tooDeep st

theorem Overruns.errors {r : Renderer} {t : Template} {data : Dict Value} (h : r.Overruns t data) :
    (r.render t data).2.errors = [EvalFault.includesTooDeep.nowhere] := by
  obtain ⟨st, hst⟩ := h
  show (r.run t data).2.toList = _
  rw [run, hst]
  rfl

theorem comesFrom_of_errors {r : Renderer} {t : Template} {data : Dict Value} {e : EvalError}
    (h : e ∈ (r.render t data).2.errors) (hd : ¬r.Overruns t data) :
    ComesFrom r.engine (.nodes r.includeLimit t.nodes, r.start data) e := by
  have hrun : (r.run t data).2 = some e := Option.mem_toList.1 h
  rw [run] at hrun
  cases hp : Node.processAll r.engine (r.engine.includer r.includeLimit) t.nodes (r.start data) with
  | ok _ st =>
      rw [hp] at hrun
      cases hrun
  | error halt st =>
      rw [hp] at hrun
      cases halt with
      | tooDeep => exact absurd ⟨st, hp⟩ hd
      | failed x =>
          obtain rfl := Option.some.inj hrun
          exact Node.comesFrom_of_processAll (r.engine.unwinds _) t.nodes (r.start_sound data).stacked hp

/-- A recorded error is that of a node that the render came to, with some includes not yet ended, and it
has an offset, one that the node itself can blame. Without an include it is inside an output or a tag of
the template that is rendered, and no origin is given. Otherwise it is inside an output or a tag of the
template that the last of these includes found, and the origin names that one, by its path or else as the
include did, and the line and column of the offset in it. -/
theorem errors_placed (r : Renderer) (t : Template) (data : Dict Value) (hf : r.filters.HostsUnplaced)
    (ht : t.Parsed) (hp : ∀ name u, r.provides name = some u → u.Parsed) (e : EvalError)
    (he : e ∈ (r.render t data).2.errors) (hd : ¬r.Overruns t data) :
    ∃ stack depth n rest st offset,
      Leads r.engine (.nodes r.includeLimit t.nodes, r.start data) stack (.nodes depth (n :: rest), st) ∧
        n.Fails r.engine st (e.fault.at offset) ∧ offset ∈ n.spots ∧ e.offset = some offset ∧
          match stack with
          | [] => n ∈ Node.walkAll t.nodes ∧ t.Inside offset ∧ e.origin = none
          | (name, u) :: _ => r.provides name = some u ∧ n ∈ Node.walkAll u.nodes ∧ u.Inside offset ∧
              e.origin = some ⟨u.path.getD name, (u.position offset).line, (u.position offset).column⟩ := by
  obtain ⟨stack, depth, n, rest, st, raw, hl, hn, rfl⟩ := comesFrom_of_errors he hd
  obtain ⟨offset, ho, hraw⟩ := hn.eq_at hf
  rw [hraw] at hn ⊢
  rw [unwind_at]
  refine ⟨stack, depth, n, rest, st, offset, hl, hn, ho, rfl, ?_⟩
  have hmem : n ∈ Node.walkAll (innermost t stack).nodes := hl.walk_subset (List.mem_append_left _ n.mem_walk)
  cases stack with
  | nil => exact ⟨hmem, ht.inside n hmem offset ho, rfl⟩
  | cons entered stack =>
      have hprovides := hl.provides entered List.mem_cons_self
      exact ⟨hprovides, hmem, (hp _ _ hprovides).inside n hmem offset ho, rfl⟩

def refuse : Filter := fun _ _ =>
  .error (EvalFault.other "refused").nowhere

def refusedPart : Template :=
  ⟨"ab\n\x7b\x7b x | refuse \x7d\x7d", some "parts/b.html",
    [.text "ab\n" 0, .output (.pipe (.variable "x" 6) "refuse" [] 10)]⟩

def refusedFrame : Template :=
  ⟨"\x7b% include b %\x7d", none, [.embed "b" [] 3]⟩

def refusedPage : Template :=
  ⟨"x\x7b% include a %\x7d", none, [.text "x" 0, .embed "a" [] 4]⟩

def refusing : Renderer :=
  (((new .standard).addFilter "refuse" refuse).register "a" refusedFrame).register "b" refusedPart

theorem provides_refusing {name : String} {u : Template} (h : refusing.provides name = some u) :
    u = refusedFrame ∨ u = refusedPart := by
  have hget : refusing.templates.get? name = some u := by
    rw [provides, Engine.provide] at h
    split at h
    next found hf =>
      cases h
      exact hf
    next => cases h
  rw [show refusing.templates = [("a", refusedFrame), ("b", refusedPart)] from rfl] at hget
  simp only [Dict.get?_cons] at hget
  split at hget
  · exact .inl (Option.some.inj hget).symm
  split at hget
  · exact .inr (Option.some.inj hget).symm
  · cases hget

theorem hostsUnplaced_refusing : refusing.filters.HostsUnplaced := by
  intro name f hf hb
  have hf : (FilterRegistry.builtins.filters.insert "refuse" refuse).get? name = some f := hf
  rw [Dict.get?_insert] at hf
  split at hf
  · obtain rfl := Option.some.inj hf
    intro v arguments e he
    cases he
    rfl
  · exact absurd hf hb

/-- Two includes deep, in a template that has a path. -/
theorem errors_placed_refused :
    (refusing.render refusedPage []).2.errors = [⟨.other "refused", some 10, some ⟨"parts/b.html", 2, 8⟩⟩] ∧
      ∃ name u outer depth n rest st,
        Leads refusing.engine (.nodes 1000 refusedPage.nodes, refusing.start []) ((name, u) :: outer)
            (.nodes depth (n :: rest), st) ∧
          n.Fails refusing.engine st ((EvalFault.other "refused").at 10) ∧ u.Inside 10 := by
  have herrors : (refusing.render refusedPage []).2.errors =
      [⟨.other "refused", some 10, some ⟨"parts/b.html", 2, 8⟩⟩] := by decide +kernel
  have hpage : Template.parse .plain none refusedPage.source = .ok refusedPage := by cbv
  have hframe : Template.parse .plain none refusedFrame.source = .ok refusedFrame := by cbv
  have hpart : Template.parse .plain refusedPart.path refusedPart.source = .ok refusedPart := by cbv
  have hprovides : ∀ name u, refusing.provides name = some u → u.Parsed := by
    intro name u h
    rcases provides_refusing h with rfl | rfl
    · exact .parse hframe
    · exact .parse hpart
  have hdepth : ¬refusing.Overruns refusedPage [] := by
    intro h
    have he := h.errors
    rw [herrors] at he
    cases he
  obtain ⟨stack, depth, n, rest, st, offset, hl, hn, -, ho, horigin⟩ :=
    errors_placed refusing refusedPage [] hostsUnplaced_refusing (.parse hpage) hprovides
      ⟨.other "refused", some 10, some ⟨"parts/b.html", 2, 8⟩⟩ (by simp [herrors]) hdepth
  obtain rfl := Option.some.inj ho
  refine ⟨herrors, ?_⟩
  cases stack with
  | nil => cases horigin.2.2
  | cons entered outer => exact ⟨_, _, outer, depth, n, rest, st, hl, hn, horigin.2.2.1⟩

end Renderer

end Stencil
