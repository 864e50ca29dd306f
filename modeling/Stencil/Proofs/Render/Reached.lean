import Mathlib.Logic.Relation
import Stencil.Proofs.Render.Frames

namespace Stencil

inductive Point where
  | nodes (depth : Nat) (nodes : List Node)
  | rounds (depth : Nat) (name : String) (body : List Node) (length index : Nat) (items : List Value)

inductive Calls (engine : Engine) : Point × RenderState → Point × RenderState → Prop
  | next {depth n rest st st'} (h : n.process engine (engine.includer depth) st = .ok () st')
      (hs : st'.scope.signals.isNone) :
      Calls engine (.nodes depth (n :: rest), st) (.nodes depth rest, st')
  | capture {depth name body k rest st} :
      Calls engine (.nodes depth (.capture name body k :: rest), st)
        (.nodes depth body, st.enter .control [])
  | arm {depth skipped condition body more k rest st v}
      (hs : ∀ arm ∈ skipped, ∃ u, Expr.eval ⟨st.scope, engine.filters⟩ arm.1 = .ok u ∧ !u.isTruthy)
      (hc : condition.eval ⟨st.scope, engine.filters⟩ = .ok v) (hv : v.isTruthy) :
      Calls engine (.nodes depth (.branch (skipped ++ (condition, body) :: more) k :: rest), st)
        (.nodes depth body, st)
  | loop {depth name source body k rest st v items}
      (he : source.eval ⟨st.scope, engine.filters⟩ = .ok v) (hr : v.rounds? = some items) :
      Calls engine (.nodes depth (.loop name source body k :: rest), st)
        (.rounds depth name body items.length 0 items, st.enter .control [])
  | round {depth name body length index item items st} :
      Calls engine (.rounds depth name body length index (item :: items), st)
        (.nodes depth body, st.openRound name item index length)
  | nextRound {depth name body length index item items st st'}
      (h : Node.processAll engine (engine.includer depth) body (st.openRound name item index length) =
        .ok () st')
      (hs : st'.scope.signals.isNone) :
      Calls engine (.rounds depth name body length index (item :: items), st)
        (.rounds depth name body length (index + 1) items, st')
  | continued {depth name body length index item items st st'}
      (h : Node.processAll engine (engine.includer depth) body (st.openRound name item index length) =
        .ok () st')
      (hs : st'.scope.signals.nextRound) (hn : st'.scope.signals.stopLoop = false) :
      Calls engine (.rounds depth name body length index (item :: items), st)
        (.rounds depth name body length (index + 1) items, st'.clear)
  | embed {depth name arguments k rest st d st'} {t : Template}
      (hd : Expr.evalArguments ⟨st.scope, engine.filters⟩ arguments [("__", .bool true)] = .ok d)
      (hr : engine.resolve name k st = .ok t st') :
      Calls engine (.nodes (depth + 1) (.embed name arguments k :: rest), st)
        (.nodes depth t.nodes, st'.enter .file [("include", .map d)])

namespace Renderer

/-- Some render of this renderer comes to the point in this state. -/
def Reaches (r : Renderer) (p : Point × RenderState) : Prop :=
  ∃ (t : Template) (data : Dict Value),
    Relation.ReflTransGen (Calls r.engine) (.nodes r.includeLimit t.nodes, r.start data) p

def Reached (r : Renderer) (st : RenderState) : Prop :=
  ∃ p, r.Reaches (p, st)

end Renderer

/-- What every call keeps of a state: the shape of the stack, and what template names stand for. -/
structure RenderState.Sound (engine : Engine) (provide : String → Option Template) (st : RenderState) :
    Prop where
  stacked : st.scope.Stacked
  provide : engine.provide st.templates = provide

namespace RenderState.Sound

variable {engine : Engine} {provide : String → Option Template} {st st' : RenderState}

theorem of_keeps (h : st.Sound engine provide) (hk : RenderState.Keeps engine st st') :
    st'.Sound engine provide :=
  ⟨h.stacked.of_kinds_eq hk.kinds, hk.provide.trans h.provide⟩

theorem enter (h : st.Sound engine provide) {kind : FrameKind} (hk : kind ≠ .globals) (d : Dict Value) :
    (st.enter kind d).Sound engine provide :=
  ⟨h.stacked.push hk d, h.provide⟩

end RenderState.Sound

namespace Effect.onFrames

variable {engine : Engine} {st st' : RenderState}

theorem keeps_of_processAll {depth : Nat} {nodes : List Node}
    (h : Node.processAll engine (engine.includer depth) nodes st = .ok () st') :
    RenderState.Keeps engine st st' := by
  have hn := (closed engine).ofNodes depth nodes st
  rw [h] at hn
  exact hn.1

theorem keeps_of_process {depth : Nat} {n : Node}
    (h : n.process engine (engine.includer depth) st = .ok () st') : RenderState.Keeps engine st st' :=
  keeps_of_processAll (Node.processAll_singleton_of_ok h)

end Effect.onFrames

/-- An assignment on a full stack succeeds and raises no signal. -/
theorem RenderState.assign_ok {st : RenderState} (hst : st.scope.Stacked) (target : AssignTarget)
    (name : String) (v : Value) :
    ∃ scope, st.scope.assign target name v = .ok scope ∧ scope.signals = st.scope.signals ∧
      Rendering.updateScope (·.assign target name v) st = .ok () { st with scope } := by
  obtain ⟨scope, hs⟩ := hst.assign_ok target name v
  have hc : Frame.Changed (fun _ _ => True) 0 st.scope.frames scope.frames ∧
      scope.signals = st.scope.signals := Scope.changed_of_assign hs trivial
  exact ⟨scope, hs, hc.2, by rw [Rendering.updateScope_apply, hs]⟩

/-- A capture whose body ends binds what it wrote, and leaves the signal that it raised. -/
theorem Node.process_capture_of_ok {engine : Engine} {depth : Nat} {body : List Node} {st st' : RenderState}
    (hst : st.scope.Stacked)
    (h : processAll engine (engine.includer depth) body (st.enter .control []) = .ok () st')
    (name : String) (k : Nat) :
    ∃ scope, st'.leave.scope.setFile name (.string (st'.writtenSince st.output.length)) = .ok scope ∧
      scope.signals = st'.scope.signals ∧
      process engine (engine.includer depth) (.capture name body k) st =
        .ok () { st'.leave.cut st.output.length with scope } := by
  have hst' : (st'.leave.cut st.output.length).scope.Stacked :=
    hst.of_kinds_eq (Effect.onFrames.keeps_of_processAll h).leave.kinds
  obtain ⟨scope, hs, hsig, hu⟩ := RenderState.assign_ok hst' .here name
    (.string (st'.writtenSince st.output.length))
  refine ⟨scope, hs, hsig, ?_⟩
  rw [process_capture, h]
  exact hu

theorem Calls.sound {engine : Engine} {provide : String → Option Template} {p q : Point × RenderState}
    (h : Calls engine p q) (hp : p.2.Sound engine provide) : q.2.Sound engine provide := by
  cases h with
  | next h hs => exact hp.of_keeps (Effect.onFrames.keeps_of_process h)
  | capture => exact hp.enter (by simp) []
  | arm hs hc hv => exact hp
  | loop he hr => exact hp.enter (by simp) []
  | round => exact hp.of_keeps (.openRound ..)
  | nextRound h hs =>
      exact (hp.of_keeps (.openRound ..)).of_keeps (Effect.onFrames.keeps_of_processAll h)
  | continued h hs hn =>
      have hs' := (hp.of_keeps (.openRound ..)).of_keeps (Effect.onFrames.keeps_of_processAll h)
      exact ⟨hs'.stacked, hs'.provide⟩
  | embed hd hr =>
      obtain ⟨templates, rfl, _, hk⟩ := engine.of_resolve_ok hr
      refine RenderState.Sound.enter ?_ (by simp) _
      exact ⟨hp.stacked, hk.trans hp.provide⟩

namespace Renderer

variable (r : Renderer)

theorem start_sound (data : Dict Value) : (r.start data).Sound r.engine r.provides :=
  ⟨⟨[], rfl, by simp⟩, rfl⟩

variable {r}

theorem Reaches.sound {p : Point × RenderState} (h : r.Reaches p) : p.2.Sound r.engine r.provides := by
  obtain ⟨t, data, hc⟩ := h
  induction hc with
  | refl => exact r.start_sound data
  | tail _ hstep ih => exact hstep.sound ih

theorem Reached.sound {st : RenderState} (h : r.Reached st) : st.Sound r.engine r.provides := by
  obtain ⟨p, hp⟩ := h
  exact hp.sound

end Renderer

end Stencil
