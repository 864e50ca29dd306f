import Stencil.Proofs.Render.Rebound
import Stencil.Proofs.Render.Visited

namespace Stencil

open Rendering

/-- What a signal that ends the template leaves in the register. No loop looks for it. -/
structure Signals.Ejecting (s : Signals) : Prop where
  eject : s.eject = true
  stopLoop : s.stopLoop = false
  nextRound : s.nextRound = false

def EndsWith (engine : Engine) (s : Signals) (p : Point × RenderState) : Prop :=
  ∃ st, p.1.act engine p.2 = .ok () st ∧ st.scope.signals = s

namespace EndsWith

variable {engine : Engine} {s : Signals} {depth : Nat} {st st' : RenderState}

theorem of_process {n : Node} {rest : List Node} (he : s.Ejecting)
    (h : n.process engine (engine.includer depth) st = .ok () st') (hs : st'.scope.signals = s) :
    EndsWith engine s (.nodes depth (n :: rest), st) := by
  have hn : ¬ st'.scope.signals.isNone := by
    rw [Signals.isNone_iff, hs]
    rintro rfl
    cases he.eject
  refine ⟨st', ?_, hs⟩
  rw [Point.act_nodes, Node.processAll_cons, h]
  exact if_neg hn

theorem of_round {name : String} {body : List Node} {length index : Nat} {item : Value}
    {items : List Value} (he : s.Ejecting) (hst : st.scope.Stacked)
    (h : Node.processAll engine (engine.includer depth) body (st.openRound name item index length) =
      .ok () st') (hs : st'.scope.signals = s) :
    EndsWith engine s (.rounds depth name body length index (item :: items), st) := by
  refine ⟨st', ?_, hs⟩
  rw [Point.act_rounds, processRounds_cons _ _ _ _ _ _ _ hst.frames_ne_nil, h]
  -- the loop clears nothing, and no round comes after this one
  simp [hs, he.eject, he.stopLoop, he.nextRound]

theorem of_calls {p q : Point × RenderState} (he : s.Ejecting) (h : Calls engine p q)
    (hst : p.2.scope.Stacked) (hq : EndsWith engine s q) : EndsWith engine s p := by
  obtain ⟨st', hq, hs⟩ := hq
  cases h with
  | next h hsig =>
      refine ⟨st', ?_, hs⟩
      rw [Point.act_nodes, Node.processAll_cons, h]
      exact (if_pos hsig).trans hq
  | @capture depth name body k rest st =>
      have hq : Node.processAll engine (engine.includer depth) body (st.enter .control []) = .ok () st' := hq
      obtain ⟨scope, _, hsig, hp⟩ := Node.process_capture_of_ok hst hq name k
      exact of_process he hp (hsig.trans hs)
  | @arm depth skipped condition body more k rest st v hskip hc hv =>
      refine of_process he ?_ hs
      rw [Node.process_branch, Node.processArms_of_skipped engine _ hskip hc hv]
      exact hq
  | @loop depth name source body k rest st v items hv hr =>
      have hq : processRounds (Node.processAll engine (engine.includer depth) body) name items.length 0 items
          (st.enter .control []) = .ok () st' := hq
      have hp : Node.process engine (engine.includer depth) (.loop name source body k) st =
          .ok () st'.leave := by
        simp [hv, hr, hq]
      exact of_process he hp hs
  | round => exact of_round he hst hq hs
  | nextRound h hsig =>
      refine ⟨st', ?_, hs⟩
      rw [Point.act_rounds, processRounds_cons _ _ _ _ _ _ _ hst.frames_ne_nil, h]
      simpa [Signals.isNone_iff.1 hsig, Signals.none] using hq
  | continued h hc hl =>
      refine ⟨st', ?_, hs⟩
      rw [Point.act_rounds, processRounds_cons _ _ _ _ _ _ _ hst.frames_ne_nil, h]
      simpa [hc, hl] using hq
  | @embed depth name arguments k rest st d st₁ t hd hr =>
      have hq : Node.processAll engine (engine.includer depth) t.nodes
          (st₁.enter .file [("include", .map d)]) = .ok () st' := hq
      have hp : Node.process engine (engine.includer (depth + 1)) (.embed name arguments k) st =
          .ok () st'.leave := by
        simp [hd, hr, hq]
      exact of_process he hp hs

end EndsWith

namespace Renderer

/-- The render comes to a tag that discards the output. -/
def Discards (r : Renderer) (t : Template) (data : Dict Value) : Prop :=
  ∃ depth k rest st, r.Visits t data (.nodes depth (.signal .discard k :: rest), st)

variable {r : Renderer} {t : Template} {data : Dict Value}

theorem Visits.endsWith {s : Signals} (he : s.Ejecting) {p : Point × RenderState} (h : r.Visits t data p)
    (hp : EndsWith r.engine s p) : EndsWith r.engine s (.nodes r.includeLimit t.nodes, r.start data) := by
  induction h with
  | refl => exact hp
  | tail hv hstep ih =>
      have hv : r.Visits t data _ := hv
      exact ih (hp.of_calls he (hstep.calls hv.stacked hv.signals) hv.stacked)

theorem Discards.run (h : r.Discards t data) :
    (r.run t data).2 = none ∧ (r.run t data).1.scope.signals.discard = true := by
  obtain ⟨depth, k, rest, st, hv⟩ := h
  have hsig : st.scope.signals.union (.of .discard) = .of .discard := by
    rw [hv.signals]
    rfl
  have he : (Signals.of .discard).Ejecting := ⟨rfl, rfl, rfl⟩
  have hend : EndsWith r.engine (.of .discard) (.nodes depth (.signal .discard k :: rest), st) :=
    EndsWith.of_process he (Node.process_signal ..) hsig
  obtain ⟨st', hrun, hs⟩ := hv.endsWith he hend
  rw [Point.act_nodes] at hrun
  rw [Renderer.run, hrun]
  exact ⟨rfl, by rw [hs]; rfl⟩

theorem signals_of_run_failed {e : EvalError} (h : (r.run t data).2 = some e) :
    (r.run t data).1.scope.signals = .none := by
  have hs := SignalsOnce.ofNodes r.engine r.includeLimit t.nodes (r.start data)
    (r.start_sound data).stacked rfl
  rw [run] at h ⊢
  cases hr : Node.processAll r.engine (r.engine.includer r.includeLimit) t.nodes (r.start data) with
  | ok _ st =>
      rw [hr] at h
      cases h
  | error halt st =>
      rw [hr] at hs
      exact hs.2 rfl

theorem render_marked (r : Renderer) (t : Template) (data : Dict Value) :
    let marking := ({ r with marksErrors := true } : Renderer).render t data
    let silent := ({ r with marksErrors := false } : Renderer).render t data
    marking.2.errors = silent.2.errors ∧ marking.2.globals? = silent.2.globals? ∧
      marking.1 = silent.1 ++ String.join (silent.2.errors.map (r.hooks.errorMarker t)) := by
  refine ⟨rfl, rfl, ?_⟩
  show (if (r.run t data).1.scope.signals.discard then "" else
      marked { r with marksErrors := true } t (r.run t data).1.output (r.run t data).2) =
    (if (r.run t data).1.scope.signals.discard then "" else
      marked { r with marksErrors := false } t (r.run t data).1.output (r.run t data).2) ++
      String.join ((r.run t data).2.toList.map (r.hooks.errorMarker t))
  cases he : (r.run t data).2 with
  | none => simp [marked, String.join]
  | some e =>
      -- a marker is not dropped again, since a failure leaves the register empty
      simp [marked, String.join, signals_of_run_failed he, Signals.none]

/-- A render records at most one error. One that discards has no output and no error. Error markers
change nothing but the end of the output, where the error's marker comes. Afterwards the global frame is
the only one and the register is empty. -/
theorem render_recovers (r : Renderer) (t : Template) (data : Dict Value) :
    (r.render t data).2.errors.length ≤ 1 ∧
    (r.Discards t data → (r.render t data).1 = "" ∧ (r.render t data).2.errors = []) ∧
    (let marking := ({ r with marksErrors := true } : Renderer).render t data
     let silent := ({ r with marksErrors := false } : Renderer).render t data
     marking.2.errors = silent.2.errors ∧ marking.2.globals? = silent.2.globals? ∧
       marking.1 = silent.1 ++ String.join (silent.2.errors.map (r.hooks.errorMarker t))) ∧
    ∃ globals, (r.render t data).2.scope = ⟨[⟨.globals, globals⟩], .none⟩ := by
  refine ⟨?_, ?_, r.render_marked t data, ?_⟩
  · show (r.run t data).2.toList.length ≤ 1
    cases (r.run t data).2 <;> simp
  · intro h
    obtain ⟨hnone, hdiscard⟩ := h.run
    exact ⟨if_pos hdiscard, congrArg Option.toList hnone⟩
  · obtain ⟨file, globals, hf, _⟩ := r.run_frames t data
    refine ⟨globals, ?_⟩
    show ((r.run t data).1.scope.clearSignals).truncate 1 = _
    simp [Scope.clearSignals, Scope.truncate, Scope.depth, hf]

/-- In the second round of a loop an included template discards. -/
theorem render_recovers_discarding :
    let r := (new .standard).register "drop" ⟨"", none, [.text "b" 0, .signal .discard 1]⟩
    let t : Template := ⟨"", none, [.text "a" 0,
      .loop "x" (.array [.literal (.int 1) 0, .literal (.int 2) 0] 0)
        [.branch [(.member (.variable "forloop" 0) "last" 0, [.embed "drop" [] 0])] 0] 0,
      .output (.variable "x" 0)]⟩
    r.Discards t [] ∧ (r.render t []).1 = "" ∧ (r.render t []).2.errors = [] := by
  intro r t
  have hloop : r.Visits t [] _ := .tail (.tail .refl (.call (.next rfl rfl))) (.call (.loop rfl rfl))
  have hbody := (hloop.tail (.call (.nextRound rfl rfl))).tail (.call .round)
  have hincluded := (hbody.tail (.call (@Calls.arm _ _ [] _ _ _ _ _ _ _ nofun rfl rfl))).tail
    (.call (.embed rfl rfl))
  have h : r.Discards t [] := ⟨_, _, _, _, hincluded.tail (.call (.next rfl rfl))⟩
  exact ⟨h, (r.render_recovers t []).2.1 h⟩

end Renderer

end Stencil
