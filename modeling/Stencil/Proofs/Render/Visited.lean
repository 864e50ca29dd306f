import Stencil.Proofs.Render.Register

namespace Stencil

/-- What processing at a point goes on with, when the next round begins unless one of the signals that a
loop looks for is raised. -/
inductive Proceeds (engine : Engine) : Point × RenderState → Point × RenderState → Prop
  | call {p q} (h : Calls engine p q) : Proceeds engine p q
  | nextRound {depth name body length index item items st st'}
      (h : Node.processAll engine (engine.includer depth) body (st.openRound name item index length) =
        .ok () st')
      (hl : st'.scope.signals.stopLoop = false) (hn : st'.scope.signals.nextRound = false)
      (he : st'.scope.signals.eject = false) :
      Proceeds engine (.rounds depth name body length index (item :: items), st)
        (.rounds depth name body length (index + 1) items, st')

/-- All that is to be done at a point. -/
def Point.act (engine : Engine) : Point → Rendering Unit
  | .nodes depth ns => Node.processAll engine (engine.includer depth) ns
  | .rounds depth name body length index items =>
      processRounds (Node.processAll engine (engine.includer depth) body) name length index items

@[simp]
theorem Point.act_nodes (engine : Engine) (depth : Nat) (ns : List Node) :
    (Point.nodes depth ns).act engine = Node.processAll engine (engine.includer depth) ns := rfl

@[simp]
theorem Point.act_rounds (engine : Engine) (depth : Nat) (name : String) (body : List Node)
    (length index : Nat) (items : List Value) :
    (Point.rounds depth name body length index items).act engine =
      processRounds (Node.processAll engine (engine.includer depth) body) name length index items := rfl

namespace SignalsOnce

variable {engine : Engine}

theorem ofNodes (engine : Engine) (depth : Nat) (nodes : List Node) :
    SignalsOnce (Node.processAll engine (engine.includer depth) nodes) :=
  processAll (includer engine depth) nodes

theorem ofPoint (engine : Engine) (p : Point) : SignalsOnce (p.act engine) := by
  cases p with
  | nodes depth ns => exact ofNodes engine depth ns
  | rounds depth name body length index items =>
      intro st hst hn
      refine (rounds (ofNodes engine depth body) name length index items st hst hn).imp ?_
      rintro h st' ⟨hp, hf⟩
      exact ⟨hp.single, hf⟩

theorem of_openRound {depth : Nat} {body : List Node} {name : String} {item : Value} {index length : Nat}
    {st st' : RenderState} (hst : st.scope.Stacked) (hn : st.scope.signals = .none)
    (h : Node.processAll engine (engine.includer depth) body (st.openRound name item index length) =
      .ok () st') : st'.scope.signals.Single := by
  have hopen : (st.openRound name item index length).scope.Stacked :=
    hst.of_kinds_eq (st.kinds_openRound name item index length)
  have hb := ofNodes engine depth body (st.openRound name item index length) hopen hn
  rw [h] at hb
  exact hb.1

end SignalsOnce

variable {engine : Engine} {p q : Point × RenderState}

theorem Calls.signals (h : Calls engine p q) (hn : p.2.scope.signals = .none) :
    q.2.scope.signals = .none := by
  cases h with
  | next _ hs => exact Signals.isNone_iff.1 hs
  | capture => exact hn
  | arm => exact hn
  | loop => exact hn
  | round => exact hn
  | nextRound _ hs => exact Signals.isNone_iff.1 hs
  | continued => rfl
  | embed hd hr =>
      obtain ⟨templates, rfl, _⟩ := engine.of_resolve_ok hr
      exact hn

theorem Proceeds.calls (h : Proceeds engine p q) (hst : p.2.scope.Stacked)
    (hn : p.2.scope.signals = .none) : Calls engine p q := by
  cases h with
  | call h => exact h
  | nextRound h hl hn' he =>
      -- the one signal that may be left is none of those that the loop looks for
      exact .nextRound h (Signals.isNone_iff.2
        (((SignalsOnce.of_openRound hst hn h).passing hl hn').eq_none he))

namespace Renderer

def Visits (r : Renderer) (t : Template) (data : Dict Value) (p : Point × RenderState) : Prop :=
  Relation.ReflTransGen (Proceeds r.engine) (.nodes r.includeLimit t.nodes, r.start data) p

namespace Visits

variable {r : Renderer} {t : Template} {data : Dict Value} {p : Point × RenderState}

theorem calls (h : r.Visits t data p) :
    Relation.ReflTransGen (Calls r.engine) (.nodes r.includeLimit t.nodes, r.start data) p ∧
      p.2.Sound r.engine r.provides ∧ p.2.scope.signals = .none := by
  induction h with
  | refl => exact ⟨.refl, r.start_sound data, rfl⟩
  | tail _ hstep ih =>
      obtain ⟨hc, hs, hn⟩ := ih
      have hcall := hstep.calls hs.stacked hn
      exact ⟨hc.tail hcall, hcall.sound hs, hcall.signals hn⟩

theorem stacked (h : r.Visits t data p) : p.2.scope.Stacked :=
  h.calls.2.1.stacked

theorem signals (h : r.Visits t data p) : p.2.scope.signals = .none :=
  h.calls.2.2

end Visits

open Rendering

/-- Whatever a render comes to process finds the register empty and leaves at most one signal in it. So a
loop that ends leaves none of the signals meant for loops, and when it clears the register after a round,
no other signal is lost. -/
theorem register_single (r : Renderer) (t : Template) (data : Dict Value) :
    (∀ p st, r.Visits t data (p, st) → st.scope.signals = .none ∧
      Ended (p.act r.engine st) fun _ st' => st'.scope.signals.Single) ∧
    (∀ depth n rest st, r.Visits t data (.nodes depth (n :: rest), st) →
      Ended (n.process r.engine (r.engine.includer depth) st) fun _ st' => st'.scope.signals.Single) ∧
    (∀ depth name source body k rest st st',
      r.Visits t data (.nodes depth (.loop name source body k :: rest), st) →
      Node.process r.engine (r.engine.includer depth) (.loop name source body k) st = .ok () st' →
      st'.scope.signals.stopLoop = false ∧ st'.scope.signals.nextRound = false) ∧
    ∀ depth name body length index item items st st',
      r.Visits t data (.rounds depth name body length index (item :: items), st) →
      Node.processAll r.engine (r.engine.includer depth) body (st.openRound name item index length) =
        .ok () st' →
      st'.scope.signals.Single ∧ (st'.scope.signals.stopLoop ∨ st'.scope.signals.nextRound →
        st'.scope.signals.eject = false ∧ st'.scope.signals.discard = false) := by
  refine ⟨?_, ?_, ?_, ?_⟩
  · intro p st hv
    exact ⟨hv.signals, (SignalsOnce.ofPoint r.engine p st hv.stacked hv.signals).imp fun _ _ h => h.1⟩
  · intro depth n rest st hv
    exact (SignalsOnce.process (SignalsOnce.includer r.engine depth) n st hv.stacked hv.signals).imp
      fun _ _ h => h.1
  · intro depth name source body k rest st st' hv h
    have hl := SignalsOnce.loop (SignalsOnce.ofNodes r.engine depth body) name source k st hv.stacked
      hv.signals
    rw [h] at hl
    exact hl.1.unmet
  · intro depth name body length index item items st st' hv h
    have hs := SignalsOnce.of_openRound hv.stacked hv.signals h
    exact ⟨hs, hs.of_met⟩

/-- A loop in a loop: the inner one ends at its first round, and the outer one goes on. -/
theorem register_single_nested :
    let inner : Node := .loop "y" (.array [.literal (.int 1) 0, .literal (.int 2) 0] 0)
      [.signal .stopLoop 0] 0
    let t : Template := ⟨"", none, [.loop "x" (.array [.literal (.int 1) 0] 0) [inner, .text "on" 0] 0]⟩
    let st := (((new .standard).start []).enter .control []).openRound "x" (.int 1) 0 1
    (new .standard).Visits t [] (.nodes 1000 [inner, .text "on" 0], st) ∧
    ∃ st', Node.process (new .standard).engine ((new .standard).engine.includer 1000) inner st = .ok () st' ∧
      st'.scope.signals.stopLoop = false := by
  intro inner t st
  have hv : (new .standard).Visits t [] (.nodes 1000 [inner, .text "on" 0], st) :=
    .tail (.tail .refl (.call (.loop rfl rfl))) (.call .round)
  obtain ⟨st', h⟩ : ∃ st', Node.process (new .standard).engine ((new .standard).engine.includer 1000)
      inner st = .ok () st' := ⟨_, rfl⟩
  exact ⟨hv, st', h, (((new .standard).register_single t []).2.2.1 _ _ _ _ _ _ _ st' hv h).1⟩

end Renderer

end Stencil
