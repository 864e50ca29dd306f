import Stencil.Proofs.Render.Reached

namespace Stencil

open Rendering

namespace Signals

def Single (s : Signals) : Prop :=
  s = none ∨ ∃ k, s = of k

def Passing (s : Signals) : Prop :=
  s = none ∨ s = of .eject ∨ s = of .discard

variable {s : Signals}

theorem isNone_iff : s.isNone ↔ s = none := by
  simp [isNone]

theorem Passing.single (h : s.Passing) : s.Single := by
  rcases h with h | h | h
  · exact .inl h
  · exact .inr ⟨_, h⟩
  · exact .inr ⟨_, h⟩

theorem Passing.eq_none (h : s.Passing) (he : s.eject = false) : s = none := by
  rcases h with rfl | rfl | rfl
  · rfl
  · cases he
  · cases he

theorem Single.passing (h : s.Single) (hl : s.stopLoop = false) (hn : s.nextRound = false) :
    s.Passing := by
  rcases h with rfl | ⟨k, rfl⟩
  · exact .inl rfl
  cases k with
  | stopLoop => cases hl
  | nextRound => cases hn
  | eject => exact .inr (.inl rfl)
  | discard => exact .inr (.inr rfl)

theorem Passing.unmet (h : s.Passing) : s.stopLoop = false ∧ s.nextRound = false := by
  rcases h with rfl | rfl | rfl <;> exact ⟨rfl, rfl⟩

theorem Single.of_met (h : s.Single) (hm : s.stopLoop ∨ s.nextRound) :
    s.eject = false ∧ s.discard = false := by
  rcases h with rfl | ⟨k, rfl⟩
  · exact ⟨rfl, rfl⟩
  cases k with
  | stopLoop | nextRound => exact ⟨rfl, rfl⟩
  | eject | discard => rcases hm with hm | hm <;> cases hm

end Signals

/-- How nodes leave a register that they found empty. -/
def LeavesSingle (h : Option Halt) (st : RenderState) : Prop :=
  st.scope.signals.Single ∧ (h.isSome → st.scope.signals = .none)

def SignalsOnce (act : Rendering Unit) : Prop :=
  ∀ st, st.scope.Stacked → st.scope.signals = .none → Ended (act st) LeavesSingle

theorem LeavesSingle.of_none {h : Option Halt} {st : RenderState} (hn : st.scope.signals = .none) :
    LeavesSingle h st :=
  ⟨.inl hn, fun _ => hn⟩

theorem Scope.Stacked.frames_ne_nil {s : Scope} (h : s.Stacked) : s.frames ≠ [] := by
  rintro hn
  have hpos := h.fileCount_pos
  rw [hn] at hpos
  exact absurd hpos (Nat.lt_irrefl 0)

namespace SignalsOnce

variable {engine : Engine} {depth : Nat}

theorem stacked_of_processAll {nodes : List Node} {st st' : RenderState} (hst : st.scope.Stacked)
    (h : Node.processAll engine (engine.includer depth) nodes st = .ok () st') : st'.scope.Stacked :=
  hst.of_kinds_eq (Effect.onFrames.keeps_of_processAll h).kinds

/-- The signals that end a loop or a round are met in it, and nothing else is in the register then. -/
theorem rounds {body : List Node} (hb : SignalsOnce (Node.processAll engine (engine.includer depth) body))
    (name : String) (length index : Nat) (items : List Value) (st : RenderState) (hst : st.scope.Stacked)
    (hn : st.scope.signals = .none) :
    Ended (processRounds (Node.processAll engine (engine.includer depth) body) name length index items st)
      fun h st' => st'.scope.signals.Passing ∧ (h.isSome → st'.scope.signals = .none) := by
  induction items generalizing index st with
  | nil => exact ⟨.inl hn, fun _ => hn⟩
  | cons item rest ih =>
      have hopen : (st.openRound name item index length).scope.Stacked :=
        hst.of_kinds_eq (st.kinds_openRound name item index length)
      have hbody := hb _ hopen hn
      rw [processRounds_cons _ _ _ _ _ _ _ hst.frames_ne_nil]
      cases hr : Node.processAll engine (engine.includer depth) body
          (st.openRound name item index length) with
      | error h st' =>
          rw [hr] at hbody
          exact ⟨.inl (hbody.2 rfl), hbody.2⟩
      | ok _ st' =>
          rw [hr] at hbody
          have hst' := stacked_of_processAll hopen hr
          -- a signal for the loop is cleared, and no other is left with it
          dsimp only
          split
          next => exact ⟨.inl rfl, fun _ => rfl⟩
          next hl =>
            split
            next => exact ih (index + 1) st'.clear hst' rfl
            next hc =>
              have hp := hbody.1.passing (by simpa using hl) (by simpa using hc)
              split
              next => exact ⟨hp, fun h => nomatch h⟩
              next he => exact ih (index + 1) st' hst' (hp.eq_none (by simpa using he))

theorem loop {body : List Node} (hb : SignalsOnce (Node.processAll engine (engine.includer depth) body))
    (name : String) (source : Expr) (k : Nat) (st : RenderState) (hst : st.scope.Stacked)
    (hn : st.scope.signals = .none) :
    Ended (Node.process engine (engine.includer depth) (.loop name source body k) st)
      fun h st' => st'.scope.signals.Passing ∧ (h.isSome → st'.scope.signals = .none) := by
  rw [Node.process_loop]
  cases source.eval ⟨st.scope, engine.filters⟩ with
  | error x => exact ⟨.inl hn, fun _ => hn⟩
  | ok v =>
      dsimp only
      cases v.rounds? with
      | none => exact ⟨.inl hn, fun _ => hn⟩
      | some items =>
          have hr := rounds hb name items.length 0 items (st.enter .control [])
            (hst.push (by simp) []) hn
          dsimp only
          cases hp : processRounds (Node.processAll engine (engine.includer depth) body) name
              items.length 0 items (st.enter .control []) with
          | ok _ st' =>
              rw [hp] at hr
              exact hr
          | error h st' =>
              rw [hp] at hr
              exact hr

mutual

theorem process (hi : ∀ name d offset, SignalsOnce (engine.includer depth name d offset)) :
    (n : Node) → SignalsOnce (n.process engine (engine.includer depth))
  | .text s k, st, _, hn => by
      rw [Node.process_text]
      exact .of_none hn
  | .output e, st, _, hn => by
      rw [Node.process_output]
      cases e.eval ⟨st.scope, engine.filters⟩ <;> exact .of_none hn
  | .assign name e target k, st, hst, hn => by
      rw [Node.process_assign]
      cases e.eval ⟨st.scope, engine.filters⟩ with
      | error x => exact .of_none hn
      | ok v =>
          obtain ⟨scope, _, hsig, hs⟩ := RenderState.assign_ok hst target name v
          dsimp only
          rw [hs]
          exact .of_none (hsig.trans hn)
  | .capture name body k, st, hst, hn => by
      have hin : (st.enter .control []).scope.Stacked := hst.push (by simp) []
      have hb := processAll hi body _ hin hn
      cases hr : Node.processAll engine (engine.includer depth) body (st.enter .control []) with
      | error h st' =>
          rw [hr] at hb
          rw [Node.process_capture, hr]
          exact hb
      | ok _ st' =>
          rw [hr] at hb
          obtain ⟨scope, _, hsig, hrun⟩ := Node.process_capture_of_ok hst hr name k
          rw [hrun]
          refine ⟨?_, fun h => nomatch h⟩
          show scope.signals.Single
          rw [hsig]
          exact hb.1
  | .loop name source body k, st, hst, hn => by
      refine (loop (processAll hi body) name source k st hst hn).imp ?_
      rintro h st' ⟨hp, hf⟩
      exact ⟨hp.single, hf⟩
  | .branch arms k, st, hst, hn => by
      rw [Node.process_branch]
      exact processArms hi arms st hst hn
  | .embed name arguments k, st, hst, hn => by
      rw [Node.process_embed]
      cases Expr.evalArguments ⟨st.scope, engine.filters⟩ arguments [("__", .bool true)] with
      | error x => exact .of_none hn
      | ok d => exact hi name d k st hst hn
  | .signal s k, st, _, hn => by
      rw [Node.process_signal]
      refine ⟨.inr ⟨s, ?_⟩, fun h => nomatch h⟩
      show st.scope.signals.union (.of s) = .of s
      rw [hn]
      cases s <;> rfl
  | .comment k, st, _, hn => by
      rw [Node.process_comment]
      exact .of_none hn
  | .newline k, st, _, hn => by
      rw [Node.process_newline]
      exact .of_none hn

theorem processAll (hi : ∀ name d offset, SignalsOnce (engine.includer depth name d offset)) :
    (nodes : List Node) → SignalsOnce (Node.processAll engine (engine.includer depth) nodes)
  | [], st, _, hn => by
      rw [Node.processAll_nil]
      exact .of_none hn
  | n :: rest, st, hst, hn => by
      have hnode := process hi n st hst hn
      have hrest := processAll hi rest
      rw [Node.processAll_cons]
      cases hr : n.process engine (engine.includer depth) st with
      | error h st' =>
          rw [hr] at hnode
          exact hnode
      | ok _ st' =>
          rw [hr] at hnode
          dsimp only
          split
          next hs =>
            exact hrest st' (hst.of_kinds_eq (Effect.onFrames.keeps_of_process hr).kinds)
              (Signals.isNone_iff.1 hs)
          next => exact hnode

theorem processArms (hi : ∀ name d offset, SignalsOnce (engine.includer depth name d offset)) :
    (arms : List (Expr × List Node)) → SignalsOnce (Node.processArms engine (engine.includer depth) arms)
  | [], st, _, hn => by
      rw [Node.processArms_nil]
      exact .of_none hn
  | (condition, body) :: rest, st, hst, hn => by
      have hbody := processAll hi body
      have hrest := processArms hi rest
      rw [Node.processArms_cons]
      cases condition.eval ⟨st.scope, engine.filters⟩ with
      | error x => exact .of_none hn
      | ok v =>
          dsimp only
          split
          next => exact hbody st hst hn
          next => exact hrest st hst hn

end

theorem includer (engine : Engine) (depth : Nat) :
    ∀ name d offset, SignalsOnce (engine.includer depth name d offset) := by
  induction depth with
  | zero => exact fun _ _ _ _ _ hn => .of_none hn
  | succ depth ih =>
      intro name d offset st hst hn
      rw [Engine.includer_succ]
      cases ht : engine.provide st.templates name with
      | none =>
          obtain ⟨fault, _, hr⟩ := engine.resolve_of_none ht offset
          rw [hr]
          exact .of_none hn
      | some t =>
          obtain ⟨templates, hr, _⟩ := engine.resolve_of_some ht offset
          rw [hr]
          dsimp only
          have hb := processAll ih t.nodes ({ st with templates }.enter .file [("include", .map d)])
            (hst.push (by simp) _) hn
          cases hq : Node.processAll engine (engine.includer depth) t.nodes
              ({ st with templates }.enter .file [("include", .map d)]) with
          | ok _ st' =>
              rw [hq] at hb
              exact hb
          | error h st' =>
              rw [hq] at hb
              cases h <;> exact hb

end SignalsOnce

end Stencil
