import Stencil.Proofs.Render.Simulation

namespace Stencil.Reference

variable {engine : Engine} {provide : String → Option Template}

def AgreeOn (engine : Engine) (provide : String → Option Template) (act : Rendering Unit)
    (ref : Env → Option Result) : Prop :=
  ∀ st env, st.scope = ⟨env, .none⟩ → st.Sound engine provide → Agrees engine st (act st) (ref env)

namespace Agrees

variable {st : RenderState}

theorem cases {res : EStateM.Result Halt RenderState Unit} {ref : Option Result}
    (h : Agrees engine st res ref) :
    (∃ e st', res = .error e st' ∧ ref = none) ∨
    ∃ st' r, res = .ok () st' ∧ ref = some r ∧ st'.scope = ⟨r.env, r.outcome.signals⟩ ∧
      st'.output = st.output ++ r.text ∧ engine.provide st'.templates = engine.provide st.templates := by
  match res, ref, h with
  | .ok _ st', some r, h => exact .inr ⟨st', r, rfl, rfl, h⟩
  | .error e st', none, _ => exact .inl ⟨e, st', rfl, rfl⟩

/-- More of the same comes after what agreed first. -/
theorem after {st' : RenderState} {s : String} {res : EStateM.Result Halt RenderState Unit}
    {ref : Option Result} (h : Agrees engine st' res ref) (ho : st'.output = st.output ++ s)
    (hp : engine.provide st'.templates = engine.provide st.templates) :
    Agrees engine st res (ref.bind fun r => some { r with text := s ++ r.text }) := by
  obtain ⟨e, st'', rfl, rfl⟩ | ⟨st'', r, rfl, rfl, hs, ho', hp'⟩ := h.cases
  · trivial
  · exact ⟨hs, by rw [ho', ho, String.append_assoc], hp'.trans hp⟩

end Agrees

theorem env_of_body {depth : Nat} {body : List Node} {st st' : RenderState} {d : Dict Value} {env env' : Env}
    {signals : Signals} (hr : Node.processAll engine (engine.includer depth) body st = .ok () st')
    (hst : st.scope.Stacked) (hs : st.scope = ⟨⟨.control, d⟩ :: env, .none⟩)
    (hs' : st'.scope = ⟨env', signals⟩) : env' = ⟨.control, d⟩ :: env'.tail := by
  have hn := (Effect.onFrames.closed engine).ofNodes depth body st
  rw [hr] at hn
  have hc := (hn.2 hst).1
  rw [hs, hs'] at hc
  exact hc.head_control

def leaving : EStateM.Result Halt RenderState Unit → EStateM.Result Halt RenderState Unit
  | .ok _ st => .ok () st.leave
  | .error h st => .error h st.leave

/-- The frame that is kept over the rounds holds at each round what a new one would. -/
theorem agree_rounds {depth : Nat} {body : List Node} {ref : Env → Option Result}
    (hb : AgreeOn engine provide (Node.processAll engine (engine.includer depth) body) ref) (name : String)
    (length index : Nat) (items : List Value) (st : RenderState) (d : Dict Value) (env : Env)
    (hs : st.scope = ⟨⟨.control, d⟩ :: env, .none⟩) (hd : Settled name d) (hst : st.Sound engine provide) :
    Agrees engine st
      (leaving (processRounds (Node.processAll engine (engine.includer depth) body) name length index items st))
      (runRounds ref name length index items env) := by
  induction items generalizing index st d env with
  | nil =>
      refine ⟨?_, ?_, rfl⟩
      · show st.scope.pop = _
        rw [hs]
        rfl
      · show st.output = st.output ++ ""
        simp
  | cons item rest ih =>
      have hscope : (st.openRound name item index length).scope =
          ⟨roundFrame name item index length :: env, .none⟩ := by
        simp [RenderState.openRound, hs, hd item index length, roundFrame]
      have hopen : (st.openRound name item index length).Sound engine provide := hst.of_keeps (.openRound ..)
      rw [processRounds_cons _ _ _ _ _ _ _ (by simp [hs]), runRounds]
      obtain ⟨e, st', hr, hq⟩ | ⟨st', r, hr, hq, hsc, ho, hp⟩ := (hb _ _ hscope hopen).cases
      · rw [hr, hq]
        trivial
      have hst' := hopen.of_keeps (Effect.onFrames.keeps_of_processAll hr)
      have hframes : r.env = roundFrame name item index length :: r.env.tail :=
        env_of_body hr hopen.stacked hscope hsc
      have hleave : st'.leave.scope = ⟨r.env.tail, r.outcome.signals⟩ := by
        show st'.scope.pop = _
        rw [hsc]
        simp [Scope.pop]
      -- the next round begins with the frame of this one
      have more : ∀ st'', st''.scope = ⟨r.env, .none⟩ → st''.output = st'.output →
          st''.templates = st'.templates →
          Agrees engine st
            (leaving (processRounds (Node.processAll engine (engine.includer depth) body) name length
              (index + 1) rest st''))
            ((runRounds ref name length (index + 1) rest r.env.tail).bind fun m =>
              some { m with text := r.text ++ m.text }) := by
        intro st'' hs'' ho'' ht''
        have hk : st''.scope.kinds = st'.scope.kinds := by
          rw [hs'', hsc]
          rfl
        refine (ih (index + 1) st'' _ r.env.tail (hs''.trans (congrArg (Scope.mk · .none) hframes))
          (settled_roundBindings name item index length)
          ⟨hst'.stacked.of_kinds_eq hk, by rw [ht'']; exact hst'.provide⟩).after ?_ ?_
        · rw [ho'', ho]
          rfl
        · rw [ht'', hp]
          rfl
      rw [hr, hq]
      dsimp only [Option.bind_eq_bind, Option.bind_some]
      rw [hsc]
      cases ho' : r.outcome with
      | normal => simpa [Outcome.signals, Signals.none] using more st' (by rw [hsc, ho']; rfl) rfl rfl
      | nextRound =>
          simpa [Outcome.signals, Signals.of] using more st'.clear (by
            show st'.scope.clearSignals = _
            rw [hsc]
            rfl) rfl rfl
      | stopLoop =>
          refine ⟨?_, ho, hp⟩
          show st'.scope.clearSignals.pop = _
          simp [hsc, Scope.clearSignals, Scope.pop, Outcome.signals]
      | eject => exact ⟨by rw [← ho']; exact hleave, ho, hp⟩
      | discard => exact ⟨by rw [← ho']; exact hleave, ho, hp⟩

def IncludersAgree (engine : Engine) (provide : String → Option Template) (includer : Stencil.Includer)
    (ref : Includer) : Prop :=
  ∀ name d offset, AgreeOn engine provide (includer name d offset) (ref name d)

mutual

theorem agree_run {depth : Nat}
    (hi : IncludersAgree engine provide (engine.includer depth) (includer (engine.setting provide) depth)) :
    (n : Node) → AgreeOn engine provide (n.process engine (engine.includer depth))
      (run (engine.setting provide) (includer (engine.setting provide) depth) n)
  | .text s k, st, env, hs, _ => by
      rw [Node.process_text, run]
      exact ⟨hs, rfl, rfl⟩
  | .output e, st, env, hs, _ => by
      rw [Node.process_output, run, evaluate_eq hs]
      cases e.eval ⟨st.scope, engine.filters⟩ with
      | error x => trivial
      | ok v => exact ⟨hs, rfl, rfl⟩
  | .assign name e target k, st, env, hs, _ => by
      rw [Node.process_assign, run, evaluate_eq hs]
      cases e.eval ⟨st.scope, engine.filters⟩ with
      | error x => trivial
      | ok v =>
          dsimp only [Except.toOption, Option.bind_eq_bind, Option.bind_some]
          obtain ⟨env', he, hu⟩ | ⟨he, h, hu⟩ := assign_cases hs target name v
          · rw [he, hu]
            exact ⟨rfl, by simp, rfl⟩
          · rw [he, hu]
            trivial
  | .capture name body k, st, env, hs, hst => by
      have hsc : (st.enter .control []).scope = ⟨⟨.control, []⟩ :: env, .none⟩ := by
        rw [RenderState.enter, hs]
        rfl
      have hb := agree_runAll hi body (st.enter .control []) _ hsc (hst.enter (by simp) [])
      rw [Node.process_capture, run]
      obtain ⟨e, st', hr, hq⟩ | ⟨st', r, hr, hq, hs', ho, hp⟩ := hb.cases
      · rw [hr, hq]
        trivial
      have ho : st'.output = st.output ++ r.text := ho
      rw [hr, hq]
      dsimp only [Option.bind_eq_bind, Option.bind_some]
      have hcut : (st'.leave.cut st.output.length).scope = ⟨r.env.tail, r.outcome.signals⟩ := by
        show st'.scope.pop = _
        simp [hs', Scope.pop]
      rw [writtenSince_append ho]
      obtain ⟨env', he, hu⟩ | ⟨he, h, hu⟩ := assign_cases hcut .here name (.string r.text)
      · rw [he, hu]
        refine ⟨rfl, ?_, hp⟩
        show (st'.cut st.output.length).output = st.output ++ ""
        rw [String.append_empty]
        exact cut_append ho
      · rw [he, hu]
        trivial
  | .loop name source body k, st, env, hs, hst => by
      rw [Node.process_loop, run, evaluate_eq hs]
      cases source.eval ⟨st.scope, engine.filters⟩ with
      | error x => trivial
      | ok v =>
          dsimp only [Except.toOption, Option.bind_eq_bind, Option.bind_some]
          cases v.rounds? with
          | none => exact ⟨hs, by simp, rfl⟩
          | some items =>
              have hsc : (st.enter .control []).scope = ⟨⟨.control, []⟩ :: env, .none⟩ := by
                rw [RenderState.enter, hs]
                rfl
              exact agree_rounds (agree_runAll hi body) name items.length 0 items (st.enter .control []) []
                env hsc (settled_nil name) (hst.enter (by simp) [])
  | .branch arms k, st, env, hs, hst => by
      rw [Node.process_branch, run]
      exact agree_runArms hi arms st env hs hst
  | .embed name arguments k, st, env, hs, hst => by
      rw [Node.process_embed, run, evaluateArguments_eq hs]
      cases Expr.evalArguments ⟨st.scope, engine.filters⟩ arguments [("__", .bool true)] with
      | error x => trivial
      | ok d => exact hi name d k st env hs hst
  | .signal s k, st, env, hs, _ => by
      rw [Node.process_signal, run]
      refine ⟨?_, by simp, rfl⟩
      show st.scope.raise (Signals.of s) = _
      rw [hs]
      cases s <;> rfl
  | .comment k, st, env, hs, _ => by
      rw [Node.process_comment, run]
      exact ⟨hs, by simp, rfl⟩
  | .newline k, st, env, hs, _ => by
      rw [Node.process_newline, run]
      exact ⟨hs, rfl, rfl⟩

theorem agree_runAll {depth : Nat}
    (hi : IncludersAgree engine provide (engine.includer depth) (includer (engine.setting provide) depth)) :
    (nodes : List Node) → AgreeOn engine provide (Node.processAll engine (engine.includer depth) nodes)
      (runAll (engine.setting provide) (includer (engine.setting provide) depth) nodes)
  | [], st, env, hs, _ => by
      rw [Node.processAll_nil, runAll]
      exact ⟨hs, by simp, rfl⟩
  | n :: rest, st, env, hs, hst => by
      have hrest := agree_runAll hi rest
      rw [Node.processAll_cons, runAll]
      obtain ⟨e, st', hr, hq⟩ | ⟨st', r, hr, hq, hs', ho, hp⟩ := (agree_run hi n st env hs hst).cases
      · rw [hr, hq]
        trivial
      rw [hr, hq]
      dsimp only [Option.bind_eq_bind, Option.bind_some]
      have hsig : st'.scope.signals.isNone ↔ r.outcome = .normal := by
        rw [hs']
        exact r.outcome.isNone_signals
      by_cases hn : r.outcome = .normal
      · rw [if_pos (hsig.2 hn), if_pos hn]
        rw [hn] at hs'
        exact (hrest st' r.env hs' (hst.of_keeps (Effect.onFrames.keeps_of_process hr))).after ho hp
      · rw [if_neg (fun h => hn (hsig.1 h)), if_neg hn]
        exact ⟨hs', ho, hp⟩

theorem agree_runArms {depth : Nat}
    (hi : IncludersAgree engine provide (engine.includer depth) (includer (engine.setting provide) depth)) :
    (arms : List (Expr × List Node)) →
      AgreeOn engine provide (Node.processArms engine (engine.includer depth) arms)
        (runArms (engine.setting provide) (includer (engine.setting provide) depth) arms)
  | [], st, env, hs, _ => by
      rw [Node.processArms_nil, runArms]
      exact ⟨hs, by simp, rfl⟩
  | (condition, body) :: rest, st, env, hs, hst => by
      have hbody := agree_runAll hi body
      have hrest := agree_runArms hi rest
      rw [Node.processArms_cons, runArms, evaluate_eq hs]
      cases condition.eval ⟨st.scope, engine.filters⟩ with
      | error x => trivial
      | ok v =>
          dsimp only [Except.toOption, Option.bind_eq_bind, Option.bind_some]
          by_cases hv : v.isTruthy
          · rw [if_pos hv, if_pos hv]
            exact hbody st env hs hst
          · rw [if_neg hv, if_neg hv]
            exact hrest st env hs hst

end

theorem agree_includer (depth : Nat) :
    IncludersAgree engine provide (engine.includer depth) (includer (engine.setting provide) depth) := by
  induction depth with
  | zero =>
      intro name d offset st env _ _
      trivial
  | succ depth ih =>
      intro name d offset st env hs hst
      rw [Engine.includer_succ, includer]
      have hp : (engine.setting provide).provide name = engine.provide st.templates name :=
        congrFun hst.provide.symm name
      rw [hp]
      cases ht : engine.provide st.templates name with
      | none =>
          obtain ⟨fault, _, hr⟩ := engine.resolve_of_none ht offset
          rw [hr]
          trivial
      | some t =>
          obtain ⟨templates, hr, hk⟩ := engine.resolve_of_some ht offset
          rw [hr]
          dsimp only [Option.bind_eq_bind, Option.bind_some]
          have hst' : RenderState.Sound engine provide { st with templates } :=
            ⟨hst.stacked, hk.trans hst.provide⟩
          have hsc : ({ st with templates }.enter .file [("include", .map d)]).scope =
              ⟨⟨.file, [("include", .map d)]⟩ :: env, .none⟩ := by
            rw [RenderState.enter, hs]
            rfl
          obtain ⟨e, st', hr', hq⟩ | ⟨st', r, hr', hq, hs', ho, hp'⟩ :=
            (agree_runAll ih t.nodes _ _ hsc (hst'.enter (by simp) _)).cases
          · rw [hr', hq]
            cases e <;> trivial
          · rw [hr', hq]
            refine ⟨?_, ho, hp'.trans hk⟩
            show st'.scope.pop = _
            simp [hs', Scope.pop]

end Stencil.Reference
