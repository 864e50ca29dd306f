import Stencil.Proofs.Render.Visited

namespace Stencil

def Point.depth : Point → Nat
  | .nodes depth _ => depth
  | .rounds depth _ _ _ _ _ => depth

/-- Processing goes on from `p` to another point, and these includes have begun since and not ended, the last
one first. Only an include leads deeper. -/
inductive Leads (engine : Engine) (p : Point × RenderState) :
    List (String × Template) → Point × RenderState → Prop
  | here : Leads engine p [] p
  | proceed {stack q q'} (h : Leads engine p stack q) (hs : Proceeds engine q q')
      (hd : q'.1.depth = q.1.depth) : Leads engine p stack q'
  | embed {stack depth name arguments k rest st d st'} {t : Template}
      (h : Leads engine p stack (.nodes (depth + 1) (.embed name arguments k :: rest), st))
      (hd : Expr.evalArguments ⟨st.scope, engine.filters⟩ arguments [("__", .bool true)] = .ok d)
      (hr : engine.resolve name k st = .ok t st') :
      Leads engine p ((name, t) :: stack) (.nodes depth t.nodes, st'.enter .file [("include", .map d)])

theorem Leads.trans {engine : Engine} {p q q' : Point × RenderState} {stack more : List (String × Template)}
    (h : Leads engine p stack q) (h' : Leads engine q more q') : Leads engine p (more ++ stack) q' := by
  induction h' with
  | here => exact h
  | proceed _ hs hd ih => exact ih.proceed hs hd
  | embed _ hd hr ih => exact ih.embed hd hr

/-- The node fails with this error before anything in it or behind it is processed. -/
inductive Node.Fails (engine : Engine) (st : RenderState) : Node → EvalError → Prop
  | output {e x} (h : e.eval ⟨st.scope, engine.filters⟩ = .error x) : Fails engine st (.output e) x
  | assign {name e target k x} (h : e.eval ⟨st.scope, engine.filters⟩ = .error x) :
      Fails engine st (.assign name e target k) x
  | loop {name source body k x} (h : source.eval ⟨st.scope, engine.filters⟩ = .error x) :
      Fails engine st (.loop name source body k) x
  | branch {skipped condition body more k x}
      (hs : ∀ arm ∈ skipped, ∃ u, Expr.eval ⟨st.scope, engine.filters⟩ arm.1 = .ok u ∧ !u.isTruthy)
      (h : condition.eval ⟨st.scope, engine.filters⟩ = .error x) :
      Fails engine st (.branch (skipped ++ (condition, body) :: more) k) x
  | argument {name arguments k x}
      (h : Expr.evalArguments ⟨st.scope, engine.filters⟩ arguments [("__", .bool true)] = .error x) :
      Fails engine st (.embed name arguments k) x
  | missing {name arguments k d fault}
      (hd : Expr.evalArguments ⟨st.scope, engine.filters⟩ arguments [("__", .bool true)] = .ok d)
      (hn : engine.provide st.templates name = none) (hf : Loader.search name engine.loaders = .error fault) :
      Fails engine st (.embed name arguments k) (fault.at k)

/-- What becomes of an error on its way out of these includes. -/
def unwind (stack : List (String × Template)) (e : EvalError) : EvalError :=
  stack.foldl (fun e entered => Engine.locate entered.1 entered.2 e) e

def ComesFrom (engine : Engine) (p : Point × RenderState) (e : EvalError) : Prop :=
  ∃ stack depth n rest st raw, Leads engine p stack (.nodes depth (n :: rest), st) ∧
    n.Fails engine st raw ∧ e = unwind stack raw

namespace ComesFrom

variable {engine : Engine} {p q : Point × RenderState} {e x : EvalError} {depth : Nat} {n : Node}
  {rest : List Node} {st : RenderState}

theorem of_fails (h : n.Fails engine st e) : ComesFrom engine (.nodes depth (n :: rest), st) e :=
  ⟨[], depth, n, rest, st, e, .here, h, rfl⟩

theorem of_proceeds (hs : Proceeds engine p q) (hd : q.1.depth = p.1.depth) (h : ComesFrom engine q e) :
    ComesFrom engine p e := by
  obtain ⟨stack, depth, n, rest, st, raw, hl, hf, rfl⟩ := h
  have hl := (Leads.here.proceed hs hd).trans hl
  rw [List.append_nil] at hl
  exact ⟨stack, depth, n, rest, st, raw, hl, hf, rfl⟩

theorem of_embed {name : String} {arguments : List (String × Expr)} {k : Nat} {d : Dict Value}
    {st' : RenderState} {t : Template}
    (hd : Expr.evalArguments ⟨st.scope, engine.filters⟩ arguments [("__", .bool true)] = .ok d)
    (hr : engine.resolve name k st = .ok t st')
    (h : ComesFrom engine (.nodes depth t.nodes, st'.enter .file [("include", .map d)]) e) :
    ComesFrom engine (.nodes (depth + 1) (.embed name arguments k :: rest), st) (Engine.locate name t e) := by
  obtain ⟨stack, depth, n, rest, st, raw, hl, hf, rfl⟩ := h
  refine ⟨_, depth, n, rest, st, raw, (Leads.here.embed hd hr).trans hl, hf, ?_⟩
  -- this include is outside all the others, so it is the last to see the error
  rw [unwind, unwind, List.foldl_append]
  rfl

theorem of_rounds {body : List Node} {name : String} {length : Nat}
    (hbody : ∀ {st e st'}, st.scope.Stacked →
      Node.processAll engine (engine.includer depth) body st = .error (.failed e) st' →
        ComesFrom engine (.nodes depth body, st) e)
    {items : List Value} {index : Nat} {st st' : RenderState} (hst : st.scope.Stacked)
    (h : processRounds (Node.processAll engine (engine.includer depth) body) name length index items st =
      .error (.failed e) st') :
    ComesFrom engine (.rounds depth name body length index items, st) e := by
  induction items generalizing index st with
  | nil => cases h
  | cons item items ih =>
      have hopen : (st.openRound name item index length).scope.Stacked :=
        hst.of_kinds_eq (st.kinds_openRound name item index length)
      rw [processRounds_cons _ _ _ _ _ _ _ hst.frames_ne_nil] at h
      cases hb : Node.processAll engine (engine.includer depth) body (st.openRound name item index length) with
      | error halt st₁ =>
          rw [hb] at h
          cases h
          exact of_proceeds (.call .round) rfl (hbody hopen hb)
      | ok _ st₁ =>
          have hst₁ : st₁.scope.Stacked :=
            hopen.of_kinds_eq (Effect.onFrames.keeps_of_processAll hb).kinds
          rw [hb] at h
          dsimp only at h
          split at h
          · cases h
          next hl =>
            split at h
            next hn => exact of_proceeds (.call (.continued hb hn (by simpa using hl))) rfl (ih hst₁ h)
            next hn =>
              split at h
              · cases h
              next he =>
                exact of_proceeds (.nextRound hb (by simpa using hl) (by simpa using hn) (by simpa using he)) rfl
                  (ih hst₁ h)

theorem of_loop {body : List Node} {name : String} {source : Expr} {k : Nat}
    (hbody : ∀ {st e st'}, st.scope.Stacked →
      Node.processAll engine (engine.includer depth) body st = .error (.failed e) st' →
        ComesFrom engine (.nodes depth body, st) e)
    {st st' : RenderState} (hst : st.scope.Stacked)
    (h : Node.process engine (engine.includer depth) (.loop name source body k) st = .error (.failed e) st') :
    ComesFrom engine (.nodes depth (.loop name source body k :: rest), st) e := by
  rw [Node.process_loop] at h
  cases hx : source.eval ⟨st.scope, engine.filters⟩ with
  | error y =>
      rw [hx] at h
      cases h
      exact of_fails (.loop hx)
  | ok v =>
      rw [hx] at h
      dsimp only at h
      cases hr : v.rounds? with
      | none =>
          rw [hr] at h
          cases h
      | some items =>
          rw [hr] at h
          dsimp only at h
          have hin : (st.enter .control []).scope.Stacked := hst.push (by simp) []
          cases hb : processRounds (Node.processAll engine (engine.includer depth) body) name items.length 0
              items (st.enter .control []) with
          | ok _ st₁ =>
              rw [hb] at h
              cases h
          | error halt st₁ =>
              rw [hb] at h
              cases h
              exact of_proceeds (.call (.loop hx hr)) rfl (of_rounds hbody hin hb)

end ComesFrom

def Engine.Unwinds (engine : Engine) (depth : Nat) : Prop :=
  ∀ {name : String} {arguments : List (String × Expr)} {k : Nat} {d : Dict Value} {rest : List Node}
    {st st' : RenderState} {e : EvalError}, st.scope.Stacked →
      Expr.evalArguments ⟨st.scope, engine.filters⟩ arguments [("__", .bool true)] = .ok d →
        engine.includer depth name d k st = .error (.failed e) st' →
          ComesFrom engine (.nodes depth (.embed name arguments k :: rest), st) e

namespace Node

open ComesFrom

variable {engine : Engine} {depth : Nat}

mutual

theorem comesFrom_of_process (hi : engine.Unwinds depth) : (n : Node) → {rest : List Node} →
    {st st' : RenderState} → {e : EvalError} → st.scope.Stacked →
      n.process engine (engine.includer depth) st = .error (.failed e) st' →
        ComesFrom engine (.nodes depth (n :: rest), st) e
  | .text s k, _, _, _, _, _, h => by cases h
  | .output x, _, st, _, _, _, h => by
      rw [process_output] at h
      cases hx : x.eval ⟨st.scope, engine.filters⟩ with
      | ok v =>
          rw [hx] at h
          cases h
      | error y =>
          rw [hx] at h
          cases h
          exact of_fails (.output hx)
  | .assign name x target k, _, st, _, _, hst, h => by
      rw [process_assign] at h
      cases hx : x.eval ⟨st.scope, engine.filters⟩ with
      | ok v =>
          obtain ⟨scope, -, -, hassign⟩ := RenderState.assign_ok hst target name v
          rw [hx] at h
          dsimp only at h
          rw [hassign] at h
          cases h
      | error y =>
          rw [hx] at h
          cases h
          exact of_fails (.assign hx)
  | .capture name body k, _, st, _, _, hst, h => by
      have hin : (st.enter .control []).scope.Stacked := hst.push (by simp) []
      cases hb : processAll engine (engine.includer depth) body (st.enter .control []) with
      | ok _ st₁ =>
          obtain ⟨scope, -, -, hcapture⟩ := process_capture_of_ok hst hb name k
          rw [hcapture] at h
          cases h
      | error halt st₁ =>
          rw [process_capture, hb] at h
          cases h
          exact of_proceeds (.call .capture) rfl (comesFrom_of_processAll hi body hin hb)
  | .loop _ _ body _, _, _, _, _, hst, h => of_loop (comesFrom_of_processAll hi body) hst h
  | .branch arms k, _, _, _, _, hst, h => by
      rw [process_branch] at h
      exact comesFrom_of_processArms hi arms [] (List.forall_mem_nil _) hst h
  | .embed name arguments k, _, st, _, _, hst, h => by
      rw [process_embed] at h
      cases hd : Expr.evalArguments ⟨st.scope, engine.filters⟩ arguments [("__", .bool true)] with
      | error y =>
          rw [hd] at h
          cases h
          exact of_fails (.argument hd)
      | ok d =>
          rw [hd] at h
          exact hi hst hd h
  | .signal s k, _, _, _, _, _, h => by cases h
  | .comment k, _, _, _, _, _, h => by cases h
  | .newline k, _, _, _, _, _, h => by cases h

theorem comesFrom_of_processAll (hi : engine.Unwinds depth) : (ns : List Node) →
    {st st' : RenderState} → {e : EvalError} → st.scope.Stacked →
      processAll engine (engine.includer depth) ns st = .error (.failed e) st' →
        ComesFrom engine (.nodes depth ns, st) e
  | [], _, _, _, _, h => by cases h
  | n :: rest, st, _, _, hst, h => by
      rw [processAll_cons] at h
      cases hn : n.process engine (engine.includer depth) st with
      | error halt st₁ =>
          rw [hn] at h
          cases h
          exact comesFrom_of_process hi n hst hn
      | ok _ st₁ =>
          rw [hn] at h
          dsimp only at h
          split at h
          next hs =>
            have hst₁ := hst.of_kinds_eq (Effect.onFrames.keeps_of_process hn).kinds
            exact of_proceeds (.call (.next hn hs)) rfl (comesFrom_of_processAll hi rest hst₁ h)
          · cases h

theorem comesFrom_of_processArms (hi : engine.Unwinds depth) : (arms skipped : List (Expr × List Node)) →
    {k : Nat} → {rest : List Node} → {st st' : RenderState} → {e : EvalError} →
      (∀ arm ∈ skipped, ∃ u, Expr.eval ⟨st.scope, engine.filters⟩ arm.1 = .ok u ∧ !u.isTruthy) →
        st.scope.Stacked → processArms engine (engine.includer depth) arms st = .error (.failed e) st' →
          ComesFrom engine (.nodes depth (.branch (skipped ++ arms) k :: rest), st) e
  | [], _, _, _, _, _, _, _, _, h => by cases h
  | (condition, body) :: arms, _, _, _, st, _, _, hskipped, hst, h => by
      rw [processArms_cons] at h
      cases hc : condition.eval ⟨st.scope, engine.filters⟩ with
      | error y =>
          rw [hc] at h
          cases h
          exact of_fails (.branch hskipped hc)
      | ok v =>
          rw [hc] at h
          dsimp only at h
          split at h
          next hv =>
            exact of_proceeds (.call (.arm hskipped hc hv)) rfl (comesFrom_of_processAll hi body hst h)
          next hv =>
            -- this arm is one more that was skipped
            rw [List.append_cons]
            refine comesFrom_of_processArms hi arms _ (List.forall_mem_append.2 ⟨hskipped, ?_⟩) hst h
            exact List.forall_mem_singleton.2 ⟨v, hc, by simpa using hv⟩

end

end Node

theorem Engine.unwinds (engine : Engine) (depth : Nat) : engine.Unwinds depth := by
  induction depth with
  | zero =>
      intro name arguments k d rest st st' e _ _ h
      cases h
  | succ depth ih =>
      intro name arguments k d rest st st' e hst hd h
      rw [Engine.includer_succ] at h
      cases hr : engine.resolve name k st with
      | error halt st₁ =>
          obtain ⟨hn, fault, hf, rfl⟩ := engine.of_resolve_error hr
          rw [hr] at h
          cases h
          exact .of_fails (.missing hd hn hf)
      | ok t st₁ =>
          rw [hr] at h
          dsimp only at h
          have hst₁ : (st₁.enter .file [("include", .map d)]).scope.Stacked := by
            obtain ⟨templates, rfl, -⟩ := engine.of_resolve_ok hr
            exact hst.push (by simp) _
          cases hb : Node.processAll engine (engine.includer depth) t.nodes
              (st₁.enter .file [("include", .map d)]) with
          | ok _ st₂ =>
              rw [hb] at h
              cases h
          | error halt st₂ =>
              rw [hb] at h
              cases halt with
              | tooDeep => cases h
              | failed x =>
                  cases h
                  exact .of_embed hd hr (Node.comesFrom_of_processAll ih t.nodes hst₁ hb)

end Stencil
