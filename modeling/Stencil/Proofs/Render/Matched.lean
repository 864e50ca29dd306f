import Stencil.Proofs.Node.Inlined
import Stencil.Proofs.Render.Paired
import Stencil.Proofs.Render.Register

namespace Stencil

structure RenderState.Matched (S : Scope → Scope → Prop) (engine : Engine)
    (provide provide' : String → Option Template) (st st' : RenderState) : Prop where
  scope : S st.scope st'.scope
  output : st'.output = st.output
  provide_left : engine.provide st.templates = provide
  provide_right : engine.provide st'.templates = provide'

structure Scope.Layered (S : Nat → Scope → Scope → Prop) (filters : FilterRegistry) (Sees : Expr → Prop)
    (writes : Prop) : Prop where
  signals : ∀ {k s s'}, S k s s' → s'.signals = s.signals
  withSignals : ∀ {k s s'} signals, S k s s' → S k { s with signals } { s' with signals }
  push : ∀ {k s s'} kind, S k s s' → S (k + 1) (s.push kind []) (s'.push kind [])
  pop : ∀ {k s s'}, S (k + 1) s s' → S k s.pop s'.pop
  set : ∀ {k s s'} name v, S (k + 1) s s' → Both (S (k + 1)) (s.set name v) (s'.set name v)
  assign : writes → ∀ {k s s'} target name v, S k s s' →
    Both (S k) (s.assign target name v) (s'.assign target name v)
  eval : ∀ {k s s' e}, S k s s' → Sees e → e.eval ⟨s', filters⟩ = e.eval ⟨s, filters⟩

theorem Scope.signals_of_withFrames {s s' : Scope} {frames : Option (List Frame)}
    (h : s.withFrames frames = .ok s') : s'.signals = s.signals := by
  cases frames with
  | some frames =>
      cases h
      rfl
  | none => cases h

theorem Scope.signals_of_assign {s s' : Scope} {target : AssignTarget} {name : String} {v : Value}
    (h : s.assign target name v = .ok s') : s'.signals = s.signals := by
  cases target with
  | here | everywhere => exact signals_of_withFrames h
  | includer =>
      rw [assign] at h
      split at h <;> exact signals_of_withFrames h

theorem Node.processAll_append {engine : Engine} {includer : Includer} {ns rest : List Node} {st : RenderState}
    (h : st.scope.signals = .none) :
    processAll engine includer (ns ++ rest) st = match processAll engine includer ns st with
      | .ok _ st' => if st'.scope.signals.isNone then processAll engine includer rest st' else .ok () st'
      | .error halt st' => .error halt st' := by
  induction ns generalizing st with
  | nil => exact (if_pos (Signals.isNone_iff.2 h)).symm
  | cons n ns ih =>
      rw [List.cons_append, processAll_cons, processAll_cons]
      cases process engine includer n st with
      | error halt st' => rfl
      | ok _ st' =>
          by_cases hs : st'.scope.signals.isNone
          · simp only [if_pos hs, ih (Signals.isNone_iff.1 hs)]
          · simp only [if_neg hs]

namespace Rendering

variable {α β : Type} {R : RenderState → RenderState → Prop} {P Q T : Signals → Prop}

/-- Both succeed with the same value and with such signals, or both fail with the same message. Nothing is said
where includes nest too deep in the first. -/
inductive MatchedResults (R : RenderState → RenderState → Prop) (Q : Signals → Prop) :
    EStateM.Result Halt RenderState α → EStateM.Result Halt RenderState α → Prop
  | ok {a : α} {st st' : RenderState} (h : R st st') (hq : Q st.scope.signals) :
      MatchedResults R Q (.ok a st) (.ok a st')
  | failed {e e' : EvalError} {st st' : RenderState} (he : e'.message = e.message) (h : R st st') :
      MatchedResults R Q (.error (.failed e) st) (.error (.failed e') st')
  | tooDeep {st : RenderState} {res : EStateM.Result Halt RenderState α} :
      MatchedResults R Q (.error .tooDeep st) res

def Matches (R : RenderState → RenderState → Prop) (P Q : Signals → Prop) (act act' : Rendering α) : Prop :=
  ∀ st st', R st st' → P st.scope.signals → MatchedResults R Q (act st) (act' st')

theorem MatchedResults.cases {res res' : EStateM.Result Halt RenderState α} (h : MatchedResults R Q res res') :
    (∃ a st st', res = .ok a st ∧ res' = .ok a st' ∧ R st st' ∧ Q st.scope.signals) ∨
      (∃ e e' st st', res = .error (.failed e) st ∧ res' = .error (.failed e') st' ∧
        e'.message = e.message ∧ R st st') ∨
      ∃ st, res = .error .tooDeep st := by
  cases h with
  | ok h hq => exact .inl ⟨_, _, _, rfl, rfl, h, hq⟩
  | failed he h => exact .inr (.inl ⟨_, _, _, _, rfl, rfl, he, h⟩)
  | tooDeep => exact .inr (.inr ⟨_, rfl⟩)

namespace Matches

theorem pure (a : α) (hpq : ∀ s, P s → Q s) : Matches R P Q (Pure.pure a) (Pure.pure a) :=
  fun _ _ h hp => .ok h (hpq _ hp)

theorem bind {x x' : Rendering α} {f f' : α → Rendering β} (hx : Matches R P Q x x')
    (hf : ∀ a, Matches R Q T (f a) (f' a)) : Matches R P T (x >>= f) (x' >>= f') := by
  intro st st' h hp
  rw [bind_apply, bind_apply]
  obtain ⟨a, st₁, st₁', hr, hr', h₁, hq⟩ | ⟨e, e', st₁, st₁', hr, hr', he, h₁⟩ | ⟨st₁, hr⟩ := (hx st st' h hp).cases
  · rw [hr, hr']
    exact hf a st₁ st₁' h₁ hq
  · rw [hr, hr']
    exact .failed he h₁
  · rw [hr]
    exact .tooDeep

theorem weaken {act act' : Rendering α} (h : Matches R P Q act act') (hqt : ∀ s, Q s → T s) :
    Matches R P T act act' := by
  intro st st' hst hp
  obtain ⟨a, st₁, st₁', hr, hr', h₁, hq⟩ | ⟨e, e', st₁, st₁', hr, hr', he, h₁⟩ | ⟨st₁, hr⟩ := (h st st' hst hp).cases
  · rw [hr, hr']
    exact .ok h₁ (hqt _ hq)
  · rw [hr, hr']
    exact .failed he h₁
  · rw [hr]
    exact .tooDeep

theorem mapHalt {act act' : Rendering α} {f f' : EvalError → EvalError} (hf : ∀ e, (f e).message = e.message)
    (hf' : ∀ e, (f' e).message = e.message) (h : Matches R P Q act act') :
    Matches R P Q (Rendering.mapHalt f act) (Rendering.mapHalt f' act') := by
  intro st st' hst hp
  rw [mapHalt_apply, mapHalt_apply]
  obtain ⟨a, st₁, st₁', hr, hr', h₁, hq⟩ | ⟨e, e', st₁, st₁', hr, hr', he, h₁⟩ | ⟨st₁, hr⟩ := (h st st' hst hp).cases
  · rw [hr, hr']
    exact .ok h₁ hq
  · rw [hr, hr']
    exact .failed (by rw [hf, hf', he]) h₁
  · rw [hr]
    exact .tooDeep

theorem get_bind {f f' : RenderState → Rendering α}
    (hf : ∀ st st', R st st' → P st.scope.signals → MatchedResults R Q (f st st) (f' st' st')) :
    Matches R P Q (get >>= f) (get >>= f') := by
  intro st st' h hp
  rw [bind_apply, bind_apply, get_apply, get_apply]
  exact hf st st' h hp

end Matches

end Rendering

namespace Scope.Layered

open Rendering

variable {α : Type} {S : Nat → Scope → Scope → Prop} {Sees : Expr → Prop} {writes : Prop} {engine : Engine}
  {provide provide' : String → Option Template} {P Q : Signals → Prop} {k : Nat}

abbrev Steps (S : Nat → Scope → Scope → Prop) (engine : Engine) (provide provide' : String → Option Template)
    (k : Nat) (P Q : Signals → Prop) (act act' : Rendering α) : Prop :=
  Matches (RenderState.Matched (S k) engine provide provide') P Q act act'

theorem write (s : String) : Steps S engine provide provide' k P P (Rendering.write s) (Rendering.write s) := by
  intro st st' h hp
  refine .ok ⟨h.scope, ?_, h.provide_left, h.provide_right⟩ hp
  exact congrArg (· ++ s) h.output

theorem modifySignals (hS : Layered S engine.filters Sees writes) (f : Signals → Signals)
    (hf : ∀ s, P s → Q (f s)) :
    Steps S engine provide provide' k P Q
      (modify fun st => { st with scope := { st.scope with signals := f st.scope.signals } })
      (modify fun st => { st with scope := { st.scope with signals := f st.scope.signals } }) := by
  intro st st' h hp
  refine .ok ⟨?_, h.output, h.provide_left, h.provide_right⟩ (hf _ hp)
  dsimp only
  rw [hS.signals h.scope]
  exact hS.withSignals _ h.scope

theorem updateScope {f : Scope → Except Failure Scope} (hf : ∀ {s s'}, S k s s' → Both (S k) (f s) (f s'))
    (hsignals : ∀ s s', f s = .ok s' → s'.signals = s.signals) :
    Steps S engine provide provide' k P P (Rendering.updateScope f) (Rendering.updateScope f) := by
  intro st st' h hp
  rw [updateScope_apply, updateScope_apply]
  have hboth := hf h.scope
  generalize hs : f st.scope = x, f st'.scope = x' at hboth
  cases hboth with
  | ok hscope =>
      refine .ok ⟨hscope, h.output, h.provide_left, h.provide_right⟩ ?_
      show P _
      rwa [hsignals _ _ hs]
  | error => exact .failed rfl h

theorem setTop (hS : Layered S engine.filters Sees writes) (name : String) (v : Value) :
    Steps S engine provide provide' (k + 1) P P (Rendering.updateScope (·.set name v))
      (Rendering.updateScope (·.set name v)) :=
  updateScope (hS.set name v) fun _ _ => signals_of_withFrames

theorem evaluate (hS : Layered S engine.filters Sees writes) {e : Expr} (he : Sees e) :
    Steps S engine provide provide' k P P (e.evaluate engine) (e.evaluate engine) := by
  intro st st' h hp
  rw [Expr.evaluate_apply, Expr.evaluate_apply, hS.eval h.scope he]
  cases e.eval ⟨st.scope, engine.filters⟩ with
  | ok v => exact .ok h hp
  | error x => exact .failed rfl h

theorem evaluateArguments (hS : Layered S engine.filters Sees writes) {arguments : List (String × Expr)}
    (ha : ∀ e ∈ arguments.map Prod.snd, Sees e) (d : Dict Value) :
    Steps S engine provide provide' k P P (Expr.evaluateArguments engine arguments d)
      (Expr.evaluateArguments engine arguments d) := by
  induction arguments generalizing d with
  | nil => exact .pure d fun _ => id
  | cons a rest ih =>
      obtain ⟨he, hrest⟩ := List.forall_mem_cons.1 ha
      exact .bind (hS.evaluate he) fun v => ih hrest _

theorem cutOutput (length : Nat) :
    Steps S engine provide provide' k P P (Rendering.cutOutput length) (Rendering.cutOutput length) := by
  intro st st' h hp
  show MatchedResults _ _ (.ok (st.writtenSince length) (st.cut length))
    (.ok (st'.writtenSince length) (st'.cut length))
  rw [RenderState.writtenSince, RenderState.writtenSince, RenderState.cut, RenderState.cut, h.output]
  exact .ok ⟨h.scope, rfl, h.provide_left, h.provide_right⟩ hp

theorem withFrame (hS : Layered S engine.filters Sees writes) {act act' : Rendering α} (kind : FrameKind)
    (ha : Steps S engine provide provide' (k + 1) P Q act act') :
    Steps S engine provide provide' k P Q (Rendering.withFrame kind act) (Rendering.withFrame kind act') := by
  intro st st' h hp
  have hpop {st st' : RenderState} (h : st.Matched (S (k + 1)) engine provide provide' st') :
      (popFrame st).Matched (S k) engine provide provide' (popFrame st') :=
    ⟨hS.pop h.scope, h.output, h.provide_left, h.provide_right⟩
  rw [withFrame_apply, withFrame_apply]
  have hin := ha { st with scope := st.scope.push kind [] } { st' with scope := st'.scope.push kind [] }
    ⟨hS.push kind h.scope, h.output, h.provide_left, h.provide_right⟩ hp
  obtain ⟨a, st₁, st₁', hr, hr', h₁, hq⟩ | ⟨e, e', st₁, st₁', hr, hr', he, h₁⟩ | ⟨st₁, hr⟩ := hin.cases
  · rw [hr, hr']
    exact .ok (hpop h₁) hq
  · rw [hr, hr']
    exact .failed he (hpop h₁)
  · rw [hr]
    exact .tooDeep

abbrev Agree (S : Nat → Scope → Scope → Prop) (engine : Engine) (provide provide' : String → Option Template)
    (k : Nat) (act act' : Rendering Unit) : Prop :=
  Steps S engine provide provide' k (· = .none) Signals.Single act act'

/-- A loop begins each round without signals. -/
theorem rounds (hS : Layered S engine.filters Sees writes) {body body' : Rendering Unit}
    (hb : Agree S engine provide provide' (k + 1) body body') (name : String) (length index : Nat)
    (items : List Value) :
    Agree S engine provide provide' (k + 1) (processRounds body name length index items)
      (processRounds body' name length index items) := by
  induction items generalizing index with
  | nil => exact .pure () fun _ => .inl
  | cons item rest ih =>
      rw [processRounds, processRounds]
      refine .bind (hS.setTop _ _) fun _ => .bind (hS.setTop _ _) fun _ => .bind hb fun _ => .get_bind ?_
      intro st st' h hsingle
      rw [hS.signals h.scope]
      split
      · refine Matches.bind (hS.modifySignals (fun _ => .none) (Q := (· = .none)) fun _ _ => rfl) (fun _ => ?_)
          st st' h hsingle
        split
        · exact .pure () fun _ => .inl
        · exact ih (index + 1)
      next hmet =>
        split
        · exact Matches.pure () (fun _ => id) st st' h hsingle
        next heject =>
          obtain ⟨hstop, hnext⟩ : st.scope.signals.stopLoop = false ∧ st.scope.signals.nextRound = false := by
            simpa using hmet
          refine ih (index + 1) st st' h ?_
          exact (hsingle.passing hstop hnext).eq_none (by simpa using heject)

/-- What includes have to do where they are allowed: the same in both runs, and where one is written out, the same
as the nodes in its place. -/
structure Inlining (S : Nat → Scope → Scope → Prop) (engine : Engine) (provide provide' : String → Option Template)
    (writes : Prop) (name : String) (part : List Node) (includer includer' : Includer) : Prop where
  embed : writes → ∀ k file d offset,
    Agree S engine provide provide' k (includer file d offset) (includer' file d offset)
  inline : writes → ∀ k offset,
    Agree S engine provide provide' k (includer name [("__", .bool true)] offset)
      (Node.processAll engine includer' part)

section nodes

variable {includer includer' : Includer} {name : String} {part : List Node}

mutual

/-- The same nodes, but for includes that are written out, do the same in both runs. -/
theorem process_inlined (hS : Layered S engine.filters Sees writes)
    (hi : Inlining S engine provide provide' writes name part includer includer') {n n' : Node}
    (k : Nat) : Node.Inlined name part n n' → (∀ e ∈ n.expressions, Sees e) → (∀ m ∈ n.walk, m.isPlain ∨ writes) →
      Agree S engine provide provide' k (n.process engine includer) (n'.process engine includer')
  | .text s _ => by
      intro _ _
      rw [Node.process, Node.process]
      exact .weaken (write s) fun _ => .inl
  | .output e => by
      intro he _
      rw [Node.process, Node.process]
      exact .bind (hS.evaluate (he e List.mem_cons_self)) fun v => .weaken (write _) fun _ => .inl
  | .assign x value target _ => by
      intro he hw
      have hwrites : writes := (hw _ List.mem_cons_self).resolve_left Bool.false_ne_true
      rw [Node.process, Node.process]
      refine .bind (hS.evaluate (he value List.mem_cons_self)) fun v => .weaken ?_ fun _ => .inl
      exact updateScope (hS.assign hwrites target x v) fun _ _ => signals_of_assign
  | .capture x hbody _ => by
      intro he hw
      obtain ⟨hself, hwbody⟩ := List.forall_mem_cons.1 hw
      have hwrites : writes := hself.resolve_left Bool.false_ne_true
      have hb := processAll_inlined hS hi (k + 1) hbody he hwbody
      rw [Node.process, Node.process]
      refine .get_bind ?_
      intro st st' h hp
      rw [h.output]
      refine Matches.bind (hS.withFrame .control hb) (fun _ => ?_) st st' h hp
      refine .bind (cutOutput _) fun captured => ?_
      exact updateScope (hS.assign hwrites .here x (.string captured)) fun _ _ => signals_of_withFrames
  | .loop x source hbody _ => by
      intro he hw
      obtain ⟨hsource, hebody⟩ := List.forall_mem_cons.1 he
      have hb := processAll_inlined hS hi (k + 1) hbody hebody (List.forall_mem_cons.1 hw).2
      rw [Node.process, Node.process]
      refine .bind (hS.evaluate hsource) fun v => ?_
      cases v.rounds? with
      | none => exact .pure () fun _ => .inl
      | some items => exact hS.withFrame .control (hS.rounds hb x items.length 0 items)
  | .branch harms _ => by
      intro he hw
      rw [Node.process, Node.process]
      exact processArms_inlined hS hi k harms he (List.forall_mem_cons.1 hw).2
  | .embed file arguments offset => by
      intro he hw
      have hwrites : writes := (hw _ List.mem_cons_self).resolve_left Bool.false_ne_true
      rw [Node.process, Node.process]
      exact .bind (hS.evaluateArguments he _) fun d => hi.embed hwrites k file d offset
  | .signal s _ => by
      intro _ _
      rw [Node.process, Node.process]
      refine hS.modifySignals (·.union (Signals.of s)) ?_
      rintro _ rfl
      exact .inr ⟨s, by cases s <;> rfl⟩
  | .comment _ => by
      intro _ _
      rw [Node.process, Node.process]
      exact .pure () fun _ => .inl
  | .newline _ => by
      intro _ _
      rw [Node.process, Node.process]
      exact .weaken (write _) fun _ => .inl

theorem processAll_inlined (hS : Layered S engine.filters Sees writes)
    (hi : Inlining S engine provide provide' writes name part includer includer')
    {ns ns' : List Node} (k : Nat) : Node.InlinedAll name part ns ns' →
    (∀ e ∈ Node.expressionsAll ns, Sees e) → (∀ m ∈ Node.walkAll ns, m.isPlain ∨ writes) →
      Agree S engine provide provide' k (Node.processAll engine includer ns) (Node.processAll engine includer' ns')
  | .nil => by
      intro _ _
      rw [Node.processAll, Node.processAll]
      exact .pure () fun _ => .inl
  | .cons hn hrest => by
      intro he hw
      obtain ⟨hen, herest⟩ := List.forall_mem_append.1 he
      obtain ⟨hwn, hwrest⟩ := List.forall_mem_append.1 hw
      have hfirst := process_inlined hS hi k hn hen hwn
      have hmore := processAll_inlined hS hi k hrest herest hwrest
      rw [Node.processAll, Node.processAll]
      refine .bind hfirst fun _ => .get_bind ?_
      intro st st' h hp
      rw [hS.signals h.scope]
      split
      next hnone => exact hmore st st' h (Signals.isNone_iff.1 hnone)
      next => exact Matches.pure () (fun _ => id) st st' h hp
  | .inline offset hrest => by
      intro he hw
      obtain ⟨hself, hwrest⟩ := List.forall_mem_cons.1 hw
      have hwrites : writes := hself.resolve_left Bool.false_ne_true
      have hmore := processAll_inlined hS hi k hrest he hwrest
      intro st st' h hp
      have hnone : st'.scope.signals = .none := (hS.signals h.scope).trans hp
      have hembed : Node.process engine includer (.embed name [] offset) st =
          includer name [("__", .bool true)] offset st := by
        rw [Node.process_embed]
        rfl
      rw [Node.processAll_cons, hembed, Node.processAll_append hnone]
      obtain ⟨a, st₁, st₁', hr, hr', h₁, hq⟩ | ⟨e, e', st₁, st₁', hr, hr', he, h₁⟩ | ⟨st₁, hr⟩ :=
        (hi.inline hwrites k offset st st' h hp).cases
      · rw [hr, hr']
        dsimp only
        rw [hS.signals h₁.scope]
        split
        next hquiet => exact hmore st₁ st₁' h₁ (Signals.isNone_iff.1 hquiet)
        next => exact .ok h₁ hq
      · rw [hr, hr']
        exact .failed he h₁
      · rw [hr]
        exact .tooDeep

theorem processArms_inlined (hS : Layered S engine.filters Sees writes)
    (hi : Inlining S engine provide provide' writes name part includer includer')
    {arms arms' : List (Expr × List Node)} (k : Nat) :
    Node.InlinedArms name part arms arms' → (∀ e ∈ Node.expressionsArms arms, Sees e) →
      (∀ m ∈ Node.walkArms arms, m.isPlain ∨ writes) →
        Agree S engine provide provide' k (Node.processArms engine includer arms)
          (Node.processArms engine includer' arms')
  | .nil => by
      intro _ _
      rw [Node.processArms, Node.processArms]
      exact .pure () fun _ => .inl
  | .cons condition hbody hrest => by
      intro he hw
      obtain ⟨hcondition, he⟩ := List.forall_mem_cons.1 he
      obtain ⟨hebody, herest⟩ := List.forall_mem_append.1 he
      obtain ⟨hwbody, hwrest⟩ := List.forall_mem_append.1 hw
      have hb := processAll_inlined hS hi k hbody hebody hwbody
      have hmore := processArms_inlined hS hi k hrest herest hwrest
      rw [Node.processArms, Node.processArms]
      refine .bind (hS.evaluate hcondition) fun v => ?_
      split
      · exact hb
      · exact hmore

end

end nodes

end Scope.Layered

end Stencil
