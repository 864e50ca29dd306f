import Stencil.Node.Basic
import Stencil.Proofs.Node.Alike
import Stencil.Proofs.Node.Expressions
import Stencil.Proofs.Render.Provided

namespace Stencil

inductive Scope.Both (S : Scope → Scope → Prop) : Except Failure Scope → Except Failure Scope → Prop
  | ok {s s' : Scope} : S s s' → Both S (.ok s) (.ok s')
  | error {e e' : Failure} : Both S (.error e) (.error e')

structure Scope.Congruence (S : Scope → Scope → Prop) (filters : FilterRegistry) (Sees : Expr → Prop) :
    Prop where
  signals : ∀ {s s'}, S s s' → s'.signals = s.signals
  withSignals : ∀ {s s'} signals, S s s' → S { s with signals } { s' with signals }
  push : ∀ {s s'} kind, S s s' → S (s.push kind []) (s'.push kind [])
  pop : ∀ {s s'}, S s s' → S s.pop s'.pop
  set : ∀ {s s'} name v, S s s' → Both S (s.set name v) (s'.set name v)
  assign : ∀ {s s'} target name v, S s s' → Both S (s.assign target name v) (s'.assign target name v)
  eval : ∀ {s s' e}, S s s' → Sees e → e.eval ⟨s', filters⟩ = e.eval ⟨s, filters⟩

structure RenderState.Beside (S : Scope → Scope → Prop) (Outputs : String → String → Prop) (engine : Engine)
    (provide : String → Option Template) (st st' : RenderState) : Prop where
  scope : S st.scope st'.scope
  output : Outputs st.output st'.output
  provide_left : engine.provide st.templates = provide
  provide_right : engine.provide st'.templates = provide

abbrev RenderState.Related (S : Scope → Scope → Prop) (engine : Engine)
    (provide : String → Option Template) : RenderState → RenderState → Prop :=
  Beside S (fun o o' => o' = o) engine provide

namespace Rendering

variable {α β : Type}

/-- Related texts may be written to related outputs. Where there are captures, what was written since the outputs
were related is the same in both. -/
structure OutputCongruence (Outputs Texts : String → String → Prop) (captures : Prop) : Prop where
  refl : ∀ s, Texts s s
  write : ∀ {o o' s s'}, Outputs o o' → Texts s s' → Outputs (o ++ s) (o' ++ s')
  cut : captures → ∀ {o o' p p' : String}, Outputs o o' → Outputs p p' →
    Outputs (String.ofList (p.toList.take o.length)) (String.ofList (p'.toList.take o'.length)) ∧
      String.ofList (p'.toList.drop o'.length) = String.ofList (p.toList.drop o.length)

theorem outputCongruence_same : OutputCongruence (fun o o' => o' = o) Eq True where
  refl _ := rfl
  write := by
    rintro o _ s _ rfl rfl
    rfl
  cut := by
    rintro - o _ p _ rfl rfl
    exact ⟨rfl, rfl⟩

inductive PairedResults (deep : Prop) (R : RenderState → RenderState → Prop) :
    EStateM.Result Halt RenderState α → EStateM.Result Halt RenderState α → Prop
  | ok {a : α} {st st' : RenderState} (h : R st st') : PairedResults deep R (.ok a st) (.ok a st')
  | error {e : Halt} {st st' : RenderState} (he : e = .tooDeep → deep) (h : R st st') :
      PairedResults deep R (.error e st) (.error e st')

def Paired (deep : Prop) (R : RenderState → RenderState → Prop) (act act' : Rendering α) : Prop :=
  ∀ st st', R st st' → PairedResults deep R (act st) (act' st')

section

variable {deep : Prop} {R : RenderState → RenderState → Prop}

theorem PairedResults.cases {res res' : EStateM.Result Halt RenderState α}
    (h : PairedResults deep R res res') :
    (∃ a st st', res = .ok a st ∧ res' = .ok a st' ∧ R st st') ∨
      ∃ e st st', res = .error e st ∧ res' = .error e st' ∧ (e = .tooDeep → deep) ∧ R st st' := by
  cases h with
  | ok hr => exact .inl ⟨_, _, _, rfl, rfl, hr⟩
  | error he hr => exact .inr ⟨_, _, _, rfl, rfl, he, hr⟩

namespace Paired

theorem pure (a : α) : Paired deep R (Pure.pure a) (Pure.pure a) :=
  fun _ _ h => .ok h

theorem bind {x x' : Rendering α} {f f' : α → Rendering β} (hx : Paired deep R x x')
    (hf : ∀ a, Paired deep R (f a) (f' a)) : Paired deep R (x >>= f) (x' >>= f') := by
  intro st st' h
  rw [bind_apply, bind_apply]
  obtain ⟨a, st₁, st₁', hr, hr', h₁⟩ | ⟨e, st₁, st₁', hr, hr', he, h₁⟩ := (hx st st' h).cases
  · rw [hr, hr']
    exact hf a st₁ st₁' h₁
  · rw [hr, hr']
    exact .error he h₁

theorem get_bind {f f' : RenderState → Rendering α}
    (hf : ∀ st st', R st st' → PairedResults deep R (f st st) (f' st' st')) :
    Paired deep R (get >>= f) (get >>= f') := by
  intro st st' h
  rw [bind_apply, bind_apply, get_apply, get_apply]
  exact hf st st' h

theorem mapHalt {act act' : Rendering α} (f : EvalError → EvalError) (ha : Paired deep R act act') :
    Paired deep R (Rendering.mapHalt f act) (Rendering.mapHalt f act') := by
  intro st st' h
  rw [mapHalt_apply, mapHalt_apply]
  obtain ⟨a, st₁, st₁', hr, hr', h₁⟩ | ⟨e, st₁, st₁', hr, hr', he, h₁⟩ := (ha st st' h).cases
  · rw [hr, hr']
    exact .ok h₁
  · rw [hr, hr']
    cases e with
    | failed e => exact .error nofun h₁
    | tooDeep => exact .error he h₁

end Paired

end

end Rendering

namespace Scope.Congruence

open Rendering

variable {α : Type} {deep captures : Prop} {engine : Engine} {provide : String → Option Template}
  {S : Scope → Scope → Prop} {Sees : Expr → Prop} {Outputs Texts : String → String → Prop}

abbrev Aligned (deep : Prop) (S : Scope → Scope → Prop) (Outputs : String → String → Prop) (engine : Engine)
    (provide : String → Option Template) (act act' : Rendering α) : Prop :=
  Paired deep (RenderState.Beside S Outputs engine provide) act act'

abbrev Pairs (deep : Prop) (S : Scope → Scope → Prop) (engine : Engine)
    (provide : String → Option Template) (act act' : Rendering α) : Prop :=
  Paired deep (RenderState.Related S engine provide) act act'

theorem modifySignals (hS : Congruence S engine.filters Sees) (f : Signals → Signals) :
    Aligned deep S Outputs engine provide
      (modify fun st => { st with scope := { st.scope with signals := f st.scope.signals } })
      (modify fun st => { st with scope := { st.scope with signals := f st.scope.signals } }) := by
  intro st st' h
  refine .ok ⟨?_, h.output, h.provide_left, h.provide_right⟩
  dsimp only
  rw [hS.signals h.scope]
  exact hS.withSignals _ h.scope

theorem write (hO : OutputCongruence Outputs Texts captures) {s s' : String} (hs : Texts s s') :
    Aligned deep S Outputs engine provide (Rendering.write s) (Rendering.write s') :=
  fun _ _ h => .ok ⟨h.scope, hO.write h.output hs, h.provide_left, h.provide_right⟩

theorem updateScope {f : Scope → Except Failure Scope} (hf : ∀ {s s'}, S s s' → Both S (f s) (f s')) :
    Aligned deep S Outputs engine provide (Rendering.updateScope f) (Rendering.updateScope f) := by
  intro st st' h
  rw [updateScope_apply, updateScope_apply]
  have hboth := hf h.scope
  generalize f st.scope = x, f st'.scope = x' at hboth
  cases hboth with
  | ok hs => exact .ok ⟨hs, h.output, h.provide_left, h.provide_right⟩
  | error => exact .error nofun h

theorem evaluate (hS : Congruence S engine.filters Sees) {e : Expr} (he : Sees e) :
    Aligned deep S Outputs engine provide (e.evaluate engine) (e.evaluate engine) := by
  intro st st' h
  rw [Expr.evaluate_apply, Expr.evaluate_apply, hS.eval h.scope he]
  cases e.eval ⟨st.scope, engine.filters⟩ with
  | ok v => exact .ok h
  | error x => exact .error nofun h

theorem evaluateArguments (hS : Congruence S engine.filters Sees) {arguments : List (String × Expr)}
    (ha : ∀ e ∈ arguments.map Prod.snd, Sees e) (d : Dict Value) :
    Aligned deep S Outputs engine provide (Expr.evaluateArguments engine arguments d)
      (Expr.evaluateArguments engine arguments d) := by
  induction arguments generalizing d with
  | nil => exact .pure d
  | cons a rest ih =>
      obtain ⟨he, hrest⟩ := List.forall_mem_cons.1 ha
      exact .bind (hS.evaluate he) fun v => ih hrest _

theorem cutOutput (hO : OutputCongruence Outputs Texts captures) (hc : captures) {o o' : String}
    (ho : Outputs o o') :
    Aligned deep S Outputs engine provide (Rendering.cutOutput o.length) (Rendering.cutOutput o'.length) := by
  intro st st' h
  obtain ⟨hkept, hcut⟩ := hO.cut hc ho h.output
  show PairedResults _ _ (.ok (st.writtenSince o.length) (st.cut o.length))
    (.ok (st'.writtenSince o'.length) (st'.cut o'.length))
  rw [RenderState.writtenSince, RenderState.writtenSince, hcut]
  exact .ok ⟨h.scope, hkept, h.provide_left, h.provide_right⟩

theorem withFrame (hS : Congruence S engine.filters Sees) {act act' : Rendering α} (kind : FrameKind)
    (ha : Aligned deep S Outputs engine provide act act') :
    Aligned deep S Outputs engine provide (Rendering.withFrame kind act) (Rendering.withFrame kind act') := by
  intro st st' h
  rw [withFrame_apply, withFrame_apply]
  have hin := ha { st with scope := st.scope.push kind [] } { st' with scope := st'.scope.push kind [] }
    ⟨hS.push kind h.scope, h.output, h.provide_left, h.provide_right⟩
  obtain ⟨a, st₁, st₁', hr, hr', h₁⟩ | ⟨e, st₁, st₁', hr, hr', he, h₁⟩ := hin.cases
  · rw [hr, hr']
    exact .ok ⟨hS.pop h₁.scope, h₁.output, h₁.provide_left, h₁.provide_right⟩
  · rw [hr, hr']
    exact .error he ⟨hS.pop h₁.scope, h₁.output, h₁.provide_left, h₁.provide_right⟩

theorem resolve_bind {name : String} {f f' : Template → Rendering α}
    (hf : ∀ t, provide name = some t → Aligned deep S Outputs engine provide (f t) (f' t)) (offset : Nat) :
    Aligned deep S Outputs engine provide (engine.resolve name offset >>= f)
      (engine.resolve name offset >>= f') := by
  intro st st' h
  rw [bind_apply, bind_apply]
  cases hp : provide name with
  | some t =>
      obtain ⟨templates, hr, hk⟩ := engine.resolve_of_some (h.provide_left ▸ hp) offset
      obtain ⟨templates', hr', hk'⟩ := engine.resolve_of_some (h.provide_right ▸ hp) offset
      rw [hr, hr']
      exact hf t hp _ _ ⟨h.scope, h.output, hk.trans h.provide_left, hk'.trans h.provide_right⟩
  | none =>
      obtain ⟨fault, hs, hr⟩ := engine.resolve_refused (h.provide_left ▸ hp) offset
      obtain ⟨fault', hs', hr'⟩ := engine.resolve_refused (h.provide_right ▸ hp) offset
      obtain rfl : fault = fault' := Except.error.inj (hs.symm.trans hs')
      rw [hr, hr']
      exact .error nofun h

theorem rounds (hS : Congruence S engine.filters Sees) {body body' : Rendering Unit}
    (hb : Aligned deep S Outputs engine provide body body') (name : String) (length index : Nat)
    (items : List Value) :
    Aligned deep S Outputs engine provide (processRounds body name length index items)
      (processRounds body' name length index items) := by
  induction items generalizing index with
  | nil => exact .pure ()
  | cons item rest ih =>
      rw [processRounds, processRounds]
      refine .bind (updateScope (hS.set _ _)) fun _ => .bind (updateScope (hS.set _ _)) fun _ =>
        .bind hb fun _ => .get_bind ?_
      intro st st' h
      rw [hS.signals h.scope]
      split
      · refine Paired.bind (hS.modifySignals fun _ => .none) (fun _ => ?_) st st' h
        split
        · exact .pure ()
        · exact ih (index + 1)
      · split
        · exact Paired.pure () st st' h
        · exact ih (index + 1) st st' h

mutual

theorem process_alike (hS : Congruence S engine.filters Sees) (hO : OutputCongruence Outputs Texts captures)
    {includer includer' : Includer} {n n' : Node} : Node.Alike Texts captures n n' →
    (∀ e ∈ n.expressions, Sees e) →
      (∀ name ∈ n.included, ∀ d offset,
        Aligned deep S Outputs engine provide (includer name d offset) (includer' name d offset)) →
          Aligned deep S Outputs engine provide (n.process engine includer) (n'.process engine includer')
  | .text hs k => by
      intro _ _
      rw [Node.process, Node.process]
      exact write hO hs
  | .output e => by
      intro he _
      rw [Node.process, Node.process]
      exact .bind (hS.evaluate (he e List.mem_cons_self)) fun v => write hO (hO.refl (engine.stringify v))
  | .assign name e target k => by
      intro he _
      rw [Node.process, Node.process]
      exact .bind (hS.evaluate (he e List.mem_cons_self)) fun v => updateScope (hS.assign target name v)
  | .capture hc name hbody k => by
      intro he hi
      have hb := processAll_alike hS hO hbody he hi
      rw [Node.process, Node.process]
      refine .get_bind ?_
      intro st st' h
      exact Paired.bind (hS.withFrame .control hb) (fun _ => .bind (cutOutput hO hc h.output) fun captured =>
        updateScope (hS.assign .here name (.string captured))) st st' h
  | .loop name source hbody k => by
      intro he hi
      obtain ⟨hsource, hebody⟩ := List.forall_mem_cons.1 he
      have hb := processAll_alike hS hO hbody hebody hi
      rw [Node.process, Node.process]
      refine .bind (hS.evaluate hsource) fun v => ?_
      cases v.rounds? with
      | none => exact .pure ()
      | some items => exact hS.withFrame .control (hS.rounds hb name items.length 0 items)
  | .branch harms k => by
      intro he hi
      rw [Node.process, Node.process]
      exact processArms_alike hS hO harms he hi
  | .embed name arguments k => by
      intro he hi
      rw [Node.process, Node.process]
      exact .bind (hS.evaluateArguments he _) fun d => hi name List.mem_cons_self d k
  | .signal s k => by
      intro _ _
      rw [Node.process, Node.process]
      exact hS.modifySignals (·.union (Signals.of s))
  | .comment k => by
      intro _ _
      rw [Node.process, Node.process]
      exact .pure ()
  | .newline k => by
      intro _ _
      rw [Node.process, Node.process]
      exact write hO (hO.refl "\n")

theorem processAll_alike (hS : Congruence S engine.filters Sees) (hO : OutputCongruence Outputs Texts captures)
    {includer includer' : Includer} {ns ns' : List Node} : Node.AlikeAll Texts captures ns ns' →
    (∀ e ∈ Node.expressionsAll ns, Sees e) →
      (∀ name ∈ Node.includedInAll ns, ∀ d offset,
        Aligned deep S Outputs engine provide (includer name d offset) (includer' name d offset)) →
          Aligned deep S Outputs engine provide (Node.processAll engine includer ns)
            (Node.processAll engine includer' ns')
  | .nil => by
      intro _ _
      rw [Node.processAll, Node.processAll]
      exact .pure ()
  | .cons hn hrest => by
      intro he hi
      obtain ⟨hen, herest⟩ := List.forall_mem_append.1 he
      obtain ⟨hin, hirest⟩ := List.forall_mem_append.1 hi
      have hfirst := process_alike hS hO hn hen hin
      have hmore := processAll_alike hS hO hrest herest hirest
      rw [Node.processAll, Node.processAll]
      refine .bind hfirst fun _ => .get_bind ?_
      intro st st' h
      rw [hS.signals h.scope]
      split
      · exact hmore st st' h
      · exact Paired.pure () st st' h

theorem processArms_alike (hS : Congruence S engine.filters Sees) (hO : OutputCongruence Outputs Texts captures)
    {includer includer' : Includer} {arms arms' : List (Expr × List Node)} :
    Node.AlikeArms Texts captures arms arms' → (∀ e ∈ Node.expressionsArms arms, Sees e) →
      (∀ name ∈ Node.includedInArms arms, ∀ d offset,
        Aligned deep S Outputs engine provide (includer name d offset) (includer' name d offset)) →
          Aligned deep S Outputs engine provide (Node.processArms engine includer arms)
            (Node.processArms engine includer' arms')
  | .nil => by
      intro _ _
      rw [Node.processArms, Node.processArms]
      exact .pure ()
  | .cons condition hbody hrest => by
      intro he hi
      obtain ⟨hcondition, he⟩ := List.forall_mem_cons.1 he
      obtain ⟨hebody, herest⟩ := List.forall_mem_append.1 he
      obtain ⟨hibody, hirest⟩ := List.forall_mem_append.1 hi
      have hb := processAll_alike hS hO hbody hebody hibody
      have hmore := processArms_alike hS hO hrest herest hirest
      rw [Node.processArms, Node.processArms]
      refine .bind (hS.evaluate hcondition) fun v => ?_
      split
      · exact hb
      · exact hmore

end

/-- An include does the same in both runs when the nodes of its template do. -/
theorem includer_succ (hS : Congruence S engine.filters Sees) {depth depth' : Nat} {name : String}
    (ht : ∀ t, provide name = some t →
      Aligned deep S Outputs engine provide (Node.processAll engine (engine.includer depth) t.nodes)
        (Node.processAll engine (engine.includer depth') t.nodes)) (d : Dict Value) (offset : Nat) :
    Aligned deep S Outputs engine provide (engine.includer (depth + 1) name d offset)
      (engine.includer (depth' + 1) name d offset) := by
  rw [Engine.includer, Engine.includer]
  refine resolve_bind (fun t hname => .mapHalt _ (hS.withFrame .file ?_)) offset
  exact .bind (updateScope (hS.set _ _)) fun _ => ht t hname

/-- Among templates that may be seen, with all that they include, the nodes of one do the same in both runs. -/
theorem ofNodes_aligned (hS : Congruence S engine.filters Sees) (hO : OutputCongruence Outputs Texts True)
    (Known : Template → Prop) (hsees : ∀ t, Known t → ∀ e ∈ Node.expressionsAll t.nodes, Sees e)
    (hknown : ∀ t, Known t → ∀ name ∈ Node.includedInAll t.nodes, ∀ u, provide name = some u → Known u)
    (depth : Nat) {t : Template} (ht : Known t) :
    Aligned True S Outputs engine provide (Node.processAll engine (engine.includer depth) t.nodes)
      (Node.processAll engine (engine.includer depth) t.nodes) := by
  induction depth generalizing t with
  | zero =>
      exact hS.processAll_alike hO (.refl hO.refl trivial t.nodes) (hsees t ht)
        fun _ _ _ _ _ _ h => .error (fun _ => trivial) h
  | succ depth ih =>
      refine hS.processAll_alike hO (.refl hO.refl trivial t.nodes) (hsees t ht) fun name hm d offset => ?_
      exact hS.includer_succ (fun u hu => ih (hknown t ht name hm u hu)) d offset

theorem processAll (hS : Congruence S engine.filters Sees) {includer includer' : Includer} (nodes : List Node)
    (hsees : ∀ e ∈ Node.expressionsAll nodes, Sees e)
    (hi : ∀ name ∈ Node.includedInAll nodes, ∀ d offset,
      Pairs deep S engine provide (includer name d offset) (includer' name d offset)) :
    Pairs deep S engine provide (Node.processAll engine includer nodes)
      (Node.processAll engine includer' nodes) :=
  hS.processAll_alike outputCongruence_same (.refl (fun _ => rfl) trivial nodes) hsees hi

theorem ofNodes (hS : Congruence S engine.filters Sees) (Known : Template → Prop)
    (hsees : ∀ t, Known t → ∀ e ∈ Node.expressionsAll t.nodes, Sees e)
    (hknown : ∀ t, Known t → ∀ name ∈ Node.includedInAll t.nodes, ∀ u, provide name = some u → Known u)
    (depth : Nat) {t : Template} (ht : Known t) :
    Pairs True S engine provide (Node.processAll engine (engine.includer depth) t.nodes)
      (Node.processAll engine (engine.includer depth) t.nodes) :=
  hS.ofNodes_aligned outputCongruence_same Known hsees hknown depth ht

end Scope.Congruence

namespace Renderer

variable {r r' : Renderer} {t t' : Template} {data data' : Dict Value}

open Rendering in
/-- Runs end for the same reason and in related states when the nodes do the same in both. -/
theorem run_paired {deep : Prop} {R : RenderState → RenderState → Prop}
    (h : PairedResults deep R
      (Node.processAll r.engine (r.engine.includer r.includeLimit) t.nodes (r.start data))
      (Node.processAll r'.engine (r'.engine.includer r'.includeLimit) t'.nodes (r'.start data'))) :
    (r'.run t' data').2 = (r.run t data).2 ∧ R (r.run t data).1 (r'.run t' data').1 := by
  rw [run, run]
  obtain ⟨_, st, st', hr, hr', h₁⟩ | ⟨e, st, st', hr, hr', -, h₁⟩ := h.cases
  · rw [hr, hr']
    exact ⟨rfl, h₁⟩
  · rw [hr, hr']
    exact ⟨rfl, h₁⟩

/-- What a run ends with is all that a render shows. -/
theorem render_eq_of_run (he : (r'.run t data').2 = (r.run t data).2)
    (ho : (r'.run t data').1.output = (r.run t data).1.output)
    (hs : (r'.run t data').1.scope.signals = (r.run t data).1.scope.signals)
    (hhooks : r'.hooks = r.hooks) (hmarks : r'.marksErrors = r.marksErrors) :
    (r'.render t data').1 = (r.render t data).1 ∧ (r'.render t data').2.errors = (r.render t data).2.errors := by
  refine ⟨?_, congrArg Option.toList he⟩
  show (if (r'.run t data').1.scope.signals.discard then "" else
      r'.marked t (r'.run t data').1.output (r'.run t data').2) =
    if (r.run t data).1.scope.signals.discard then "" else
      r.marked t (r.run t data).1.output (r.run t data).2
  rw [he, ho, hs]
  cases (r.run t data).2 with
  | none => rfl
  | some e => rw [marked, marked, hmarks, hhooks]

end Renderer

end Stencil
