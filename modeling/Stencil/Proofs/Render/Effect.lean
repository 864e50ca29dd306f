import Stencil.Proofs.Render.Kept

namespace Stencil

abbrev Effect := RenderState → Option Halt → RenderState → Prop

open Rendering

structure Effect.Closed (engine : Engine) (E : Writes → Effect) : Prop where
  refl : ∀ w st, E w st none st
  trans : ∀ {w st st' h st''}, E w st none st' → E w st' h st'' → E w st h st''
  write : ∀ w st s, E w st none (RenderState.write st s)
  raise : ∀ w st signals, E w st none { st with scope := st.scope.raise signals }
  clear : ∀ w st, E w st none (RenderState.clear st)
  keep : ∀ w st templates, E w st none { st with templates }
  assign : ∀ w st target name v, w target name →
    Ended (updateScope (·.assign target name v) st) fun h st' =>
      RenderState.Keeps engine st st' ∧ E w st h st'
  evaluation : ∀ w st e x, Expr.eval ⟨st.scope, engine.filters⟩ e = .error x →
    E w st (some (.failed x)) st
  missing : ∀ w st fault offset, fault ≠ .noActiveScope →
    E w st (some (.failed (EvalFault.at fault offset))) st
  tooDeep : ∀ w st, E w st (some .tooDeep) st
  locate : ∀ {w st e st'} name t, E w st (some (.failed e)) st' →
    E w st (some (.failed (Engine.locate name t e))) st'
  control : ∀ {w st d h st'}, E w (st.enter .control d) h st' → E w st h st'.leave
  capture : ∀ {w st st'}, E w (st.enter .control []) none st' →
    E w st none (st'.leave.cut st.output.length)
  file : ∀ {w w' st d h st'}, (∀ name, w' .includer name → w .here name) →
    (∀ name, w' .everywhere name → w .everywhere name) →
    E w' (st.enter .file d) h st' → E w st h st'.leave

namespace Effect.Closed

variable {engine : Engine} {E : Writes → Effect}

def Has (engine : Engine) (E : Writes → Effect) (provide : String → Option Template) (w : Writes)
    (act : Rendering Unit) : Prop :=
  ∀ st, engine.provide st.templates = provide →
    Ended (act st) fun h st' => RenderState.Keeps engine st st' ∧ E w st h st'

def HasIncludes (engine : Engine) (E : Writes → Effect) (provide : String → Option Template) (w : Writes)
    (includer : Includer) : Prop :=
  ∀ name d offset,
    (∀ t, provide name = some t → ∀ n, Node.Assigns provide .includer n t.nodes → w .here n) →
    (∀ t, provide name = some t → ∀ n, Node.Assigns provide .everywhere n t.nodes → w .everywhere n) →
    Has engine E provide w (includer name d offset)

theorem evalArguments (hE : Closed engine E) (w : Writes) (st : RenderState)
    {arguments : List (String × Expr)} {d : Dict Value} {x : EvalError}
    (h : Expr.evalArguments ⟨st.scope, engine.filters⟩ arguments d = .error x) :
    E w st (some (.failed x)) st := by
  induction arguments generalizing d with
  | nil => cases h
  | cons a rest ih =>
      obtain ⟨key, e⟩ := a
      rw [Expr.evalArguments] at h
      cases he : e.eval ⟨st.scope, engine.filters⟩ with
      | error y =>
          rw [he] at h
          cases h
          exact hE.evaluation w st e x he
      | ok v =>
          rw [he] at h
          exact ih h

/-- The rounds are compared from outside the loop's own frame. -/
theorem rounds (hE : Closed engine E) {provide : String → Option Template} {w : Writes}
    {body : Rendering Unit} (hbody : Has engine E provide w body) (name : String) (length index : Nat)
    (items : List Value) (st : RenderState) {kinds : List FrameKind}
    (hk : st.scope.kinds = .control :: kinds) (hp : engine.provide st.templates = provide) :
    Ended (processRounds body name length index items st) fun h st' =>
      RenderState.Keeps engine st st' ∧ E w st.leave h st'.leave := by
  induction items generalizing index st with
  | nil => exact ⟨.refl, hE.refl w _⟩
  | cons item rest ih =>
      have hne : st.scope.frames ≠ [] := by
        intro hn
        simp [Scope.kinds, hn] at hk
      have hopen : RenderState.Keeps engine st (st.openRound name item index length) := .openRound ..
      obtain ⟨d, hd⟩ := RenderState.enter_leave (hopen.kinds.trans hk)
      have hleave : (st.openRound name item index length).leave = st.leave := by
        simp [RenderState.openRound, RenderState.leave, popFrame, Scope.pop]
      -- what the body does, seen from outside the frame
      have hb := (hbody _ (hopen.provide.trans hp)).imp
        (R := fun h st' => RenderState.Keeps engine st st' ∧ E w st.leave h st'.leave) (by
          rintro h st' ⟨hkeep, he⟩
          rw [hd, hleave] at he
          exact ⟨hopen.trans hkeep, hE.control he⟩)
      rw [processRounds_cons _ _ _ _ _ _ _ hne]
      cases hr : body (st.openRound name item index length) with
      | error e st' =>
          rw [hr] at hb
          exact hb
      | ok a st' =>
          rw [hr] at hb
          obtain ⟨hkeep, he⟩ := hb
          have hkeep' : RenderState.Keeps engine st st'.clear := ⟨hkeep.kinds, hkeep.provide⟩
          have he' : E w st.leave none st'.clear.leave := hE.trans he (hE.clear w st'.leave)
          have more : ∀ st'', RenderState.Keeps engine st st'' → E w st.leave none st''.leave →
              Ended (processRounds body name length (index + 1) rest st'') fun h st₃ =>
                RenderState.Keeps engine st st₃ ∧ E w st.leave h st₃.leave := by
            intro st'' hs he
            refine (ih (index + 1) st'' (hs.kinds.trans hk) (hs.provide.trans hp)).imp ?_
            rintro h st₃ ⟨hs', he''⟩
            exact ⟨hs.trans hs', hE.trans he he''⟩
          dsimp only
          split
          next => exact ⟨hkeep', he'⟩
          next =>
            split
            next => exact more _ hkeep' he'
            next =>
              split
              next => exact ⟨hkeep, he⟩
              next => exact more _ hkeep he

mutual

theorem process (hE : Closed engine E) {includer : Includer} {provide : String → Option Template}
    {w : Writes} (hi : HasIncludes engine E provide w includer) :
    (n : Node) → (∀ target name, Node.Assigns provide target name [n] → w target name) →
      Has engine E provide w (n.process engine includer)
  | .text s k, _, st, _ => by
      rw [Node.process_text]
      exact ⟨⟨rfl, rfl⟩, hE.write w st s⟩
  | .output e, _, st, _ => by
      rw [Node.process_output]
      cases he : e.eval ⟨st.scope, engine.filters⟩ with
      | ok v => exact ⟨⟨rfl, rfl⟩, hE.write w st _⟩
      | error x => exact ⟨.refl, hE.evaluation w st e x he⟩
  | .assign name e target k, hw, st, _ => by
      rw [Node.process_assign]
      cases he : e.eval ⟨st.scope, engine.filters⟩ with
      | ok v => exact hE.assign w st target name v (hw target name .assign)
      | error x => exact ⟨.refl, hE.evaluation w st e x he⟩
  | .capture name body k, hw, st, hp => by
      have hb := processAll hE hi body (fun target n h => hw target n (.capture h))
        (st.enter .control []) hp
      rw [Node.process_capture]
      cases hr : Node.processAll engine includer body (st.enter .control []) with
      | error h st' =>
          rw [hr] at hb
          exact ⟨hb.1.leave, hE.control hb.2⟩
      | ok a st' =>
          rw [hr] at hb
          have hkeep : RenderState.Keeps engine st (st'.leave.cut st.output.length) :=
            ⟨hb.1.leave.kinds, hb.1.provide⟩
          refine (hE.assign w (st'.leave.cut st.output.length) .here name
            (.string (st'.writtenSince st.output.length)) (hw .here name .captured)).imp ?_
          rintro h st'' ⟨hkeep', he⟩
          exact ⟨hkeep.trans hkeep', hE.trans (hE.capture hb.2) he⟩
  | .loop name source body k, hw, st, hp => by
      have hbody := processAll hE hi body (fun target n h => hw target n (.loop h))
      rw [Node.process_loop]
      cases he : source.eval ⟨st.scope, engine.filters⟩ with
      | error x => exact ⟨.refl, hE.evaluation w st source x he⟩
      | ok v =>
          dsimp only
          cases v.rounds? with
          | none => exact ⟨.refl, hE.refl w st⟩
          | some items =>
              have hr := rounds hE hbody name items.length 0 items (st.enter .control []) rfl hp
              dsimp only
              cases hp : processRounds (Node.processAll engine includer body) name items.length 0 items
                  (st.enter .control []) with
              | ok a st' =>
                  rw [hp] at hr
                  exact ⟨hr.1.leave, hr.2⟩
              | error h st' =>
                  rw [hp] at hr
                  exact ⟨hr.1.leave, hr.2⟩
  | .branch arms k, hw, st, hp => by
      rw [Node.process_branch]
      exact processArms hE hi arms
        (fun target n c body hb h => hw target n (.branch hb h)) st hp
  | .embed name arguments k, hw, st, hp => by
      rw [Node.process_embed]
      cases hd : Expr.evalArguments ⟨st.scope, engine.filters⟩ arguments [("__", .bool true)] with
      | error x => exact ⟨.refl, hE.evalArguments w st hd⟩
      | ok d =>
          exact hi name d k (fun t ht n h => hw .here n (.fromIncluded ht h))
            (fun t ht n h => hw .everywhere n (.throughIncluded ht h)) st hp
  | .signal s k, _, st, _ => by
      rw [Node.process_signal]
      exact ⟨⟨rfl, rfl⟩, hE.raise w st (Signals.of s)⟩
  | .comment k, _, st, _ => by
      rw [Node.process_comment]
      exact ⟨.refl, hE.refl w st⟩
  | .newline k, _, st, _ => by
      rw [Node.process_newline]
      exact ⟨⟨rfl, rfl⟩, hE.write w st _⟩

theorem processAll (hE : Closed engine E) {includer : Includer} {provide : String → Option Template}
    {w : Writes} (hi : HasIncludes engine E provide w includer) :
    (nodes : List Node) → (∀ target name, Node.Assigns provide target name nodes → w target name) →
      Has engine E provide w (Node.processAll engine includer nodes)
  | [], _, st, _ => by
      rw [Node.processAll_nil]
      exact ⟨.refl, hE.refl w st⟩
  | n :: rest, hw, st, hp => by
      have hn := process hE hi n (fun target name h => hw target name (h.of_single rest)) st hp
      have hrest := processAll hE hi rest (fun target name h => hw target name (.later h))
      rw [Node.processAll_cons]
      cases hr : n.process engine includer st with
      | error h st' =>
          rw [hr] at hn
          exact hn
      | ok a st' =>
          rw [hr] at hn
          dsimp only
          split
          next =>
            refine (hrest st' (hn.1.provide.trans hp)).imp ?_
            rintro h st'' ⟨hkeep, he⟩
            exact ⟨hn.1.trans hkeep, hE.trans hn.2 he⟩
          next => exact hn

theorem processArms (hE : Closed engine E) {includer : Includer} {provide : String → Option Template}
    {w : Writes} (hi : HasIncludes engine E provide w includer) :
    (arms : List (Expr × List Node)) →
      (∀ target name c body, (c, body) ∈ arms → Node.Assigns provide target name body → w target name) →
      Has engine E provide w (Node.processArms engine includer arms)
  | [], _, st, _ => by
      rw [Node.processArms_nil]
      exact ⟨.refl, hE.refl w st⟩
  | (c, body) :: rest, hw, st, hp => by
      have hb := processAll hE hi body (fun target name h => hw target name c body (by simp) h)
      have hrest := processArms hE hi rest
        (fun target name c body hm h => hw target name c body (by simp [hm]) h)
      rw [Node.processArms_cons]
      cases he : c.eval ⟨st.scope, engine.filters⟩ with
      | error x => exact ⟨.refl, hE.evaluation w st c x he⟩
      | ok v =>
          dsimp only
          split
          next => exact hb st hp
          next => exact hrest st hp

end

theorem includes (hE : Closed engine E) (provide : String → Option Template) (depth : Nat) (w : Writes) :
    HasIncludes engine E provide w (engine.includer depth) := by
  induction depth generalizing w with
  | zero =>
      intro name d offset _ _ st _
      exact ⟨.refl, hE.tooDeep w st⟩
  | succ depth ih =>
      intro name d offset hhere hall st hp
      rw [Engine.includer_succ]
      cases ht : provide name with
      | none =>
          obtain ⟨fault, hf, hr⟩ := engine.resolve_of_none (hp.symm ▸ ht) offset
          rw [hr]
          exact ⟨.refl, hE.missing w st fault offset hf⟩
      | some t =>
          obtain ⟨templates, hr, hkept⟩ := engine.resolve_of_some (hp.symm ▸ ht) offset
          rw [hr]
          dsimp only
          have hn := processAll hE (ih fun target n => Node.Assigns provide target n t.nodes) t.nodes
            (fun _ _ h => h) ({ st with templates }.enter .file [("include", .map d)]) (hkept.trans hp)
          have hkeep : RenderState.Keeps engine st { st with templates } := ⟨rfl, hkept⟩
          have hstep : ∀ {h st'}, E (fun target n => Node.Assigns provide target n t.nodes)
              ({ st with templates }.enter .file [("include", .map d)]) h st' → E w st h st'.leave := by
            intro h st' he
            exact hE.trans (hE.keep w st templates) (hE.file (hhere t ht) (hall t ht) he)
          cases hq : Node.processAll engine (engine.includer depth) t.nodes
              ({ st with templates }.enter .file [("include", .map d)]) with
          | ok a st' =>
              rw [hq] at hn
              exact ⟨hkeep.trans hn.1.leave, hstep hn.2⟩
          | error h st' =>
              rw [hq] at hn
              cases h with
              | failed e => exact ⟨hkeep.trans hn.1.leave, hE.locate name t (hstep hn.2)⟩
              | tooDeep => exact ⟨hkeep.trans hn.1.leave, hstep hn.2⟩

/-- The effect of any nodes, with includes nested to any depth. -/
theorem ofNodes (hE : Closed engine E) (depth : Nat) (nodes : List Node) (st : RenderState) :
    Ended (Node.processAll engine (engine.includer depth) nodes st) fun h st' =>
      RenderState.Keeps engine st st' ∧
        E (fun target name => Node.Assigns (engine.provide st.templates) target name nodes) st h st' :=
  processAll hE (hE.includes _ depth _) nodes (fun _ _ h => h) st rfl

end Effect.Closed

end Stencil
