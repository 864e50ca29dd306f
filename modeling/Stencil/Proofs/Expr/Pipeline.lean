import Mathlib
import Stencil.Proofs.Expr.Derived
import Stencil.Proofs.Filter.Lists

namespace Stencil

structure Stage where
  filter : String
  arguments : List Value
  offset : Nat

namespace Stage

inductive Written : List Token → List Stage → Prop
  | nil : Written [] []
  | bare {bar name : Token} {rest : List Token} {stages : List Stage} :
      bar.kind = .pipe → name.kind = .identifier → Written rest stages →
        Written (bar :: name :: rest) (⟨name.text, [], name.offset⟩ :: stages)
  | applied {bar name colon : Token} {ts rest : List Token} {vs : List Value} {stages : List Stage} :
      bar.kind = .pipe → name.kind = .identifier → colon.kind = .colon → Expr.Arguments true ts vs →
        Written rest stages → Written (bar :: name :: colon :: (ts ++ rest)) (⟨name.text, vs, name.offset⟩ :: stages)

variable (r : FilterRegistry) (s : Stage) (v : Value)

def Gives (w : Value) : Prop :=
  ∃ f, r.filters.get? s.filter = some f ∧ f v s.arguments = .ok w

/-- Why the stage fails, before it is said where. -/
inductive Fails : EvalError → Prop
  | unknown : r.filters.get? s.filter = none → Fails (EvalFault.unknownFilter s.filter).nowhere
  | filter {f : Filter} {e : EvalError} : r.filters.get? s.filter = some f → f v s.arguments = .error e → Fails e

inductive Flows : Value → List Stage → Value → Prop
  | nil {v : Value} : Flows v [] v
  | cons {s : Stage} {stages : List Stage} {v u w : Value} :
      s.Gives r v u → Flows u stages w → Flows v (s :: stages) w

def run : Evaluated Value :=
  (r.apply s.filter v s.arguments).mapError (·.withOffset s.offset)

variable {r s v}

theorem run_eq_ok_iff {w : Value} : s.run r v = .ok w ↔ s.Gives r v w := by
  rw [run, Except.mapError_eq_ok_iff, FilterRegistry.apply, Gives]
  cases r.filters.get? s.filter <;> simp

theorem run_eq_error_iff {e : EvalError} :
    s.run r v = .error e ↔ ∃ cause, s.Fails r v cause ∧ cause.withOffset s.offset = e := by
  have happly (cause : EvalError) : r.apply s.filter v s.arguments = .error cause ↔ s.Fails r v cause := by
    rw [FilterRegistry.apply]
    constructor
    · intro h
      split at h
      next f hf => exact .filter hf h
      next hf =>
        obtain rfl := Except.error.inj h
        exact .unknown hf
    · intro h
      cases h with
      | unknown hf => rw [hf]
      | filter hf he =>
          rw [hf]
          exact he
  simp only [← happly, run]
  cases r.apply s.filter v s.arguments <;> simp [Except.mapError]

theorem foldlM_run_eq_ok_iff {stages : List Stage} {w : Value} :
    stages.foldlM (fun v s => s.run r v) v = .ok w ↔ Flows r v stages w := by
  induction stages generalizing v with
  | nil =>
      constructor
      · rintro ⟨⟩
        exact .nil
      · rintro ⟨⟩
        rfl
  | cons s stages ih =>
      rw [List.foldlM_cons]
      constructor
      · intro h
        obtain ⟨u, hu, h⟩ := Except.of_bind_ok h
        exact .cons (run_eq_ok_iff.1 hu) (ih.1 h)
      · rintro (_ | ⟨hu, h⟩)
        rw [run_eq_ok_iff.2 hu]
        exact ih.2 h

theorem foldlM_run_eq_error_iff {stages : List Stage} {e : EvalError} :
    stages.foldlM (fun v s => s.run r v) v = .error e ↔ ∃ before s after u cause,
      stages = before ++ s :: after ∧ Flows r v before u ∧ s.Fails r u cause ∧ cause.withOffset s.offset = e := by
  constructor
  · intro h
    obtain ⟨before, s, after, u, rfl, hu, he⟩ := Except.of_foldlM_error h
    obtain ⟨cause, hcause, rfl⟩ := run_eq_error_iff.1 he
    exact ⟨before, s, after, u, cause, rfl, foldlM_run_eq_ok_iff.1 hu, hcause, rfl⟩
  · rintro ⟨before, s, after, u, cause, rfl, hu, hcause, rfl⟩
    have hs : s.run r u = .error (cause.withOffset s.offset) := run_eq_error_iff.2 ⟨cause, hcause, rfl⟩
    -- the stages behind it are not run, so they cannot say another place
    have hrest : (s :: after).foldlM (fun v s => s.run r v) u = .error (cause.withOffset s.offset) := by
      rw [List.foldlM_cons, hs]
      rfl
    rw [List.foldlM_append, foldlM_run_eq_ok_iff.2 hu]
    exact hrest

end Stage

namespace Expr

def piped (e : Expr) (stages : List Stage) : Expr :=
  stages.foldl (fun e s => .pipe e s.filter s.arguments s.offset) e

theorem filters_of_written {us : List Token} {stages : List Stage} (h : Stage.Written us stages) (e : Expr) :
    Filters true e us (e.piped stages) := by
  induction h generalizing e with
  | nil => exact .nil
  | bare hb hn _ ih => exact .bare hb hn (ih _)
  | applied hb hn hc ha _ ih => exact .applied hb hn hc ha (ih _)

theorem eval_piped (env : Environment) (e : Expr) (stages : List Stage) : (e.piped stages).eval env =
    e.eval env >>= fun v => stages.foldlM (fun v s => s.run env.filters v) v := by
  induction stages generalizing e with
  | nil => exact (bind_pure _).symm
  | cons s stages ih =>
      have hpipe : (Expr.pipe e s.filter s.arguments s.offset).eval env =
          e.eval env >>= fun v => s.run env.filters v := by
        rw [eval]
        rfl
      simp only [List.foldlM_cons]
      rw [← bind_assoc, ← hpipe]
      exact ih _

/-- Behind an expression the stages of a pipeline take its value from left to right. If the expression fails, this is
the failure of the whole. Otherwise the first stage that fails is blamed at the name of its filter, whatever stages
follow. The filters that are always there do what they are named after. -/
theorem eval_pipeline {ts us : List Token} {base : Expr} {stages : List Stage} {stop : Nat}
    (hbase : ofTokens ts stop = .ok base) (hstages : Stage.Written us stages) (stop' : Nat) (env : Environment) :
    ∃ e, ofTokens (ts ++ us) stop' = .ok e ∧
      (∀ w, e.eval env = .ok w ↔ ∃ v, base.eval env = .ok v ∧ Stage.Flows env.filters v stages w) ∧
      (∀ err, e.eval env = .error err ↔ base.eval env = .error err ∨
        ∃ v before s after u cause, base.eval env = .ok v ∧ stages = before ++ s :: after ∧
          Stage.Flows env.filters v before u ∧ s.Fails env.filters u cause ∧ cause.withOffset s.offset = err) ∧
      (∀ name f, FilterRegistry.builtins.filters.get? name = some f ↔ ∃ l : ListFunction, l.name = name ∧ l.filter = f) ∧
      ∀ l : ListFunction, l.filter.Listwise l := by
  have hread := (ofTokens_ok_iff.1 hbase).append (filters_of_written hstages base)
  refine ⟨base.piped stages, ofTokens_ok_iff.2 hread, fun w => ?_, fun err => ?_,
    fun name f => ListFunction.builtins_eq_some_iff, ListFunction.listwise⟩
  · simp only [eval_piped, ← Stage.foldlM_run_eq_ok_iff]
    cases base.eval env <;> simp [bind, Except.bind]
  · simp only [eval_piped]
    cases base.eval env with
    | error e => simp [bind, Except.bind]
    | ok v => simpa [bind, Except.bind] using Stage.foldlM_run_eq_error_iff

def brokenStages : List Stage :=
  [⟨"pop", [], 6⟩, ⟨"nope", [.int 3], 10⟩, ⟨"size", [], 17⟩]

theorem eval_pipeline_broken :
    let env : Environment := ⟨Scope.empty, .builtins⟩
    ∃ ts us base e, tokenize "[1,2]|pop|nope:3|size" 0 21 = .ok (ts ++ us) ∧ ofTokens ts 5 = .ok base ∧
      Stage.Written us brokenStages ∧ ofTokens (ts ++ us) 21 = .ok e ∧
        base.eval env = .ok (.array [.int 1, .int 2]) ∧
          e.eval env = .error ((EvalFault.unknownFilter "nope").at 10) := by
  intro env
  let front : List Token :=
    [⟨.leftBracket, "[", 0⟩, ⟨.integer, "1", 1⟩, ⟨.comma, ",", 2⟩, ⟨.integer, "2", 3⟩, ⟨.rightBracket, "]", 4⟩]
  let back : List Token :=
    [⟨.pipe, "|", 5⟩, ⟨.identifier, "pop", 6⟩, ⟨.pipe, "|", 9⟩, ⟨.identifier, "nope", 10⟩, ⟨.colon, ":", 14⟩,
      ⟨.integer, "3", 15⟩, ⟨.pipe, "|", 16⟩, ⟨.identifier, "size", 17⟩]
  have hscan : tokenize "[1,2]|pop|nope:3|size" 0 21 = .ok (front ++ back) := by cbv
  have hbase : ofTokens front 5 = .ok (.array [.literal (.int 1) 1, .literal (.int 2) 3] 0) := by cbv
  have hstages : Stage.Written back brokenStages :=
    .bare rfl rfl (@Stage.Written.applied _ _ _ [⟨.integer, "3", 15⟩] _ _ _ rfl rfl rfl
      (.one (.literal (.integer rfl rfl))) (.bare rfl rfl .nil))
  obtain ⟨e, he, -, herror, -, -⟩ := eval_pipeline hbase hstages 21 env
  have hpop : FilterRegistry.builtins.filters.get? "pop" = some Filter.pop :=
    ListFunction.builtins_eq_some_iff.2 ⟨.pop, rfl, rfl⟩
  refine ⟨front, back, _, e, hscan, hbase, hstages, he, rfl, (herror _).2 (.inr ?_)⟩
  exact ⟨_, [⟨"pop", [], 6⟩], ⟨"nope", [.int 3], 10⟩, [⟨"size", [], 17⟩], _, _, rfl, rfl,
    .cons ⟨_, hpop, rfl⟩ .nil, .unknown (by cbv), rfl⟩

end Expr

end Stencil
