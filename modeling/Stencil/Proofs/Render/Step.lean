import Stencil.Proofs.Render.Act

namespace Stencil

open Rendering

/-- A round whose body signals the end of the loop or of the round is the only place where signals are
met. -/
theorem processRounds_cons (body : Rendering Unit) (name : String) (length index : Nat) (item : Value)
    (rest : List Value) (st : RenderState) (h : st.scope.frames ≠ []) :
    processRounds body name length index (item :: rest) st =
      match body (st.openRound name item index length) with
      | .ok _ st' =>
          if st'.scope.signals.stopLoop then .ok () st'.clear
          else if st'.scope.signals.nextRound then
            processRounds body name length (index + 1) rest st'.clear
          else if st'.scope.signals.eject then .ok () st'
          else processRounds body name length (index + 1) rest st'
      | .error e st' => .error e st' := by
  obtain ⟨f, fs, hf⟩ := List.exists_cons_of_ne_nil h
  have ho : st.openRound name item index length = { st with scope :=
      ⟨Scope.bind name item (Scope.bind "forloop" (loopInfo index length) f) :: fs, st.scope.signals⟩ } := by
    simp [RenderState.openRound, hf, roundBindings, Scope.bind]
  rw [processRounds, bind_apply, updateScope_set _ _ _ hf]
  dsimp only
  rw [bind_apply, updateScope_set name item _ rfl]
  dsimp only
  rw [bind_apply, ho]
  cases body _ with
  | error e st' => rfl
  | ok _ st' =>
      dsimp only
      rw [bind_apply, get_apply]
      dsimp only
      cases hs : st'.scope.signals.stopLoop <;> cases hn : st'.scope.signals.nextRound <;>
        cases he : st'.scope.signals.eject <;> rfl

namespace Expr

variable (engine : Engine)

@[simp]
theorem evaluate_apply (e : Expr) (st : RenderState) :
    e.evaluate engine st = match e.eval ⟨st.scope, engine.filters⟩ with
      | .ok v => .ok v st
      | .error x => .error (.failed x) st := by
  rw [evaluate, bind_apply, get_apply]
  dsimp only
  cases e.eval ⟨st.scope, engine.filters⟩ <;> rfl

def evalArguments (env : Environment) : List (String × Expr) → Dict Value → Evaluated (Dict Value)
  | [], d => .ok d
  | (key, e) :: rest, d => do
      let v ← e.eval env
      evalArguments env rest (d.insert key v)

@[simp]
theorem evaluateArguments_apply (arguments : List (String × Expr)) (d : Dict Value) (st : RenderState) :
    evaluateArguments engine arguments d st =
      match evalArguments ⟨st.scope, engine.filters⟩ arguments d with
      | .ok d' => .ok d' st
      | .error x => .error (.failed x) st := by
  induction arguments generalizing d with
  | nil => rfl
  | cons a rest ih =>
      rcases a with ⟨key, e⟩
      rw [evaluateArguments, bind_apply, evaluate_apply]
      cases h : e.eval ⟨st.scope, engine.filters⟩ with
      | error x => simp [evalArguments, h, bind, Except.bind]
      | ok v => simp [evalArguments, h, bind, Except.bind, ih]

end Expr

namespace Node

variable (engine : Engine) (includer : Includer) (st : RenderState)

@[simp]
theorem process_text (s : String) (n : Nat) :
    process engine includer (.text s n) st = .ok () (st.write s) := rfl

@[simp]
theorem process_output (e : Expr) :
    process engine includer (.output e) st = match e.eval ⟨st.scope, engine.filters⟩ with
      | .ok v => .ok () (st.write (engine.stringify v))
      | .error x => .error (.failed x) st := by
  show (e.evaluate engine >>= _) st = _
  rw [bind_apply, Expr.evaluate_apply]
  cases e.eval ⟨st.scope, engine.filters⟩ <;> rfl

@[simp]
theorem process_assign (name : String) (e : Expr) (target : AssignTarget) (n : Nat) :
    process engine includer (.assign name e target n) st =
      match e.eval ⟨st.scope, engine.filters⟩ with
      | .ok v => updateScope (·.assign target name v) st
      | .error x => .error (.failed x) st := by
  show (e.evaluate engine >>= _) st = _
  rw [bind_apply, Expr.evaluate_apply]
  cases e.eval ⟨st.scope, engine.filters⟩ <;> rfl

@[simp]
theorem process_capture (name : String) (body : List Node) (n : Nat) :
    process engine includer (.capture name body n) st =
      match processAll engine includer body (st.enter .control []) with
      | .ok _ st' =>
          updateScope (·.assign .here name (.string (st'.writtenSince st.output.length)))
            (st'.leave.cut st.output.length)
      | .error h st' => .error h st'.leave := by
  show ((get : Rendering RenderState) >>= _) st = _
  rw [bind_apply, get_apply]
  dsimp only
  rw [bind_apply, withFrame_apply, RenderState.enter]
  cases processAll engine includer body { st with scope := st.scope.push .control [] } <;> rfl

@[simp]
theorem process_loop (name : String) (source : Expr) (body : List Node) (n : Nat) :
    process engine includer (.loop name source body n) st =
      match source.eval ⟨st.scope, engine.filters⟩ with
      | .ok v => match v.rounds? with
        | none => .ok () st
        | some items =>
            match processRounds (processAll engine includer body) name items.length 0 items
              (st.enter .control []) with
            | .ok _ st' => .ok () st'.leave
            | .error h st' => .error h st'.leave
      | .error x => .error (.failed x) st := by
  show (source.evaluate engine >>= _) st = _
  rw [bind_apply, Expr.evaluate_apply]
  cases source.eval ⟨st.scope, engine.filters⟩ with
  | error x => rfl
  | ok v =>
      dsimp only
      cases v.rounds? with
      | none => rfl
      | some items =>
          dsimp only
          rw [withFrame_apply, RenderState.enter]
          cases processRounds (processAll engine includer body) name items.length 0 items
            { st with scope := st.scope.push .control [] } <;> rfl

@[simp]
theorem process_branch (arms : List (Expr × List Node)) (n : Nat) :
    process engine includer (.branch arms n) st = processArms engine includer arms st := rfl

@[simp]
theorem process_embed (name : String) (arguments : List (String × Expr)) (n : Nat) :
    process engine includer (.embed name arguments n) st =
      match Expr.evalArguments ⟨st.scope, engine.filters⟩ arguments [("__", .bool true)] with
      | .ok d => includer name d n st
      | .error x => .error (.failed x) st := by
  show (Expr.evaluateArguments engine arguments [("__", .bool true)] >>= _) st = _
  rw [bind_apply, Expr.evaluateArguments_apply]
  cases Expr.evalArguments ⟨st.scope, engine.filters⟩ arguments [("__", .bool true)] <;> rfl

@[simp]
theorem process_signal (s : Signal) (n : Nat) :
    process engine includer (.signal s n) st =
      .ok () { st with scope := st.scope.raise (Signals.of s) } := rfl

@[simp]
theorem process_comment (n : Nat) : process engine includer (.comment n) st = .ok () st := rfl

@[simp]
theorem process_newline (n : Nat) : process engine includer (.newline n) st = .ok () (st.write "\n") := rfl

@[simp]
theorem processAll_nil : processAll engine includer [] st = .ok () st := rfl

@[simp]
theorem processAll_cons (n : Node) (rest : List Node) :
    processAll engine includer (n :: rest) st = match process engine includer n st with
      | .ok _ st' =>
          if st'.scope.signals.isNone then processAll engine includer rest st' else .ok () st'
      | .error h st' => .error h st' := by
  show (process engine includer n >>= _) st = _
  rw [bind_apply]
  cases process engine includer n st with
  | error h st' => rfl
  | ok _ st' =>
      dsimp only
      rw [bind_apply, get_apply]
      dsimp only
      cases st'.scope.signals.isNone <;> rfl

variable {engine includer st} in
/-- A node that ends is as good as the list of it. -/
theorem processAll_singleton_of_ok {n : Node} {st' : RenderState}
    (h : process engine includer n st = .ok () st') : processAll engine includer [n] st = .ok () st' := by
  rw [processAll_cons, h]
  dsimp only
  split <;> rfl

@[simp]
theorem processArms_nil : processArms engine includer [] st = .ok () st := rfl

@[simp]
theorem processArms_cons (condition : Expr) (body : List Node) (rest : List (Expr × List Node)) :
    processArms engine includer ((condition, body) :: rest) st =
      match condition.eval ⟨st.scope, engine.filters⟩ with
      | .ok v =>
          if v.isTruthy then processAll engine includer body st
          else processArms engine includer rest st
      | .error x => .error (.failed x) st := by
  show (condition.evaluate engine >>= _) st = _
  rw [bind_apply, Expr.evaluate_apply]
  cases condition.eval ⟨st.scope, engine.filters⟩ with
  | error x => rfl
  | ok v =>
      dsimp only
      cases v.isTruthy <;> rfl

variable {st}

/-- An arm whose condition holds is run when none before it does. -/
theorem processArms_of_skipped {skipped more : List (Expr × List Node)} {condition : Expr} {body : List Node}
    {v : Value}
    (hs : ∀ arm ∈ skipped, ∃ u, Expr.eval ⟨st.scope, engine.filters⟩ arm.1 = .ok u ∧ !u.isTruthy)
    (hc : condition.eval ⟨st.scope, engine.filters⟩ = .ok v) (hv : v.isTruthy) :
    processArms engine includer (skipped ++ (condition, body) :: more) st =
      processAll engine includer body st := by
  induction skipped with
  | nil =>
      rw [List.nil_append, processArms_cons, hc]
      exact if_pos hv
  | cons arm skipped ih =>
      obtain ⟨u, hu, hf⟩ := hs arm List.mem_cons_self
      rw [List.cons_append, processArms_cons, hu]
      dsimp only
      rw [if_neg (by simpa using hf)]
      exact ih fun arm hm => hs arm (List.mem_cons_of_mem _ hm)

end Node

/-- An include runs the nodes it found in a file frame of its own, which holds the arguments. -/
@[simp]
theorem Engine.includer_succ (engine : Engine) (depth : Nat) (name : String) (arguments : Dict Value)
    (offset : Nat) (st : RenderState) :
    engine.includer (depth + 1) name arguments offset st =
      match engine.resolve name offset st with
      | .ok t st' =>
          match Node.processAll engine (engine.includer depth) t.nodes
            (st'.enter .file [("include", .map arguments)]) with
          | .ok _ st'' => .ok () st''.leave
          | .error (.failed e) st'' => .error (.failed (locate name t e)) st''.leave
          | .error .tooDeep st'' => .error .tooDeep st''.leave
      | .error h st' => .error h st' := by
  rw [includer, bind_apply]
  cases engine.resolve name offset st with
  | error h st' => rfl
  | ok t st' =>
      dsimp only
      rw [mapHalt_apply, withFrame_apply, bind_apply, updateScope_include]
      dsimp only
      cases Node.processAll engine (engine.includer depth) t.nodes
        (st'.enter .file [("include", .map arguments)]) with
      | ok _ st'' => rfl
      | error h st'' => cases h <;> rfl

namespace Renderer

variable {r : Renderer} {t : Template} {data : Dict Value} {st : RenderState}

theorem render_of_ok
    (h : Node.processAll r.engine (r.engine.includer r.includeLimit) t.nodes (r.start data) = .ok () st)
    (hd : st.scope.signals.discard = false) :
    (r.render t data).1 = st.output ∧ (r.render t data).2.errors = [] ∧
      (r.render t data).2.scope = st.scope.clearSignals.truncate 1 := by
  have hrun : r.run t data = (st, none) := by rw [run, h]
  rw [render, hrun]
  exact ⟨if_neg (by simp [hd]), rfl, rfl⟩

theorem errors_of_failed {e : EvalError}
    (h : Node.processAll r.engine (r.engine.includer r.includeLimit) t.nodes (r.start data) =
      .error (.failed e) st) : (r.render t data).2.errors = [e] := by
  have hrun : r.run t data = (st, some e) := by
    rw [run, h]
    rfl
  rw [render, hrun]
  rfl

end Renderer

end Stencil
