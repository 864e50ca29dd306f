import Stencil.Proofs.Render.Blind
import Stencil.Proofs.Render.Matched
import Stencil.Proofs.Render.Origin
import Stencil.Proofs.Render.Recovery
import Stencil.Proofs.Render.Replay

namespace Stencil

structure Scope.Widened (name : String) (k : Nat) (s s' : Scope) : Prop where
  frames : ∃ inner f outer, inner.length = k ∧ s.frames = inner ++ f :: outer ∧ s'.frames = inner ++ outer ∧
    ∀ key, key ≠ name → f.bindings.get? key = none
  signals : s'.signals = s.signals

namespace Scope

variable {name : String} {k : Nat} {s s' : Scope}

theorem Widened.lookup (h : Widened name k s s') {key : String} (hne : key ≠ name) :
    s'.lookup key = s.lookup key := by
  obtain ⟨inner, f, outer, -, hs, hs', hf⟩ := h.frames
  rw [Scope.lookup, Scope.lookup, hs, hs', List.findSome?_append, List.findSome?_append, List.findSome?_cons,
    hf key hne]

/-- In a frame of its own the nodes bind what they bind, and the widened stack stays so. -/
theorem Widened.set (h : Widened name (k + 1) s s') (key : String) (v : Value) :
    Both (Widened name (k + 1)) (s.set key v) (s'.set key v) := by
  obtain ⟨inner, f, outer, hlength, hs, hs', hf⟩ := h.frames
  cases inner with
  | nil => cases hlength
  | cons g inner =>
      have hset {s : Scope} {fs : List Frame} (hs : s.frames = g :: fs) :
          s.set key v = .ok { s with frames := Scope.bind key v g :: fs } := by
        simp [Scope.set, withFrames, bindWhere, hs]
      rw [hset hs, hset hs']
      exact .ok ⟨⟨Scope.bind key v g :: inner, f, outer, hlength, rfl, rfl, hf⟩, h.signals⟩

theorem layered_widened (name : String) (filters : FilterRegistry) :
    Layered (Widened name) filters (fun e => name ∉ e.mentions) False where
  signals h := h.signals
  withSignals signals h := ⟨h.frames, rfl⟩
  push := by
    intro k s s' kind h
    obtain ⟨inner, f, outer, hlength, hs, hs', hf⟩ := h.frames
    refine ⟨⟨⟨kind, []⟩ :: inner, f, outer, congrArg (· + 1) hlength, ?_, ?_, hf⟩, h.signals⟩
    · exact congrArg (⟨kind, []⟩ :: ·) hs
    · exact congrArg (⟨kind, []⟩ :: ·) hs'
  pop := by
    intro k s s' h
    obtain ⟨inner, f, outer, hlength, hs, hs', hf⟩ := h.frames
    cases inner with
    | nil => cases hlength
    | cons g inner =>
        refine ⟨⟨inner, f, outer, Nat.succ.inj hlength, ?_, ?_, hf⟩, h.signals⟩
        · exact congrArg (List.drop 1) hs
        · exact congrArg (List.drop 1) hs'
  set key v h := h.set key v
  assign := False.elim
  eval := by
    intro k s s' e h he
    refine Expr.eval_congr e fun key hk => h.lookup ?_
    rintro rfl
    exact he hk

theorem Widened.pop_eq (h : Widened name 0 s s') : s.pop = s' := by
  obtain ⟨inner, f, outer, hlength, hs, hs', -⟩ := h.frames
  obtain rfl := List.eq_nil_of_length_eq_zero hlength
  obtain ⟨frames, signals⟩ := s
  obtain ⟨frames', signals'⟩ := s'
  obtain rfl : frames = f :: outer := hs
  obtain rfl : frames' = outer := hs'
  obtain rfl : signals' = signals := h.signals
  rfl

theorem widened_push (s : Scope) (kind : FrameKind) (name : String) (v : Value) :
    Widened name 0 (s.push kind [(name, v)]) s := by
  refine ⟨⟨[], _, _, rfl, rfl, rfl, fun key hne => ?_⟩, rfl⟩
  rw [Dict.get?_cons, if_neg hne]
  rfl

theorem layered_eq (filters : FilterRegistry) : Layered (fun _ => Eq) filters (fun _ => True) True where
  signals := (congruence_eq filters).signals
  withSignals := (congruence_eq filters).withSignals
  push := (congruence_eq filters).push
  pop := (congruence_eq filters).pop
  set := (congruence_eq filters).set
  assign _ := (congruence_eq filters).assign
  eval := (congruence_eq filters).eval

end Scope

theorem Engine.message_locate (name : String) (t : Template) (e : EvalError) :
    (locate name t e).message = e.message := by
  rw [locate]
  split <;> rfl

section

open Scope.Layered Rendering

variable {engine : Engine} {provide provide' : String → Option Template} {name : String} {part : Template}

theorem Engine.agree_inline (hpart : provide name = some part) (hself : part.SelfContained) (depth : Nat)
    (includer' : Includer) (d : Dict Value) (offset k : Nat) :
    Agree (fun _ => Eq) engine provide provide' k (engine.includer depth name d offset)
      (Node.processAll engine includer' part.nodes) := by
  intro st st' h hp
  cases depth with
  | zero => exact .tooDeep
  | succ depth =>
      obtain ⟨templates, hresolve, hkept⟩ := engine.resolve_of_some (h.provide_left ▸ hpart) offset
      rw [Engine.includer_succ, hresolve]
      dsimp only
      have hS := Scope.layered_widened "include" engine.filters
      -- The part has no includes, so it does not matter what they would do.
      have hi : Inlining (Scope.Widened "include") engine provide provide' False name [] (engine.includer depth)
        includer' := ⟨False.elim, False.elim⟩
      have hin := hS.processAll_inlined hi 0 (.refl part.nodes)
        (fun e he hn => hself.unnamed (List.mem_flatMap.2 ⟨e, he, hn⟩))
        (fun n hn => .inl (hself.plain n hn))
        (RenderState.enter { st with templates } .file [("include", .map d)]) st'
        ⟨h.scope ▸ Scope.widened_push st.scope .file "include" (.map d), h.output, hkept.trans h.provide_left,
          h.provide_right⟩ hp
      obtain ⟨a, st₁, st₁', hr, hr', h₁, hq⟩ | ⟨e, e', st₁, st₁', hr, hr', he, h₁⟩ | ⟨st₁, hr⟩ := hin.cases
      · rw [hr, hr']
        exact .ok ⟨h₁.scope.pop_eq, h₁.output, h₁.provide_left, h₁.provide_right⟩ hq
      · rw [hr, hr']
        exact .failed (he.trans (message_locate name part e).symm)
          ⟨h₁.scope.pop_eq, h₁.output, h₁.provide_left, h₁.provide_right⟩
      · rw [hr]
        exact .tooDeep

/-- Any other include does the same in both runs when the nodes of its template do. -/
theorem Engine.agree_includer {depth : Nat} {file : String}
    (hfile : Option.Rel (fun t t' => ∀ k, Agree (fun _ => Eq) engine provide provide' k
      (Node.processAll engine (engine.includer depth) t.nodes)
      (Node.processAll engine (engine.includer depth) t'.nodes)) (provide file) (provide' file))
    (d : Dict Value) (offset k : Nat) :
    Agree (fun _ => Eq) engine provide provide' k (engine.includer (depth + 1) file d offset)
      (engine.includer (depth + 1) file d offset) := by
  have hS := Scope.layered_eq engine.filters
  intro st st' h hp
  rw [includer, bind_apply, bind_apply]
  generalize hleft : provide file = found, hright : provide' file = found' at hfile
  cases hfile with
  | none =>
      obtain ⟨fault, hs, hr⟩ := engine.resolve_refused (h.provide_left ▸ hleft) offset
      obtain ⟨fault', hs', hr'⟩ := engine.resolve_refused (h.provide_right ▸ hright) offset
      obtain rfl : fault = fault' := Except.error.inj (hs.symm.trans hs')
      rw [hr, hr']
      exact .failed rfl h
  | @some t t' ht =>
      obtain ⟨templates, hr, hk⟩ := engine.resolve_of_some (h.provide_left ▸ hleft) offset
      obtain ⟨templates', hr', hk'⟩ := engine.resolve_of_some (h.provide_right ▸ hright) offset
      have hframe := hS.withFrame (k := k) .file (.bind (hS.setTop (k := k) "include" (.map d)) fun _ => ht (k + 1))
      rw [hr, hr']
      exact Matches.mapHalt (message_locate file t) (message_locate file t') hframe _ _
        ⟨h.scope, h.output, hk.trans h.provide_left, hk'.trans h.provide_right⟩ hp

/-- Includes of the part may be written out in the nodes and in all templates that they include. The induction is on
the number of includes that may be open. -/
theorem Engine.agree_nodes (hpart : provide name = some part) (hself : part.SelfContained)
    (hprovide : ∀ file, Option.Rel (Template.InlinedTo name part) (provide file) (provide' file)) (depth k : Nat)
    {ns ns' : List Node} (h : Node.InlinedAll name part.nodes ns ns') :
    Agree (fun _ => Eq) engine provide provide' k (Node.processAll engine (engine.includer depth) ns)
      (Node.processAll engine (engine.includer depth) ns') := by
  have hinline (depth k offset : Nat) : Agree (fun _ => Eq) engine provide provide' k
      (engine.includer depth name [("__", .bool true)] offset)
      (Node.processAll engine (engine.includer depth) part.nodes) :=
    agree_inline hpart hself depth (engine.includer depth) [("__", .bool true)] offset k
  induction depth generalizing k ns ns' with
  | zero =>
      refine (Scope.layered_eq engine.filters).processAll_inlined ⟨fun _ _ _ _ _ => ?_, fun _ => hinline 0⟩ k h
        (fun _ _ => trivial) fun _ _ => .inr trivial
      exact fun _ _ _ _ => .tooDeep
  | succ depth ih =>
      refine (Scope.layered_eq engine.filters).processAll_inlined
        ⟨fun _ k file d offset => ?_, fun _ => hinline (depth + 1)⟩ k h (fun _ _ => trivial) fun _ _ => .inr trivial
      refine agree_includer ?_ d offset k
      have hfile := hprovide file
      generalize provide file = found, provide' file = found' at hfile
      cases hfile with
      | none => exact .none
      | some ht => exact .some fun k => ih k ht

end

namespace Renderer

variable (r : Renderer) {t t' part : Template} {name : String} (data : Dict Value)

theorem output_of_ended (h : (r.run t data).2 = none) :
    (r.render t data).1 = if (r.run t data).1.scope.signals.discard then "" else (r.run t data).1.output := by
  show (if (r.run t data).1.scope.signals.discard then "" else
    r.marked t (r.run t data).1.output (r.run t data).2) = _
  rw [h]
  rfl

theorem output_of_failed {e : EvalError} (h : (r.run t data).2 = some e) :
    (r.render t data).1 = r.marked t (r.run t data).1.output (some e) := by
  show (if (r.run t data).1.scope.signals.discard then "" else
    r.marked t (r.run t data).1.output (r.run t data).2) = _
  rw [signals_of_run_failed h, h]
  rfl

theorem run_inlined (hpart : r.provides name = some part) (hself : part.SelfContained)
    (ht : Template.InlinedTo name part t t') {templates : Dict Template}
    (htemplates : ∀ file,
      Option.Rel (Template.InlinedTo name part) (r.provides file) (r.engine.provide templates file))
    (hroom : ¬r.Overruns t data) :
    let r' : Renderer := { r with templates }
    (r'.run t' data).1.output = (r.run t data).1.output ∧ (r'.run t' data).1.scope = (r.run t data).1.scope ∧
      (r'.run t' data).2.map EvalError.message = (r.run t data).2.map EvalError.message := by
  intro r'
  have hnodes : Scope.Layered.Agree (fun _ => Eq) r.engine r.provides r'.provides 0
      (Node.processAll r.engine (r.engine.includer r.includeLimit) t.nodes)
      (Node.processAll r'.engine (r'.engine.includer r'.includeLimit) t'.nodes) :=
    Engine.agree_nodes hpart hself htemplates r.includeLimit 0 ht
  have hagree := hnodes (r.start data) (r'.start data) ⟨rfl, rfl, rfl, rfl⟩ rfl
  rw [run, run]
  obtain ⟨a, st, st', hr, hr', h, -⟩ | ⟨e, e', st, st', hr, hr', he, h⟩ | ⟨st, hr⟩ := hagree.cases
  · rw [hr, hr']
    exact ⟨h.output, h.scope.symm, rfl⟩
  · rw [hr, hr']
    exact ⟨h.output, h.scope.symm, congrArg some he⟩
  · exact absurd ⟨st, hr⟩ hroom

/-- Where a template is included that binds nothing, includes nothing and does not look at its arguments, its own
nodes may stand instead, at any number of places, in the template that is rendered and in all that it includes. The
run ends with the same output, the same frames and the same signals. It fails just if it did before, and then with
the same message. So what is shown is the same, but for the mark of an error. -/
theorem render_inlined (hpart : r.provides name = some part) (hself : part.SelfContained)
    (ht : Template.InlinedTo name part t t') {templates : Dict Template}
    (htemplates : ∀ file,
      Option.Rel (Template.InlinedTo name part) (r.provides file) (r.engine.provide templates file))
    (hroom : ¬r.Overruns t data) :
    let r' : Renderer := { r with templates }
    (r'.run t' data).1.output = (r.run t data).1.output ∧ (r'.run t' data).1.scope = (r.run t data).1.scope ∧
      (r'.render t' data).2.globals? = (r.render t data).2.globals? ∧
        ((r.render t data).2.errors = [] →
          (r'.render t' data).2.errors = [] ∧ (r'.render t' data).1 = (r.render t data).1) ∧
        ∀ e, (r.render t data).2.errors = [e] → ∃ e', (r'.render t' data).2.errors = [e'] ∧ e'.message = e.message ∧
          (r.render t data).1 = r.marked t (r.run t data).1.output (some e) ∧
            (r'.render t' data).1 = r'.marked t' (r.run t data).1.output (some e') := by
  intro r'
  obtain ⟨houtput, hscope, hmessage⟩ := r.run_inlined data hpart hself ht htemplates hroom
  refine ⟨houtput, hscope, ?_, fun hnone => ?_, fun e he => ?_⟩
  · show ((r'.run t' data).1.scope.clearSignals.truncate 1).globals? =
      ((r.run t data).1.scope.clearSignals.truncate 1).globals?
    rw [hscope]
  · have hended : (r.run t data).2 = none := Option.toList_eq_nil_iff.1 hnone
    have hended' : (r'.run t' data).2 = none := by
      rw [hended] at hmessage
      exact Option.map_eq_none_iff.1 hmessage
    refine ⟨congrArg Option.toList hended', ?_⟩
    rw [r'.output_of_ended data hended', r.output_of_ended data hended, houtput, hscope]
  · have hfailed : (r.run t data).2 = some e := Option.toList_eq_singleton_iff.1 he
    rw [hfailed] at hmessage
    obtain ⟨e', hfailed', he'⟩ := Option.map_eq_some_iff.1 hmessage
    refine ⟨e', congrArg Option.toList hfailed', he', r.output_of_failed data hfailed, ?_⟩
    rw [r'.output_of_failed data hfailed', houtput]

def lastingPart : Template :=
  ⟨"", none, [.branch [(.binary .equal (.variable "x" 0) (.literal (.int 2) 0) 0, [.signal .stopLoop 0])] 0,
    .output (.variable "x" 0)]⟩

def lastingFrame (nodes : List Node) : Template :=
  ⟨"", none, .text "|" 0 :: nodes⟩

def lastingPage (nodes : List Node) : Template :=
  ⟨"", none, [.loop "x" (.array [.literal (.int 1) 0, .literal (.int 2) 0, .literal (.int 3) 0] 0)
    (.text "<" 0 :: nodes ++ [.text ">" 0]) 0, .embed "frame" [] 0, .output (.variable "y" 0)]⟩

def lasting (nodes : List Node) : Renderer :=
  ((new .standard).register "part" lastingPart).register "frame" (lastingFrame nodes)

theorem provides_lasting (nodes : List Node) (file : String) : (lasting nodes).provides file =
    if file = "frame" then some (lastingFrame nodes) else if file = "part" then some lastingPart else none := by
  rw [lasting, provides_register, provides_register]
  rfl

theorem render_inlined_lasting :
    (lasting [.embed "part" [] 0]).provides "part" = some lastingPart ∧ lastingPart.SelfContained ∧
      Template.InlinedTo "part" lastingPart (lastingPage [.embed "part" [] 0]) (lastingPage lastingPart.nodes) ∧
        ¬(lasting [.embed "part" [] 0]).Overruns (lastingPage [.embed "part" [] 0]) [] ∧
          ((lasting [.embed "part" [] 0]).render (lastingPage [.embed "part" [] 0]) []).1 = "<1><|" ∧
            ((lasting lastingPart.nodes).render (lastingPage lastingPart.nodes) []).1 = "<1><|" := by
  have hpart : (lasting [.embed "part" [] 0]).provides "part" = some lastingPart := provides_lasting _ _
  have hself : lastingPart.SelfContained := by decide
  have hpage : Template.InlinedTo "part" lastingPart (lastingPage [.embed "part" [] 0])
      (lastingPage lastingPart.nodes) := by
    refine .cons (.loop _ _ (.cons (.text _ _) ?_) _) (.refl _)
    exact .inline 0 (.refl [.text ">" 0])
  have htemplates : ∀ file, Option.Rel (Template.InlinedTo "part" lastingPart)
      ((lasting [.embed "part" [] 0]).provides file) ((lasting lastingPart.nodes).provides file) := by
    intro file
    rw [provides_lasting, provides_lasting]
    split
    · refine .some (.cons (.text _ _) ?_)
      exact .inline 0 .nil
    split
    · exact .some (.refl _ _ _)
    · exact .none
  have hshown : ((lasting [.embed "part" [] 0]).render (lastingPage [.embed "part" [] 0]) []).1 = "<1><|" := by
    decide +kernel
  have herrors : ((lasting [.embed "part" [] 0]).render (lastingPage [.embed "part" [] 0]) []).2.errors = [] := by
    decide +kernel
  have hroom : ¬(lasting [.embed "part" [] 0]).Overruns (lastingPage [.embed "part" [] 0]) [] := by
    intro h
    have he := h.errors
    rw [herrors] at he
    cases he
  obtain ⟨-, -, -, hended, -⟩ := render_inlined _ [] hpart hself hpage htemplates hroom
  exact ⟨hpart, hself, hpage, hroom, hshown, (hended herrors).2.trans hshown⟩

end Renderer

end Stencil
