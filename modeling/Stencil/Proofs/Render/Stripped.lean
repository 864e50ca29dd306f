import Stencil.Proofs.Node.Thinned
import Stencil.Proofs.Render.Blind

namespace Stencil

open Rendering

namespace Rendering

def GrownFrom (o o' p p' : String) : Prop :=
  ∃ w, p = o ++ w ∧ p' = o' ++ w

theorem outputCongruence_grownFrom (o o' : String) : OutputCongruence (GrownFrom o o') Eq True where
  refl _ := rfl
  write := by
    rintro _ _ s _ ⟨w, rfl, rfl⟩ rfl
    exact ⟨w ++ s, String.append_assoc, String.append_assoc⟩
  cut := by
    rintro - _ _ _ _ ⟨w, rfl, rfl⟩ ⟨x, rfl, rfl⟩
    have htake : ∀ o : String, String.ofList ((o ++ x).toList.take (o ++ w).length) =
        o ++ String.ofList (x.toList.take w.length) := by
      intro o
      rw [String.toList_append, String.length_append, ← String.length_toList, List.take_length_add_append,
        String.ofList_append, String.ofList_toList]
    have hdrop : ∀ o : String, (o ++ x).toList.drop (o ++ w).length = x.toList.drop w.length := by
      intro o
      rw [String.toList_append, String.length_append, ← String.length_toList, List.drop_length_add_append]
    exact ⟨⟨_, htake o, htake o'⟩, by rw [hdrop, hdrop]⟩

theorem outputCongruence_thinned : OutputCongruence Text.Thinned Text.Thinned False where
  refl := .refl
  write ho hs := ho.append hs
  cut := False.elim

end Rendering

namespace Scope.Congruence

variable {deep : Prop} {S : Scope → Scope → Prop} {Outputs : String → String → Prop} {engine : Engine}
  {provide : String → Option Template} {α : Type} {act act' : Rendering α}

/-- Acts that write the same whatever the outputs were keep all that writing the same keeps. -/
theorem aligned_of_grownFrom (h : ∀ o o', Aligned deep S (GrownFrom o o') engine provide act act')
    (hO : ∀ o o' w, Outputs o o' → Outputs (o ++ w) (o' ++ w)) :
    Aligned deep S Outputs engine provide act act' := by
  intro st st' hst
  have hgrown : GrownFrom st.output st'.output st.output st'.output :=
    ⟨"", String.append_empty.symm, String.append_empty.symm⟩
  have hout : ∀ {st₁ st₁' : RenderState},
      RenderState.Beside S (GrownFrom st.output st'.output) engine provide st₁ st₁' →
        RenderState.Beside S Outputs engine provide st₁ st₁' := by
    rintro st₁ st₁' ⟨hscope, ⟨w, hw, hw'⟩, hleft, hright⟩
    refine ⟨hscope, ?_, hleft, hright⟩
    rw [hw, hw']
    exact hO _ _ w hst.output
  obtain ⟨a, st₁, st₁', hr, hr', h₁⟩ | ⟨e, st₁, st₁', hr, hr', he, h₁⟩ :=
    (h _ _ st st' ⟨hst.scope, hgrown, hst.provide_left, hst.provide_right⟩).cases
  · rw [hr, hr']
    exact .ok (hout h₁)
  · rw [hr, hr']
    exact .error he (hout h₁)

theorem includer_thinned (depth : Nat) (name : String) (d : Dict Value) (offset : Nat) :
    Aligned True Eq Text.Thinned engine provide (engine.includer depth name d offset)
      (engine.includer depth name d offset) := by
  have hS := Scope.congruence_eq engine.filters
  refine aligned_of_grownFrom (fun o o' => ?_) fun o o' w h => h.append (.refl w)
  cases depth with
  | zero => exact fun st st' h => .error (fun _ => trivial) h
  | succ depth =>
      refine hS.includer_succ (fun t _ => ?_) d offset
      exact hS.ofNodes_aligned (outputCongruence_grownFrom o o') (fun _ => True) (fun _ _ _ _ => trivial)
        (fun _ _ _ _ _ _ => trivial) depth trivial

end Scope.Congruence

/-- No capture stands in the template, at any depth. -/
def Template.CaptureFree (t : Template) : Prop :=
  ∀ n ∈ Node.walkAll t.nodes, ¬n.isCapture

instance (t : Template) : Decidable t.CaptureFree :=
  inferInstanceAs (Decidable (∀ n ∈ _, ¬ _))

namespace Renderer

variable (r : Renderer) {t : Template} (data : Dict Value)

theorem run_stripLayout (ht : t.CaptureFree) :
    (r.run t.stripLayout data).2 = (r.run t data).2 ∧
      RenderState.Beside Eq Text.Thinned r.engine r.provides (r.run t data).1 (r.run t.stripLayout data).1 := by
  have hS := Scope.congruence_eq r.engine.filters
  have hnodes : Scope.Congruence.Aligned True Eq Text.Thinned r.engine r.provides _ _ :=
    hS.processAll_alike outputCongruence_thinned (Node.alikeAll_stripAll false false t.nodes ht)
      (fun _ _ => trivial)
      fun name _ d offset => Scope.Congruence.includer_thinned r.includeLimit name d offset
  exact run_paired (hnodes (r.start data) (r.start data) ⟨rfl, .refl _, rfl, rfl⟩)

theorem marked_thinned {written written' : String} {error? : Option EvalError} (hw : Text.Thinned written written')
    (hmarks : ∀ e ∈ error?, r.marksErrors → Text.Thinned (r.hooks.errorMarker t e) (r.hooks.errorMarker t.stripLayout e)) :
    Text.Thinned (r.marked t written error?) (r.marked t.stripLayout written' error?) := by
  cases error? with
  | none => exact hw
  | some e =>
      rw [marked, marked]
      split
      next hm => exact hw.append (hmarks e rfl hm)
      next => exact hw

/-- The outputs are the same up to layout but for the mark of an error, which the host makes. -/
theorem output_stripLayout (ht : t.CaptureFree) :
    ∃ written written' error?, Text.Thinned written written' ∧ (∀ e ∈ error?, e ∈ (r.render t data).2.errors) ∧
      (r.render t data).1 = r.marked t written error? ∧
        (r.render t.stripLayout data).1 = r.marked t.stripLayout written' error? := by
  obtain ⟨herror, h⟩ := r.run_stripLayout data ht
  have hscope : (r.run t.stripLayout data).1.scope = (r.run t data).1.scope := h.scope.symm
  have hout : (r.render t data).1 = if (r.run t data).1.scope.signals.discard then "" else
    r.marked t (r.run t data).1.output (r.run t data).2 := rfl
  have hout' : (r.render t.stripLayout data).1 = if (r.run t data).1.scope.signals.discard then "" else
      r.marked t.stripLayout (r.run t.stripLayout data).1.output (r.run t data).2 := by
    rw [← hscope, ← herror]
    rfl
  cases hd : (r.run t data).1.scope.signals.discard with
  | true =>
      rw [hd] at hout hout'
      exact ⟨"", "", none, .refl "", nofun, hout, hout'⟩
  | false =>
      rw [hd] at hout hout'
      exact ⟨_, _, _, h.output, fun e he => Option.mem_toList.2 he, hout, hout'⟩

/-- Stripping a template without captures changes neither the errors nor the global variables that a render
leaves, and of the output it only takes away spaces, tabs and newlines. A mark of an error is written by the host,
who is given the template: the outputs with their marks are so related whenever the marks are. -/
theorem render_stripLayout (ht : t.CaptureFree) :
    (r.render t.stripLayout data).2.errors = (r.render t data).2.errors ∧
      (r.render t.stripLayout data).2.globals? = (r.render t data).2.globals? ∧
        (∃ written written' error?, Text.Thinned written written' ∧ (∀ e ∈ error?, e ∈ (r.render t data).2.errors) ∧
          (r.render t data).1 = r.marked t written error? ∧
            (r.render t.stripLayout data).1 = r.marked t.stripLayout written' error?) ∧
        ((∀ e ∈ (r.render t data).2.errors, r.marksErrors →
            Text.Thinned (r.hooks.errorMarker t e) (r.hooks.errorMarker t.stripLayout e)) →
          Text.Thinned (r.render t data).1 (r.render t.stripLayout data).1) := by
  obtain ⟨herror, h⟩ := r.run_stripLayout data ht
  refine ⟨congrArg Option.toList herror, ?_, r.output_stripLayout data ht, fun hmarks => ?_⟩
  · show ((r.run t.stripLayout data).1.scope.clearSignals.truncate 1).globals? =
      ((r.run t data).1.scope.clearSignals.truncate 1).globals?
    rw [h.scope]
  · obtain ⟨written, written', error?, hw, herrors, hout, hout'⟩ := r.output_stripLayout data ht
    rw [hout, hout']
    exact r.marked_thinned hw fun e he => hmarks e (herrors e he)

def paddedPage : Template :=
  ⟨"", none, [.text "a \n" 0,
    .loop "x" (.array [.literal (.int 1) 0, .literal (.int 2) 0] 0) [.text "\n  " 0, .embed "part" [] 0, .text " " 0] 0,
    .text " \n b" 0, .output (.binary .divide (.literal (.int 1) 0) (.literal (.int 0) 0) 0)]⟩

def paddedPart : Template :=
  ⟨"", none, [.capture "y" [.text " c " 0] 0, .output (.variable "y" 0)]⟩

theorem render_stripLayout_padded :
    let r := (new .standard).register "part" paddedPart
    paddedPage.CaptureFree ∧ (r.render paddedPage.stripLayout []).2.errors = (r.render paddedPage []).2.errors ∧
      Text.Thinned (r.render paddedPage []).1 (r.render paddedPage.stripLayout []).1 := by
  intro r
  have hfree : paddedPage.CaptureFree := by decide
  obtain ⟨herrors, -, -, hthinned⟩ := r.render_stripLayout [] hfree
  exact ⟨hfree, herrors, hthinned fun e _ _ => .refl (Hooks.defaultMarker paddedPage e)⟩

/-- Error marks that tell how many characters stand in the literal texts of the template. -/
def countingHooks : Hooks where
  stringify := Value.display
  errorMarker t _ := Nat.repr (t.nodes.map fun | .text s _ => s.length | _ => 0).sum
  addFilters := id

def countedPage : Template :=
  ⟨"", none, [.text "a " 0, .comment 0, .output (.binary .divide (.literal (.int 1) 0) (.literal (.int 0) 0) 0)]⟩

/-- A mark may tell the stripped template from the other, and then the outputs differ in more than layout. -/
theorem render_stripLayout_counting :
    countedPage.CaptureFree ∧ ((new countingHooks).render countedPage []).1 = "a 2" ∧
      ((new countingHooks).render countedPage.stripLayout []).1 = "a1" ∧
      ¬Text.Thinned ((new countingHooks).render countedPage []).1
        ((new countingHooks).render countedPage.stripLayout []).1 := by
  have hout : ((new countingHooks).render countedPage []).1 = "a 2" := by cbv
  have hstripped : ((new countingHooks).render countedPage.stripLayout []).1 = "a1" := by cbv
  refine ⟨by decide, hout, hstripped, ?_⟩
  rw [hout, hstripped]
  -- the digit of the first mark can neither be kept nor left out
  intro h
  have hthins : Text.Thins ['a', ' ', '2'] ['a', '1'] := h
  cases hthins with
  | keep _ h =>
      cases h with
      | drop _ h =>
          cases h with
          | drop hc => exact absurd hc (by decide)
  | drop hc => exact absurd hc (by decide)

end Renderer

end Stencil
