import Stencil.Proofs.Render.OpenCalls
import Stencil.Proofs.Render.Simulation
import Stencil.Proofs.Text.Span

namespace Stencil

open Rendering

def Effect.appends : Writes → Effect := fun _ st _ st' =>
  ∃ s, st'.output = st.output ++ s

namespace Effect.appends

variable {engine : Engine} {w : Writes} {st st' : RenderState} {h : Option Halt}

theorem of_output_eq (ho : st'.output = st.output) : appends w st h st' :=
  ⟨"", by rw [ho, String.append_empty]⟩

theorem closed (engine : Engine) : Closed engine appends where
  refl w st := of_output_eq rfl
  trans := by
    rintro w st st' h st'' ⟨s, hs⟩ ⟨s', hs'⟩
    exact ⟨s ++ s', by rw [hs', hs, String.append_assoc]⟩
  write w st s := ⟨s, rfl⟩
  raise w st signals := of_output_eq rfl
  clear w st := of_output_eq rfl
  keep w st templates := of_output_eq rfl
  assign := by
    intro w st target name v hw
    rw [updateScope_apply]
    cases hs : st.scope.assign target name v with
    | ok s' => exact ⟨⟨(Scope.changed_of_assign hs hw).1.kinds_eq, rfl⟩, of_output_eq rfl⟩
    | error f => exact ⟨.refl, of_output_eq rfl⟩
  evaluation w st e x _ := of_output_eq rfl
  missing w st fault offset _ := of_output_eq rfl
  tooDeep w st := of_output_eq rfl
  locate name t he := he
  control he := he
  capture := by
    rintro w st st' ⟨s, hs⟩
    exact of_output_eq (Reference.cut_append hs)
  file _ _ he := he

end Effect.appends

/-- What nodes write comes behind what is there, also if they fail. -/
theorem Node.output_processAll (engine : Engine) (depth : Nat) (nodes : List Node) (st : RenderState) :
    Ended (processAll engine (engine.includer depth) nodes st) fun _ st' =>
      ∃ written, st'.output = st.output ++ written :=
  ((Effect.appends.closed engine).ofNodes depth nodes st).imp fun _ _ h => h.2

theorem Node.prefix_output (engine : Engine) (depth : Nat) (nodes : List Node) (st : RenderState) :
    Ended (processAll engine (engine.includer depth) nodes st) fun _ st' =>
      st.output.toList <+: st'.output.toList := by
  refine (output_processAll engine depth nodes st).imp ?_
  rintro _ st' ⟨written, hw⟩
  rw [hw, String.toList_append]
  exact List.prefix_append _ _

namespace Renderer

variable {r : Renderer} {st : RenderState}

/-- A capture whose body ends leaves the output as it found it, whatever signal the body raised: all that
the body wrote is bound in the frame of the template, and written nowhere else. Where the body fails, the
output is as it was found only if nothing was written yet. -/
theorem output_of_capture (hst : r.Reached st) (depth : Nat) (name : String) (body : List Node) (k : Nat) :
    (Ended (Node.process r.engine (r.engine.includer depth) (.capture name body k) st) (fun _ st' =>
        st'.output = st.output) ↔
      Ended (Node.processAll r.engine (r.engine.includer depth) body (st.enter .control [])) fun h st' =>
        h = none ∨ st'.output = st.output) ∧
    ∀ st', Node.processAll r.engine (r.engine.includer depth) body (st.enter .control []) = .ok () st' →
      ∃ written scope, st'.output = st.output ++ written ∧
        st'.leave.scope.setFile name (.string written) = .ok scope ∧
        Node.process r.engine (r.engine.includer depth) (.capture name body k) st =
          .ok () ⟨scope, st.output, st'.templates⟩ := by
  have hbody := Node.output_processAll r.engine depth body (st.enter .control [])
  cases hb : Node.processAll r.engine (r.engine.includer depth) body (st.enter .control []) with
  | error h st' =>
      rw [Node.process_capture, hb]
      exact ⟨by simp [Ended, RenderState.leave, popFrame], fun _ he => nomatch he⟩
  | ok _ st' =>
      rw [hb] at hbody
      obtain ⟨written, hw⟩ := hbody
      have hw : st'.output = st.output ++ written := hw
      obtain ⟨scope, hs, _, hrun⟩ := Node.process_capture_of_ok hst.sound.stacked hb name k
      have hcut : { st'.leave.cut st.output.length with scope } = ⟨scope, st.output, st'.templates⟩ :=
        congrArg (RenderState.mk scope · st'.templates) (Reference.cut_append hw)
      rw [Reference.writtenSince_append hw] at hs
      rw [hrun, hcut]
      refine ⟨⟨fun _ => .inl rfl, fun _ => rfl⟩, ?_⟩
      rintro _ ⟨⟩
      exact ⟨written, scope, hw, hs, rfl⟩

/-- Text, and then a capture whose body ends with a signal. -/
theorem output_of_capture_cutShort :
    let st := ((new .standard).start []).write "a"
    (new .standard).Reached st ∧
    Ended (Node.process (new .standard).engine ((new .standard).engine.includer 3)
      (.capture "x" [.text "b" 16, .signal .stopLoop 20, .text "c" 28] 4) st) fun _ st' =>
        st'.output = st.output := by
  intro st
  have hst : (new .standard).Reached st :=
    ⟨.nodes 1000 [], ⟨"", none, [.text "a" 0]⟩, [], .tail .refl (.next rfl rfl)⟩
  exact ⟨hst, (output_of_capture hst 3 "x" _ 4).1.2 (.inl rfl)⟩

def spilling : List Node :=
  [.text "b" 16, .output (.binary .divide (.literal (.int 1) 20) (.literal (.int 0) 24) 22)]

/-- Without error markers the output of a render still holds what a failing capture wrote. -/
theorem output_of_capture_spilling :
    ¬ (∀ (r : Renderer) (st : RenderState), r.Reached st → ∀ depth name body k,
      Ended (Node.process r.engine (r.engine.includer depth) (.capture name body k) st) fun _ st' =>
        st'.output = st.output) ∧
    (({ new .standard with marksErrors := false } : Renderer).render
      ⟨"", none, [.text "a" 0, .capture "x" spilling 4]⟩ []).1 = "ab" := by
  refine ⟨?_, by decide +kernel⟩
  intro h
  have hst : (new .standard).Reached ((new .standard).start []) :=
    ⟨.nodes 1000 [], ⟨"", none, []⟩, [], .refl⟩
  have hc : "b" = "" := h _ _ hst 0 "x" spilling 4
  exact absurd hc (by decide)

end Renderer

def Point.foundByCapture (st : RenderState) : Point → List String
  | .nodes _ (.capture _ _ _ :: _) => [st.output]
  | _ => []

theorem Point.foundByCapture_cases (st : RenderState) (p : Point) :
    p.foundByCapture st = [st.output] ∨ p.foundByCapture st = [] := by
  unfold foundByCapture
  split
  · exact .inl rfl
  · exact .inr rfl

/-- Processing goes on from `p` to another point, and these outputs were found by the captures that have begun
since and not ended, the last one first. -/
inductive Capturing (engine : Engine) (p : Point × RenderState) : List String → Point × RenderState → Prop
  | here : Capturing engine p [] p
  | follow {found q q'} (h : Capturing engine p found q) (hf : Follows engine q q') :
      Capturing engine p found q'
  | enter {found q q'} (h : Capturing engine p found q) (he : Enters engine q q') :
      Capturing engine p (q.1.foundByCapture q.2 ++ found) q'

section

variable {engine : Engine} {p q : Point × RenderState}

theorem exists_capturing_iff :
    (∃ found, Capturing engine p found q) ↔ Relation.ReflTransGen (Proceeds engine) p q := by
  constructor
  · rintro ⟨found, h⟩
    induction h with
    | here => exact .refl
    | follow _ hf ih => exact ih.tail (proceeds_iff.2 (.inl hf))
    | enter _ he ih => exact ih.tail (proceeds_iff.2 (.inr he))
  · intro h
    refine proceeds_induction (motive := fun q => ∃ found, Capturing engine p found q) h ⟨[], .here⟩ ?_ ?_
    · rintro q q' ⟨found, hc⟩ hf
      exact ⟨found, hc.follow hf⟩
    · rintro q q' ⟨found, hc⟩ he
      exact ⟨_, hc.enter he⟩

theorem Enters.output_eq (h : Enters engine p q) : q.2.output = p.2.output := by
  cases h with
  | embed _ hr =>
      obtain ⟨templates, rfl, -⟩ := engine.of_resolve_ok hr
      rfl
  | capture | arm | loop | round => rfl

theorem Follows.prefix_output (h : Follows engine p q) : p.2.output.toList <+: q.2.output.toList := by
  cases h with
  | @next depth n _ st _ h =>
      have hn := Node.prefix_output engine depth [n] st
      rw [Node.processAll_singleton_of_ok h] at hn
      exact hn
  | @nextRound depth name body length index item _ st _ h
  | @continued depth name body length index item _ st _ h =>
      have hb := Node.prefix_output engine depth body (st.openRound name item index length)
      rw [h] at hb
      exact hb

/-- What the open captures found is still there, and what an inner one found begins with what an outer one
found. -/
theorem Capturing.pairwise {found : List String} (h : Capturing engine p found q) :
    (q.2.output :: found).Pairwise fun inner outer => outer.toList <+: inner.toList := by
  induction h with
  | here => exact List.pairwise_singleton _ _
  | follow _ hf ih =>
      obtain ⟨hfound, hrest⟩ := List.pairwise_cons.1 ih
      exact List.pairwise_cons.2 ⟨fun s hs => (hfound s hs).trans hf.prefix_output, hrest⟩
  | @enter found q _ _ he ih =>
      rw [he.output_eq]
      rcases q.1.foundByCapture_cases q.2 with hq | hq
      · -- one more capture begins, which finds all that is there
        rw [hq, List.singleton_append]
        exact List.pairwise_cons.2
          ⟨List.forall_mem_cons.2 ⟨List.prefix_refl _, (List.pairwise_cons.1 ih).1⟩, ih⟩
      · rw [hq, List.nil_append]
        exact ih

end

namespace RenderState

/-- The output cut at a byte: the state with what stands in front of it, and what was cut off. Inside a
character and past the end there is no such cut. -/
def splitOff? (st : RenderState) (start : Nat) : Option (RenderState × String) :=
  (Text.cutAt? st.output.toList start).map fun (before, after) =>
    ({ st with output := String.ofList before }, String.ofList after)

theorem isSome_splitOff?_iff (st : RenderState) {start : Nat} :
    (st.splitOff? start).isSome ↔ Text.IsBoundary st.output.toList start := by
  rw [splitOff?, Option.isSome_map, Text.isSome_cutAt?_iff]

theorem splitOff?_append {st st' : RenderState} {written : String}
    (h : st'.output = st.output ++ written) :
    st'.splitOff? (Text.byteLength st.output.toList) = some ({ st' with output := st.output }, written) := by
  have hcut : Text.cutAt? st'.output.toList (Text.byteLength st.output.toList) =
      some (st.output.toList, written.toList) := by
    refine Text.cutAt?_eq_some_iff.2 ⟨?_, rfl⟩
    rw [h, String.toList_append]
  rw [splitOff?, hcut, Option.map_some]
  dsimp only
  rw [String.ofList_toList, String.ofList_toList]

end RenderState

namespace Renderer

/-- Whatever nodes do, and also where they fail, what was written before them stays in front. So wherever a
render comes to, what each open capture found is the front of the output, and of all that the captures inside it
found. Where the body of a capture ends, the byte at which the capture began is a boundary of the output. Cut
there, the output falls into what the capture found, which is left, and all that the body wrote, which is
bound. -/
theorem captures_cut_written (r : Renderer) (t : Template) (data : Dict Value) :
    (∀ depth nodes st, Ended (Node.processAll r.engine (r.engine.includer depth) nodes st) fun _ st' =>
      st.output.toList <+: st'.output.toList) ∧
    (∀ p, r.Visits t data p ↔
      ∃ found, Capturing r.engine (.nodes r.includeLimit t.nodes, r.start data) found p) ∧
    ∀ found p st, Capturing r.engine (.nodes r.includeLimit t.nodes, r.start data) found (p, st) →
      (st.output :: found).Pairwise (fun inner outer => outer.toList <+: inner.toList) ∧
      ∀ depth name body k st',
        Node.processAll r.engine (r.engine.includer depth) body (st.enter .control []) = .ok () st' →
        Text.IsBoundary st'.output.toList (Text.byteLength st.output.toList) ∧
        ∃ written scope, st'.output = st.output ++ written ∧
          st'.leave.splitOff? (Text.byteLength st.output.toList) =
            some ({ st'.leave with output := st.output }, written) ∧
          st'.leave.scope.setFile name (.string written) = .ok scope ∧
          Node.process r.engine (r.engine.includer depth) (.capture name body k) st =
            .ok () ⟨scope, st.output, st'.templates⟩ := by
  refine ⟨Node.prefix_output r.engine, fun p => exists_capturing_iff.symm, ?_⟩
  intro found p st hc
  refine ⟨hc.pairwise, ?_⟩
  intro depth name body k st' hb
  have hv : r.Visits t data (p, st) := exists_capturing_iff.1 ⟨found, hc⟩
  have hwritten := Node.output_processAll r.engine depth body (st.enter .control [])
  rw [hb] at hwritten
  obtain ⟨written, hw⟩ := hwritten
  have hw : st'.output = st.output ++ written := hw
  have hsplit : st'.leave.splitOff? (Text.byteLength st.output.toList) =
      some ({ st'.leave with output := st.output }, written) := RenderState.splitOff?_append hw
  have hbound : Text.IsBoundary st'.output.toList (Text.byteLength st.output.toList) :=
    st'.leave.isSome_splitOff?_iff.1 (Option.isSome_of_eq_some hsplit)
  have hst : st.scope.Stacked := hv.stacked
  obtain ⟨scope, hs, -, hrun⟩ := Node.process_capture_of_ok hst hb name k
  have hcut : { st'.leave.cut st.output.length with scope } = ⟨scope, st.output, st'.templates⟩ :=
    congrArg (RenderState.mk scope · st'.templates) (Reference.cut_append hw)
  rw [Reference.writtenSince_append hw] at hs
  rw [hcut] at hrun
  exact ⟨hbound, written, scope, hw, hsplit, hs, hrun⟩

/-- Text, a capture, and in it a loop with a capture that ends with a signal. The accented letters take two
bytes. -/
theorem captures_cut_written_nested :
    let body : List Node := [.text "ö" 0, .signal .stopLoop 0]
    let rounds : List Node := [.text "o" 0, .capture "z" body 0]
    let t : Template := ⟨"", none, [.text "é" 0,
      .capture "x" [.text "ü" 0, .loop "y" (.array [.literal (.int 1) 0] 0) rounds 0] 0]⟩
    let outer := (((new .standard).start []).write "é").enter .control []
    let st := (((outer.write "ü").enter .control []).openRound "y" (.int 1) 0 1).write "o"
    Capturing (new .standard).engine (.nodes 1000 t.nodes, (new .standard).start []) ["é"]
      (.nodes 1000 [.capture "z" body 0], st) ∧
    (st.output :: ["é"]).Pairwise (fun inner outer => outer.toList <+: inner.toList) ∧
    ∃ st' scope, Node.processAll (new .standard).engine ((new .standard).engine.includer 1000) body
        (st.enter .control []) = .ok () st' ∧
      Text.IsBoundary "éüoö".toList 5 ∧
      Node.process (new .standard).engine ((new .standard).engine.includer 1000) (.capture "z" body 0) st =
        .ok () ⟨scope, "éüo", st'.templates⟩ := by
  intro body rounds t outer st
  have hfirst : Capturing (new .standard).engine (.nodes 1000 t.nodes, (new .standard).start []) []
      (.nodes 1000 t.nodes.tail, ((new .standard).start []).write "é") := .follow .here (.next rfl rfl)
  have hloop := (hfirst.enter .capture).follow (.next rfl rfl)
  have hround := (hloop.enter (.loop rfl rfl)).enter .round
  have hc := hround.follow (.next rfl rfl)
  obtain ⟨hpairwise, hcapture⟩ := ((new .standard).captures_cut_written t []).2.2 _ _ _ hc
  obtain ⟨st', hb, ho⟩ : ∃ st', Node.processAll (new .standard).engine ((new .standard).engine.includer 1000) body
      (st.enter .control []) = .ok () st' ∧ st'.output = "éüoö" := ⟨_, rfl, by decide⟩
  obtain ⟨hbound, written, scope, -, -, -, hrun⟩ := hcapture 1000 "z" body 0 st' hb
  rw [ho] at hbound
  exact ⟨hc, hpairwise, st', scope, hb, hbound, hrun⟩

end Renderer

end Stencil
