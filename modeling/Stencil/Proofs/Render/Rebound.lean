import Stencil.Proofs.Filter
import Stencil.Proofs.Render.Reached

namespace Stencil

def Scope.fileAt? : Nat → List Frame → Option Nat
  | _, [] => none
  | skip, f :: fs =>
      if isFile f then
        match skip with
        | 0 => some 0
        | n + 1 => (fileAt? n fs).map (· + 1)
      else (fileAt? skip fs).map (· + 1)

namespace Frame

def BoundOnly (names : String → Prop) (f f' : Frame) : Prop :=
  ∀ name, f'.bindings.get? name ≠ f.bindings.get? name → names name

/-- What becomes of the frame at a place of a stack: it stays as it is, or it is the current file frame,
the file frame below that one, or the outermost frame, and only names that may be assigned there differ.
What is meant for a missing file frame below the current one goes to the outermost frame. -/
def Rebound (w : Writes) (fs : List Frame) (i : Nat) (f f' : Frame) : Prop :=
  f' = f ∨
    f'.kind = f.kind ∧
      (Scope.fileAt? 0 fs = some i ∧ BoundOnly (w .here) f f' ∨
        Scope.fileAt? 1 fs = some i ∧ BoundOnly (w .includer) f f' ∨
        i + 1 = fs.length ∧
          BoundOnly (fun name => w .everywhere name ∨ Scope.fileAt? 1 fs = none ∧ w .includer name) f f')

variable {w : Writes}

theorem DiffersAt.boundOnly {names : String → Prop} {f f' : Frame} (h : DiffersAt (some names) f f') :
    BoundOnly names f f' := by
  intro name hne
  exact Classical.byContradiction fun hn => hne (h.2 name hn)

def ReboundBehind (w : Writes) (files : Nat) (fs : List Frame) (i : Nat) (f f' : Frame) : Prop :=
  f' = f ∨
    f'.kind = f.kind ∧
      (files = 0 ∧ Scope.fileAt? 0 fs = some i ∧ BoundOnly (w .here) f f' ∨
        files ≤ 1 ∧ Scope.fileAt? (1 - files) fs = some i ∧ BoundOnly (w .includer) f f' ∨
        i + 1 = fs.length ∧ BoundOnly (fun name => w .everywhere name ∨
          (files ≤ 1 ∧ Scope.fileAt? (1 - files) fs = none) ∧ w .includer name) f f')

theorem BoundOnly.imp {names names' : String → Prop} {f f' : Frame} (h : BoundOnly names f f')
    (himp : ∀ name, names name → names' name) : BoundOnly names' f f' :=
  fun name hne => himp name (h name hne)

theorem DiffersAt.rebound {files : Nat} {f f' : Frame} {fs : List Frame}
    (h : DiffersAt (permission w files f fs) f f') : ReboundBehind w files (f :: fs) 0 f f' := by
  have hk := h.kind_eq
  simp only [permission] at h
  split at h
  next hfile => exact .inr ⟨hk, .inl ⟨rfl, by simp [Scope.fileAt?, Scope.isFile, hfile], h.boundOnly⟩⟩
  next hfile =>
    refine .inr ⟨hk, .inr (.inl ⟨Nat.le_refl 1, ?_, h.boundOnly⟩)⟩
    simp [Scope.fileAt?, Scope.isFile, hfile]
  next hglobals =>
    split at h
    next hlast =>
      obtain rfl : fs = [] := List.isEmpty_iff.1 hlast
      refine .inr ⟨hk, .inr (.inr ⟨rfl, h.boundOnly.imp ?_⟩)⟩
      rintro name (he | ⟨hle, hi⟩)
      · exact .inl he
      · exact .inr ⟨⟨hle, by simp [Scope.fileAt?, Scope.isFile, hglobals]⟩, hi⟩
    next => exact .inl h
  next => exact .inl h

/-- A file frame moves the count. -/
theorem ReboundBehind.behind {files i : Nat} {g f f' : Frame} {gs : List Frame}
    (h : ReboundBehind w (passed files g) gs i f f') : ReboundBehind w files (g :: gs) (i + 1) f f' := by
  rcases h with he | ⟨hk, h⟩
  · exact .inl he
  refine .inr ⟨hk, ?_⟩
  by_cases hg : Scope.isFile g
  · rw [passed, if_pos hg] at h
    obtain ⟨h0, -⟩ | ⟨h1, hat, hb⟩ | ⟨hlen, hb⟩ := h
    · omega
    · obtain rfl : files = 0 := by omega
      exact .inr (.inl ⟨by omega, by simpa [Scope.fileAt?, hg] using hat, hb⟩)
    · refine .inr (.inr ⟨by simp [hlen], hb.imp ?_⟩)
      rintro name (he | ⟨⟨hle, hat⟩, hi⟩)
      · exact .inl he
      · obtain rfl : files = 0 := by omega
        exact .inr ⟨⟨by omega, by simpa [Scope.fileAt?, hg] using hat⟩, hi⟩
  · rw [passed, if_neg hg] at h
    obtain ⟨h0, hat, hb⟩ | ⟨h1, hat, hb⟩ | ⟨hlen, hb⟩ := h
    · exact .inl ⟨h0, by simpa [Scope.fileAt?, hg] using hat, hb⟩
    · exact .inr (.inl ⟨h1, by simpa [Scope.fileAt?, hg] using hat, hb⟩)
    · refine .inr (.inr ⟨by simp [hlen], hb.imp ?_⟩)
      rintro name (he | ⟨⟨hle, hat⟩, hi⟩)
      · exact .inl he
      · exact .inr ⟨⟨hle, by simpa [Scope.fileAt?, hg] using hat⟩, hi⟩

theorem Changed.rebound_behind {files : Nat} {fs fs' : List Frame} (h : Changed w files fs fs') {i : Nat}
    {f f' : Frame} (hf : fs[i]? = some f) (hf' : fs'[i]? = some f') : ReboundBehind w files fs i f f' := by
  induction fs generalizing files fs' i with
  | nil => simp at hf
  | cons g gs ih =>
      obtain ⟨g', gs', rfl, hg, hgs⟩ := h.of_cons
      cases i with
      | zero =>
          obtain rfl : g = f := by simpa using hf
          obtain rfl : g' = f' := by simpa using hf'
          exact hg.rebound
      | succ i => exact (ih hgs (by simpa using hf) (by simpa using hf')).behind

theorem Changed.rebound {fs fs' : List Frame} (h : Changed w 0 fs fs') {i : Nat} {f f' : Frame}
    (hf : fs[i]? = some f) (hf' : fs'[i]? = some f') : Rebound w fs i f f' := by
  rcases h.rebound_behind hf hf' with he | ⟨hk, hr⟩
  · exact .inl he
  refine .inr ⟨hk, ?_⟩
  obtain ⟨_, hat, hb⟩ | ⟨_, hat, hb⟩ | ⟨hlen, hb⟩ := hr
  · exact .inl ⟨hat, hb⟩
  · exact .inr (.inl ⟨hat, hb⟩)
  · refine .inr (.inr ⟨hlen, hb.imp ?_⟩)
    rintro name (he | ⟨⟨_, hat⟩, hi⟩)
    · exact .inl he
    · exact .inr ⟨hat, hi⟩

end Frame

namespace Renderer

variable (r : Renderer)

theorem run_ended (t : Template) (data : Dict Value) :
    ∃ h, (r.run t data).2 = h.map Halt.error ∧ RenderState.Keeps r.engine (r.start data) (r.run t data).1 ∧
      Effect.onFrames r.engine (fun target name => Node.Assigns r.provides target name t.nodes)
        (r.start data) h (r.run t data).1 := by
  have hn := (Effect.onFrames.closed r.engine).ofNodes r.includeLimit t.nodes (r.start data)
  rw [run]
  cases hr : Node.processAll r.engine (r.engine.includer r.includeLimit) t.nodes (r.start data) with
  | ok a st =>
      rw [hr] at hn
      exact ⟨none, rfl, hn⟩
  | error h st =>
      rw [hr] at hn
      exact ⟨some h, rfl, hn⟩

/-- With the filters that are always there, no render records that a scope is missing. -/
theorem fault_ne_noActiveScope (hf : r.filters = .builtins) (t : Template) (data : Dict Value) :
    ∀ e ∈ (r.render t data).2.errors, e.fault ≠ .noActiveScope := by
  intro e he hfault
  obtain ⟨h, hr, _, hn⟩ := r.run_ended t data
  have hsome : h.map Halt.error = some e := by
    rw [← hr]
    exact Option.mem_toList.1 he
  obtain ⟨halt, rfl, rfl⟩ := Option.map_eq_some_iff.1 hsome
  cases halt with
  | tooDeep => cases hfault
  | failed e =>
      obtain ⟨inner, ⟨name, f, v, arguments, hget, hv⟩, hinner⟩ :=
        (hn (r.start_sound data).stacked).2 e rfl hfault
      have hget : r.filters.filters.get? name = some f := hget
      rw [hf] at hget
      exact (FilterRegistry.complains_of_builtins hget v arguments inner hv).fault_ne hinner

/-- A render ends with the two frames that it began with. -/
theorem run_frames (t : Template) (data : Dict Value) :
    ∃ file globals, (r.run t data).1.scope.frames = [⟨.file, file⟩, ⟨.globals, globals⟩] ∧
      Frame.BoundOnly (fun name => Node.Assigns r.provides .everywhere name t.nodes ∨
        Node.Assigns r.provides .includer name t.nodes) ⟨.globals, data⟩ ⟨.globals, globals⟩ := by
  obtain ⟨h, _, hkeep, he⟩ := r.run_ended t data
  obtain ⟨hc, _⟩ := he (r.start_sound data).stacked
  have hs : (r.start data).scope.frames = [⟨.file, []⟩, ⟨.globals, data⟩] := rfl
  have hk := hkeep.kinds
  generalize (r.run t data).1.scope = s at hc hk ⊢
  rw [hs] at hc
  obtain ⟨frames, signals⟩ := s
  match frames, hc, hk with
  | [⟨_, file⟩, ⟨_, globals⟩], hc, hk =>
      cases hk
      refine ⟨file, globals, rfl, ?_⟩
      intro name hne
      rcases hc.2.1.boundOnly name hne with he | ⟨_, hi⟩
      · exact .inl he
      · exact .inr hi

theorem globals_render {t : Template} {data : Dict Value} {file globals : Dict Value}
    (h : (r.run t data).1.scope.frames = [⟨.file, file⟩, ⟨.globals, globals⟩]) :
    (r.render t data).2.globals? = some globals := by
  have hg : (r.render t data).2.globals? =
      (((r.run t data).1.scope.clearSignals).truncate 1).globals? := rfl
  rw [hg]
  simp [Scope.clearSignals, Scope.truncate, Scope.depth, Scope.globals?, h]

/-- In every state that a render comes to, the stack has its two outermost frames, and whatever nodes are
processed, the frames present come out with their kinds. Only the current file frame, the one below it and
the outermost frame are written to, at names that the nodes assign there. A scope is never missing. So a
render leaves its data as they are but for what was assigned to the global scope. -/
theorem frames_kept :
    (∀ st, r.Reached st → st.scope.Stacked ∧
      ∀ depth nodes, Rendering.Ended (Node.processAll r.engine (r.engine.includer depth) nodes st) fun h st' =>
        st'.scope.kinds = st.scope.kinds ∧
        (∀ i f f', st.scope.frames[i]? = some f → st'.scope.frames[i]? = some f' →
          Frame.Rebound (fun target name => Node.Assigns r.provides target name nodes)
            st.scope.frames i f f') ∧
        ∀ e, h = some (.failed e) → e.fault = .noActiveScope →
          ∃ inner, r.filters.Raises inner ∧ inner.fault = .noActiveScope) ∧
    ∀ t data, ∃ globals, (r.render t data).2.globals? = some globals ∧
      ∀ name, globals.get? name ≠ data.get? name →
        Node.Assigns r.provides .everywhere name t.nodes ∨
          Node.Assigns r.provides .includer name t.nodes := by
  refine ⟨?_, ?_⟩
  · intro st hst
    refine ⟨hst.sound.stacked, ?_⟩
    intro depth nodes
    refine ((Effect.onFrames.closed r.engine).ofNodes depth nodes st).imp ?_
    rintro h st' ⟨hkeep, he⟩
    rw [hst.sound.provide] at he
    obtain ⟨hc, hf⟩ := he hst.sound.stacked
    exact ⟨hkeep.kinds, fun i f f' hi hi' => hc.rebound hi hi', hf⟩
  · intro t data
    obtain ⟨file, globals, hr, hb⟩ := r.run_frames t data
    exact ⟨globals, r.globals_render hr, hb⟩

/-- In the round of a loop an assignment to the global scope keeps the loop's frame and its own. -/
theorem frames_kept_in_round :
    let st := (((new .standard).start []).enter .control []).openRound "x" (.int 1) 0 1
    (new .standard).Reached st ∧
    Rendering.Ended (Node.processAll (new .standard).engine ((new .standard).engine.includer 3)
      [.assign "x" (.variable "x" 0) .everywhere 0] st) fun _ st' =>
        st'.scope.kinds = [.control, .file, .globals] ∧
        ∀ f f', st.scope.frames[0]? = some f → st'.scope.frames[0]? = some f' → f' = f := by
  intro st
  have hst : (new .standard).Reached st :=
    ⟨(.nodes 1000 []), ⟨"", none, [.loop "x" (.array [.literal (.int 1) 0] 0) [] 0]⟩, [],
      .tail (.tail .refl (.loop rfl rfl)) .round⟩
  refine ⟨hst, ?_⟩
  refine (((new .standard).frames_kept.1 st hst).2 3 [.assign "x" (.variable "x" 0) .everywhere 0]).imp ?_
  rintro _ st' ⟨hk, hr, _⟩
  refine ⟨hk, ?_⟩
  intro f f' hf hf'
  rcases hr 0 f f' hf hf' with he | ⟨_, ⟨hat, _⟩ | ⟨hat, _⟩ | ⟨hat, _⟩⟩
  · exact he
  · cases hat
  · cases hat
  · cases hat

end Renderer

end Stencil
