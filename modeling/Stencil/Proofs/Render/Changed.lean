import Stencil.Proofs.Render.Kept

namespace Stencil

namespace Frame

/-- The names that may be bound anew in a frame with these frames below it and so many file frames above
it. Without permission the frame stays as it is. -/
def permission (w : Writes) (files : Nat) (f : Frame) (below : List Frame) : Option (String → Prop) :=
  match f.kind, files with
  | .file, 0 => some (w .here)
  | .file, 1 => some (w .includer)
  | .globals, _ =>
      if below.isEmpty then some fun name => w .everywhere name ∨ files ≤ 1 ∧ w .includer name else none
  | _, _ => none

def DiffersAt (permission : Option (String → Prop)) (f f' : Frame) : Prop :=
  match permission with
  | none => f' = f
  | some names => f'.kind = f.kind ∧ ∀ name, ¬ names name → f'.bindings.get? name = f.bindings.get? name

def passed (files : Nat) (f : Frame) : Nat :=
  if Scope.isFile f then files + 1 else files

def Changed (w : Writes) : Nat → List Frame → List Frame → Prop
  | _, [], [] => True
  | files, f :: fs, f' :: fs' =>
      DiffersAt (permission w files f fs) f f' ∧ Changed w (passed files f) fs fs'
  | _, _, _ => False

section

variable {w w' : Writes} {files : Nat} {f f' f'' : Frame} {fs fs' fs'' : List Frame}

theorem passed_eq (hk : f'.kind = f.kind) : passed files f' = passed files f := by
  simp [passed, Scope.isFile, hk]

@[simp]
theorem passed_succ (files : Nat) (f : Frame) : passed (files + 1) f = passed files f + 1 := by
  by_cases h : Scope.isFile f <;> simp [passed, h]

/-- A permission depends on the kinds of the frames alone. -/
theorem permission_eq (hk : f'.kind = f.kind) (hs : fs'.map Frame.kind = fs.map Frame.kind) :
    permission w files f' fs' = permission w files f fs := by
  have he : fs'.isEmpty = fs.isEmpty := by
    rw [← List.isEmpty_map (f := Frame.kind), hs, List.isEmpty_map]
  simp only [permission, hk, he]

def FileFound (files : Nat) (fs : List Frame) : Prop :=
  1 ≤ files ∨ ∃ g ∈ fs, Scope.isFile g

theorem FileFound.passed (h : FileFound files (f :: fs)) : FileFound (passed files f) fs := by
  by_cases hf : Scope.isFile f
  · simp [FileFound, Frame.passed, hf]
  · simpa [FileFound, Frame.passed, hf] using h

namespace DiffersAt

variable {p : Option (String → Prop)} {names : String → Prop}

theorem refl (p : Option (String → Prop)) (f : Frame) : DiffersAt p f f := by
  cases p with
  | none => rfl
  | some names => exact ⟨rfl, fun _ _ => rfl⟩

theorem kind_eq (h : DiffersAt p f f') : f'.kind = f.kind := by
  cases p with
  | none => exact congrArg Frame.kind h
  | some names => exact h.1

theorem trans (h : DiffersAt p f f') (h' : DiffersAt p f' f'') : DiffersAt p f f'' := by
  cases p with
  | none => exact Eq.trans h' h
  | some names =>
      constructor
      · exact h'.1.trans h.1
      · intro name hn
        exact (h'.2 name hn).trans (h.2 name hn)

theorem bind {name : String} (v : Value) (f : Frame) (hp : p = some names) (hn : names name) :
    DiffersAt p f (Scope.bind name v f) := by
  subst hp
  refine ⟨rfl, ?_⟩
  intro other ho
  have hne : other ≠ name := by
    rintro rfl
    exact ho hn
  exact Dict.get?_insert_of_ne _ _ hne

/-- Fewer file frames above a frame permit more, unless it is the only file frame to come. -/
theorem of_passed (hhere : ∀ name, w' .includer name → w .here name)
    (hall : ∀ name, w' .everywhere name → w .everywhere name) (hfile : FileFound files (f :: fs))
    (h : DiffersAt (permission w' (files + 1) f fs) f f') : DiffersAt (permission w files f fs) f f' := by
  simp only [permission] at h ⊢
  cases hk : f.kind with
  | control =>
      rw [hk] at h
      exact h
  | file =>
      rw [hk] at h
      match files with
      | 0 => exact ⟨h.1, fun name hn => h.2 name fun hi => hn (hhere name hi)⟩
      | 1 =>
          obtain rfl : f' = f := h
          exact refl _ _
      | _ + 2 => exact h
  | globals =>
      rw [hk] at h
      cases fs with
      | cons g gs => exact h
      | nil =>
          have hone : 1 ≤ files := by simpa [FileFound, Scope.isFile, hk] using hfile
          refine ⟨h.1, ?_⟩
          intro name hn
          apply h.2 name
          rintro (he | ⟨hle, _⟩)
          · exact hn (.inl (hall name he))
          · omega

end DiffersAt

namespace Changed

theorem of_nil (h : Changed w files [] fs') : fs' = [] := by
  cases fs' with
  | nil => rfl
  | cons f' fs' => exact h.elim

theorem of_cons (h : Changed w files (f :: fs) fs') :
    ∃ g gs, fs' = g :: gs ∧ DiffersAt (permission w files f fs) f g ∧
      Changed w (passed files f) fs gs := by
  cases fs' with
  | nil => exact h.elim
  | cons g gs => exact ⟨g, gs, rfl, h⟩

theorem drop_one (h : Changed w files (f :: fs) fs') : Changed w (passed files f) fs (fs'.drop 1) := by
  obtain ⟨g, gs, rfl, -, hs⟩ := h.of_cons
  exact hs

/-- A frame of a loop or a capture is never written to from inside. -/
theorem head_control {d : Dict Value} (h : Changed w files (⟨.control, d⟩ :: fs) fs') :
    fs' = ⟨.control, d⟩ :: fs'.tail := by
  obtain ⟨g, gs, rfl, hg, -⟩ := h.of_cons
  obtain rfl : g = ⟨.control, d⟩ := hg
  rfl

theorem refl (files : Nat) (fs : List Frame) : Changed w files fs fs := by
  induction fs generalizing files with
  | nil => trivial
  | cons f fs ih => exact ⟨.refl _ f, ih _⟩

theorem kinds_eq (h : Changed w files fs fs') : fs'.map Frame.kind = fs.map Frame.kind := by
  induction fs generalizing files fs' with
  | nil => rw [h.of_nil]
  | cons f fs ih =>
      obtain ⟨f', fs', rfl, hf, hs⟩ := h.of_cons
      rw [List.map_cons, List.map_cons, hf.kind_eq, ih hs]

theorem trans (h : Changed w files fs fs') (h' : Changed w files fs' fs'') : Changed w files fs fs'' := by
  induction fs generalizing files fs' fs'' with
  | nil =>
      obtain rfl := h.of_nil
      exact h'
  | cons f fs ih =>
      obtain ⟨f', fs', rfl, hf, hs⟩ := h.of_cons
      obtain ⟨f'', fs'', rfl, hf', hs'⟩ := h'.of_cons
      rw [permission_eq hf.kind_eq hs.kinds_eq] at hf'
      rw [passed_eq hf.kind_eq] at hs'
      exact ⟨hf.trans hf', ih hs hs'⟩

/-- Behind one more file frame less is permitted, if some file frame is still to come. -/
theorem of_passed (hhere : ∀ name, w' .includer name → w .here name)
    (hall : ∀ name, w' .everywhere name → w .everywhere name) (hfile : FileFound files fs)
    (h : Changed w' (files + 1) fs fs') : Changed w files fs fs' := by
  induction fs generalizing files fs' with
  | nil =>
      obtain rfl := h.of_nil
      trivial
  | cons f fs ih =>
      obtain ⟨f', fs', rfl, hf, hs⟩ := h.of_cons
      rw [passed_succ] at hs
      exact ⟨hf.of_passed hhere hall hfile, ih hfile.passed hs⟩

end Changed

end

end Frame

end Stencil
