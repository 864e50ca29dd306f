import Stencil.Proofs.Render.Changed

namespace Stencil

def Scope.Stacked (s : Scope) : Prop :=
  ∃ above, s.kinds = above ++ [.file, .globals] ∧ .globals ∉ above

namespace Scope

variable {w : Writes} {name : String} {v : Value}

open Stencil.Frame

theorem kind_of_isFile {f : Frame} (h : isFile f) : f.kind = .file :=
  of_decide_eq_true h

section

variable {f : Frame} (fs : List Frame)

theorem bindWhere_file_zero (hf : isFile f) :
    bindWhere isFile name v 0 (f :: fs) = some (bind name v f :: fs) := by
  rw [bindWhere, if_pos hf]

theorem bindWhere_file_succ (hf : isFile f) (skip : Nat) :
    bindWhere isFile name v (skip + 1) (f :: fs) = (bindWhere isFile name v skip fs).map (f :: ·) := by
  rw [bindWhere, if_pos hf]

theorem bindWhere_other (hf : ¬isFile f) (skip : Nat) :
    bindWhere isFile name v skip (f :: fs) = (bindWhere isFile name v skip fs).map (f :: ·) := by
  cases skip <;> rw [bindWhere, if_neg hf]

end

theorem changed_of_bindWhere {skip files : Nat} {fs fs' : List Frame}
    (h : bindWhere isFile name v skip fs = some fs') (hle : files + skip ≤ 1)
    (hhere : files + skip = 0 → w .here name) (hincl : files + skip = 1 → w .includer name) :
    Changed w files fs fs' := by
  induction fs generalizing skip files fs' with
  | nil => cases h
  | cons f fs ih =>
      by_cases hf : isFile f
      · have hpassed : passed files f = files + 1 := if_pos hf
        cases skip with
        | zero =>
            rw [bindWhere_file_zero fs hf] at h
            obtain rfl := Option.some.inj h
            refine ⟨?_, .refl _ _⟩
            match files with
            | 0 => exact DiffersAt.bind v f (by simp [permission, kind_of_isFile hf]) (hhere rfl)
            | 1 => exact DiffersAt.bind v f (by simp [permission, kind_of_isFile hf]) (hincl rfl)
        | succ n =>
            rw [bindWhere_file_succ fs hf] at h
            obtain ⟨gs, hg, rfl⟩ := Option.map_eq_some_iff.1 h
            refine ⟨.refl _ f, ?_⟩
            rw [hpassed]
            exact ih hg (by omega) (by omega) (fun he => hincl (by omega))
      · have hpassed : passed files f = files := if_neg hf
        rw [bindWhere_other fs hf] at h
        obtain ⟨gs, hg, rfl⟩ := Option.map_eq_some_iff.1 h
        refine ⟨.refl _ f, ?_⟩
        rw [hpassed]
        exact ih hg hle hhere hincl

theorem passed_add_length_filter (files : Nat) (f : Frame) (fs : List Frame) :
    passed files f + (fs.filter isFile).length = files + ((f :: fs).filter isFile).length := by
  by_cases hf : isFile f
  · simp [passed, hf]
    omega
  · simp [passed, hf]

theorem changed_of_bindGlobal {files : Nat} {fs fs' : List Frame} (h : bindGlobal name v fs = some fs')
    (hw : w .everywhere name ∨ files + (fs.filter isFile).length ≤ 1 ∧ w .includer name) :
    Changed w files fs fs' := by
  induction fs generalizing files fs' with
  | nil => cases h
  | cons f fs ih =>
      cases fs with
      | nil =>
          rw [bindGlobal] at h
          split at h
          next hk =>
            obtain rfl := Option.some.inj h
            refine ⟨.bind v f (by simp only [permission, hk, List.isEmpty_nil, if_true]; rfl) ?_, trivial⟩
            rcases hw with hw | ⟨hle, hw⟩
            · exact .inl hw
            · exact .inr ⟨by omega, hw⟩
          next => cases h
      | cons g gs =>
          obtain ⟨gs', hg, rfl⟩ := Option.map_eq_some_iff.1 h
          rw [← passed_add_length_filter] at hw
          exact ⟨.refl _ f, ih hg hw⟩

theorem bindWhere_isSome (name : String) (v : Value) {skip : Nat} {fs : List Frame}
    (h : skip < (fs.filter isFile).length) : ∃ fs', bindWhere isFile name v skip fs = some fs' := by
  induction fs generalizing skip with
  | nil => simp at h
  | cons f fs ih =>
      by_cases hf : isFile f
      · cases skip with
        | zero => exact ⟨_, bindWhere_file_zero fs hf⟩
        | succ n =>
            rw [List.filter_cons_of_pos hf, List.length_cons] at h
            obtain ⟨gs, hg⟩ := ih (Nat.lt_of_succ_lt_succ h)
            exact ⟨f :: gs, by rw [bindWhere_file_succ fs hf, hg]; rfl⟩
      · rw [List.filter_cons_of_neg hf] at h
        obtain ⟨gs, hg⟩ := ih h
        exact ⟨f :: gs, by rw [bindWhere_other fs hf, hg]; rfl⟩

theorem bindGlobal_isSome (name : String) (v : Value) {fs : List Frame} {kinds : List FrameKind}
    (h : fs.map Frame.kind = kinds ++ [.globals]) : ∃ fs', bindGlobal name v fs = some fs' := by
  induction fs generalizing kinds with
  | nil => simp at h
  | cons f fs ih =>
      cases kinds with
      | nil =>
          simp only [List.map_cons, List.nil_append, List.cons.injEq, List.map_eq_nil_iff] at h
          obtain ⟨hk, rfl⟩ := h
          exact ⟨[bind name v f], by simp [bindGlobal, hk]⟩
      | cons k ks =>
          simp only [List.map_cons, List.cons_append, List.cons.injEq] at h
          obtain ⟨gs, hg⟩ := ih h.2
          cases fs with
          | nil => simp at h
          | cons g rest => exact ⟨f :: gs, by simp [bindGlobal, hg]⟩

theorem length_filter_isFile (s : Scope) : (s.frames.filter isFile).length = s.kinds.count .file := by
  rw [kinds, List.count_eq_countP, List.countP_map, List.countP_eq_length_filter]
  rfl

theorem hasIncluder_iff {s : Scope} : s.hasIncluder ↔ 1 < (s.frames.filter isFile).length := by
  simp [hasIncluder]

namespace Stacked

variable {s s' : Scope}

theorem of_kinds_eq (h : s.Stacked) (hk : s'.kinds = s.kinds) : s'.Stacked := by
  rw [Stacked, hk]
  exact h

theorem push (h : s.Stacked) {kind : FrameKind} (hk : kind ≠ .globals) (d : Dict Value) :
    (s.push kind d).Stacked := by
  obtain ⟨above, he, hn⟩ := h
  refine ⟨kind :: above, ?_, ?_⟩
  · show kind :: s.kinds = kind :: (above ++ [.file, .globals])
    rw [he]
  · simp [hn, Ne.symm hk]

theorem fileCount_pos (h : s.Stacked) : 0 < (s.frames.filter isFile).length := by
  obtain ⟨above, he, _⟩ := h
  rw [length_filter_isFile, he]
  simp

theorem fileFound (h : s.Stacked) : FileFound 0 s.frames := by
  obtain ⟨f, hm⟩ := List.exists_mem_of_length_pos h.fileCount_pos
  exact .inr ⟨f, List.mem_filter.1 hm⟩

/-- Nothing is missing from a stack: every assignment finds its frame. -/
theorem assign_ok (h : s.Stacked) (target : AssignTarget) (name : String) (v : Value) :
    ∃ s', s.assign target name v = .ok s' := by
  obtain ⟨above, he, _⟩ := id h
  have hglobal : ∃ s', s.setGlobal name v = .ok s' := by
    have hk : s.frames.map Frame.kind = (above ++ [.file]) ++ [.globals] := by simpa [kinds] using he
    obtain ⟨fs, hfs⟩ := bindGlobal_isSome name v hk
    exact ⟨_, by rw [setGlobal, hfs]; rfl⟩
  cases target with
  | here =>
      obtain ⟨fs, hfs⟩ := bindWhere_isSome name v h.fileCount_pos
      exact ⟨_, by rw [assign, setFile, hfs]; rfl⟩
  | includer =>
      by_cases hi : s.hasIncluder
      · obtain ⟨fs, hfs⟩ := bindWhere_isSome name v (hasIncluder_iff.1 hi)
        exact ⟨_, by rw [assign, if_pos hi, setIncluder, hfs]; rfl⟩
      · obtain ⟨s', hs⟩ := hglobal
        exact ⟨s', by rw [assign, if_neg hi, hs]⟩
  | everywhere => exact hglobal

end Stacked

theorem of_withFrames {s s' : Scope} {found : Option (List Frame)} (h : s.withFrames found = .ok s') :
    ∃ fs, found = some fs ∧ s' = ⟨fs, s.signals⟩ := by
  cases found with
  | none => cases h
  | some fs => exact ⟨fs, rfl, (Except.ok.inj h).symm⟩

/-- An assignment writes to no frame but the one it names. -/
theorem changed_of_assign {s s' : Scope} {target : AssignTarget} (h : s.assign target name v = .ok s')
    (hw : w target name) : Changed w 0 s.frames s'.frames ∧ s'.signals = s.signals := by
  cases target with
  | here =>
      obtain ⟨fs, hfs, rfl⟩ := of_withFrames h
      exact ⟨changed_of_bindWhere hfs (by simp) (fun _ => hw) (by simp), rfl⟩
  | includer =>
      rw [assign] at h
      by_cases hi : s.hasIncluder
      · rw [if_pos hi] at h
        obtain ⟨fs, hfs, rfl⟩ := of_withFrames h
        exact ⟨changed_of_bindWhere hfs (by simp) (by simp) (fun _ => hw), rfl⟩
      · rw [if_neg hi] at h
        obtain ⟨fs, hfs, rfl⟩ := of_withFrames h
        rw [hasIncluder_iff] at hi
        exact ⟨changed_of_bindGlobal hfs (.inr ⟨by omega, hw⟩), rfl⟩
  | everywhere =>
      obtain ⟨fs, hfs, rfl⟩ := of_withFrames h
      exact ⟨changed_of_bindGlobal hfs (.inl hw), rfl⟩

end Scope

end Stencil
