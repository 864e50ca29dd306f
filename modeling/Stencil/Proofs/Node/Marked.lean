import Stencil.Proofs.Node.Tiling

namespace Stencil

namespace Region

def Holds (n : Nat) : Region → Prop
  | .output o cs => o ≤ n ∧ n < o + Text.byteLength cs
  | .tag o cs => o ≤ n ∧ n < o + Text.byteLength cs
  | _ => False

def isText : Region → Bool
  | .text _ _ => true
  | _ => false

def marked (regions : List Region) : List Region :=
  regions.filter (!·.isText)

@[simp]
theorem marked_text (o : Nat) (cs : List Char) (regions : List Region) :
    marked (.text o cs :: regions) = marked regions := rfl

section scan

variable {skip : Bool} {o : Nat} {c : Char} {cs body rest : List Char}

@[simp]
theorem scan_unclosedOutput (h : splitAtMark '\x7d' '\x7d' cs = none) :
    scan skip o ('\x7b' :: '\x7b' :: cs) = [.unclosedOutput o] := by
  rw [scan]
  split
  next => rfl
  next h' =>
    rw [h] at h'
    cases h'

theorem scan_output (h : splitAtMark '\x7d' '\x7d' cs = some (body, rest)) :
    scan skip o ('\x7b' :: '\x7b' :: cs) =
      .output (o + 2) body :: scan skip (o + 4 + Text.byteLength body) rest := by
  rw [scan]
  split
  next h' =>
    rw [h] at h'
    cases h'
  next h' =>
    rw [h] at h'
    cases h'
    rfl

@[simp]
theorem scan_unclosedTag (h : splitAtMark '%' '\x7d' cs = none) :
    scan skip o ('\x7b' :: '%' :: cs) = [.unclosedTag o] := by
  rw [scan]
  split
  next => rfl
  next h' =>
    rw [h] at h'
    cases h'

theorem scan_tag (h : splitAtMark '%' '\x7d' cs = some (body, rest)) :
    scan skip o ('\x7b' :: '%' :: cs) = .tag (o + 2) body ::
      scan skip (o + 4 + Text.byteLength body + (rest.length - (afterTag skip rest).length))
        (afterTag skip rest) := by
  rw [scan]
  split
  next h' =>
    rw [h] at h'
    cases h'
  next h' =>
    rw [h] at h'
    cases h'
    rfl

@[simp]
theorem scan_brace (hc : c ≠ '\x7b') (hp : c ≠ '%') :
    scan skip o ('\x7b' :: c :: cs) = .text o ['\x7b'] :: scan skip (o + 1) (c :: cs) := by
  rw [scan]
  · simp [hc]
  · simp [hp]

@[simp]
theorem scan_brace_nil : scan skip o ['\x7b'] = [.text o ['\x7b']] := by
  rw [scan] <;> simp [scan]

@[simp]
theorem scan_run (hc : c ≠ '\x7b') : scan skip o (c :: cs) =
    if cs.dropWhile (· ≠ '\x7b') = ['\x7b'] then [.text o (c :: cs)]
    else .text o (c :: cs.takeWhile (· ≠ '\x7b')) ::
      scan skip (o + Text.byteLength (c :: cs.takeWhile (· ≠ '\x7b'))) (cs.dropWhile (· ≠ '\x7b')) := by
  rw [scan] <;> simp [hc]

/-- A literal text that something other than one brace follows. -/
theorem scan_text (hrun : ∀ d ds, c = '\x7b' → cs = d :: ds → False)
    (hrest : cs.dropWhile (· ≠ '\x7b') ≠ ['\x7b']) :
    scan skip o (c :: cs) = .text o (c :: cs.takeWhile (· ≠ '\x7b')) ::
      scan skip (o + Text.byteLength (c :: cs.takeWhile (· ≠ '\x7b'))) (cs.dropWhile (· ≠ '\x7b')) := by
  rw [scan, if_neg hrest]
  · exact fun ds => hrun _ ds
  · exact fun ds => hrun _ ds
  · exact hrun

/-- A character before a literal text joins it. Before anything else it is a text by itself. -/
theorem scan_cons (hc : c ≠ '\x7b') :
    (∃ d ds regions, scan skip (o + c.utf8Size) cs = .text (o + c.utf8Size) (d :: ds) :: regions ∧
      scan skip o (c :: cs) = .text o (c :: d :: ds) :: regions) ∨
    scan skip o (c :: cs) = .text o [c] :: scan skip (o + c.utf8Size) cs := by
  rw [scan_run hc]
  cases cs with
  | nil =>
      rw [List.dropWhile_nil, if_neg (List.cons_ne_nil _ _).symm, List.takeWhile_nil]
      exact .inr rfl
  | cons d cs =>
      by_cases hd : d = '\x7b'
      · subst hd
        rw [List.dropWhile_cons_of_neg (by simp), List.takeWhile_cons_of_neg (by simp)]
        split
        next h =>
          rw [h, scan_brace_nil]
          exact .inl ⟨_, _, _, rfl, rfl⟩
        next h => exact .inr rfl
      · rw [List.dropWhile_cons_of_pos (by simpa using hd), List.takeWhile_cons_of_pos (by simpa using hd),
          scan_run hd]
        split
        next h => exact .inl ⟨_, _, _, rfl, rfl⟩
        next h =>
          refine .inl ⟨_, _, _, rfl, ?_⟩
          rw [Text.byteLength, Nat.add_assoc]

end scan

variable {skip : Bool} {o : Nat} {c : Char} {cs : List Char}

theorem marked_scan_cons (hc : c ≠ '\x7b') :
    marked (scan skip o (c :: cs)) = marked (scan skip (o + c.utf8Size) cs) := by
  rcases @scan_cons skip o c cs hc with ⟨d, ds, regions, hscan, hcons⟩ | hcons
  · simp [hscan, hcons]
  · simp [hcons]

theorem marked_scan_afterTag (skip : Bool) (o : Nat) (cs : List Char) :
    marked (scan false (o + (cs.length - (afterTag skip cs).length)) (afterTag skip cs)) =
      marked (scan false o cs) := by
  unfold afterTag
  split
  next cs =>
    cases skip with
    | true =>
        rw [if_pos rfl, List.length_cons, Nat.add_sub_cancel_left, marked_scan_cons (by decide)]
        rfl
    | false => rw [if_neg (by decide), Nat.sub_self, Nat.add_zero]
  next => rw [Nat.sub_self, Nat.add_zero]

theorem marked_scan (skip : Bool) (o : Nat) (cs : List Char) :
    marked (scan skip o cs) = marked (scan false o cs) := by
  fun_induction scan skip o cs with
  | case1 => rw [scan]
  | case2 o cs h => simp [h]
  | case3 o cs body rest hsplit _ ih =>
      rw [scan_output hsplit]
      exact congrArg (.output (o + 2) body :: ·) ih
  | case4 o cs h => simp [h]
  | case5 o cs body rest hsplit _ _ next ih =>
      rw [scan_tag hsplit]
      refine congrArg (.tag (o + 2) body :: ·) (ih.trans ?_)
      exact (marked_scan_afterTag skip _ rest).trans (marked_scan_afterTag false _ rest).symm
  | case6 o c cs hbrace hpercent ih =>
      rw [scan_brace hbrace hpercent, marked_text, marked_text, ih]
  | case7 o c cs _ _ hrun rest _ hrest =>
      rw [scan_run (ne_brace_of_last hrun hrest), if_pos hrest]
  | case8 o c cs _ _ hrun run rest _ hrest ih =>
      rw [scan_text hrun hrest, marked_text, marked_text, ih]

/-- A region that holds a byte is there whether newlines are skipped or not. -/
theorem mem_scan_of_holds {r : Region} {n : Nat} (h : r ∈ scan skip o cs) (hn : r.Holds n) :
    r ∈ scan false o cs := by
  have hr : !r.isText := by
    cases r with
    | text => cases hn
    | output | tag | unclosedOutput | unclosedTag => rfl
  have hm : r ∈ marked (scan false o cs) := by
    rw [← marked_scan skip]
    exact List.mem_filter.2 ⟨h, hr⟩
  exact (List.mem_filter.1 hm).1

end Region

end Stencil
