import Mathlib.Data.List.TakeWhile
import Stencil.Proofs.Text.Span

namespace Stencil.Text

variable {cs front : List Char} {n m : Nat}

theorem byteLength_upTo_le (cs : List Char) (n : Nat) : byteLength (upTo cs n) ≤ n := by
  fun_induction upTo cs n with
  | case1 => exact Nat.zero_le _
  | case2 n c cs _ ih =>
      rw [byteLength]
      omega
  | case3 => exact Nat.zero_le _

theorem byteLength_le_upTo (before after : List Char) (h : byteLength before ≤ n) :
    byteLength before ≤ byteLength (upTo (before ++ after) n) := by
  induction before generalizing n with
  | nil => exact Nat.zero_le _
  | cons c before ih =>
      rw [byteLength] at h
      have hrest := @ih (n - c.utf8Size) (by omega)
      rw [List.cons_append, upTo, if_pos (by omega), byteLength, byteLength]
      omega

/-- The greatest boundary that is not above the offset. -/
structure NearestBelow (cs : List Char) (o b : Nat) : Prop where
  isBoundary : IsBoundary cs b
  le : b ≤ o
  greatest : ∀ m, IsBoundary cs m → m ≤ o → m ≤ b

theorem nearestBelow_upTo (cs : List Char) (o : Nat) : NearestBelow cs o (byteLength (upTo cs o)) where
  isBoundary := by
    obtain ⟨after, hafter⟩ := upTo_prefix cs o
    exact ⟨upTo cs o, after, hafter.symm, rfl⟩
  le := byteLength_upTo_le cs o
  greatest := by
    rintro m ⟨before, after, rfl, rfl⟩ hm
    exact byteLength_le_upTo before after hm

theorem upTo_nearestBelow (cs : List Char) (o : Nat) : upTo cs (byteLength (upTo cs o)) = upTo cs o := by
  obtain ⟨after, hafter⟩ := upTo_prefix cs o
  have happend := upTo_append (upTo cs o) after
  rwa [hafter] at happend

namespace Position

def Before (p q : Position) : Prop :=
  p.line < q.line ∨ p.line = q.line ∧ p.column < q.column

instance (p q : Position) : Decidable (p.Before q) :=
  inferInstanceAs (Decidable (_ ∨ _))

variable {p q r : Position}

theorem Before.trans (h : p.Before q) (h' : q.Before r) : p.Before r := by
  simp only [Before] at *
  omega

theorem Before.ne (h : p.Before q) : p ≠ q := by
  rintro rfl
  simp [Before] at h

theorem before_advance (p : Position) (c : Char) : p.Before (p.advance c) := by
  by_cases hc : c = '\n' <;> simp [Before, advance, hc]

/-- The induction is on what stands between the two positions. -/
theorem before_foldl_advance (p : Position) (h : cs ≠ []) : p.Before (cs.foldl advance p) := by
  induction cs generalizing p with
  | nil => exact absurd rfl h
  | cons c cs ih =>
      rw [List.foldl_cons]
      cases cs with
      | nil => exact p.before_advance c
      | cons d cs => exact (p.before_advance c).trans (ih (p.advance c) (List.cons_ne_nil d cs))

end Position

theorem position_before {source : String} (hn : IsBoundary source.toList n) (hm : IsBoundary source.toList m)
    (h : n < m) : (position source n).Before (position source m) := by
  obtain ⟨before, piece, after, hsource, rfl, rfl⟩ := hn.exists_between hm (Nat.le_of_lt h)
  have hpiece : piece ≠ [] := by
    rintro rfl
    simp [byteLength] at h
  rw [← byteLength_append, position, position, hsource, upTo_append, ← List.append_assoc, upTo_append,
    List.foldl_append]
  exact Position.before_foldl_advance _ hpiece

def lines (cs : List Char) : List (List Char) :=
  cs.splitOn '\n'

def lineStart (cs : List Char) (l : Nat) : Nat :=
  byteLength (((lines cs).take l).flatMap (· ++ ['\n']))

theorem length_lines (cs : List Char) : (lines cs).length = cs.count '\n' + 1 := by
  simp only [lines, List.splitOn]
  induction cs with
  | nil => rfl
  | cons c cs ih =>
      by_cases hc : c = '\n' <;> simp [List.splitOnP_cons_eq_if_modifyHead, hc, ih]

@[simp]
theorem lines_append_newline (cs ds : List Char) : lines (cs ++ '\n' :: ds) = lines cs ++ lines ds :=
  List.splitOn_append_cons_self cs ds

theorem lines_of_not_mem (h : '\n' ∉ cs) : lines cs = [cs] :=
  List.splitOn_eq_singleton h

theorem flatMap_newline {ls : List (List Char)} (h : ls ≠ []) :
    ls.flatMap (· ++ ['\n']) = ['\n'].intercalate ls ++ ['\n'] := by
  induction ls with
  | nil => exact absurd rfl h
  | cons l ls ih =>
      cases ls with
      | nil => simp
      | cons l' ls =>
          rw [List.flatMap_cons, ih (List.cons_ne_nil l' ls)]
          simp [List.intercalate]

theorem flatMap_lines (cs : List Char) : (lines cs).flatMap (· ++ ['\n']) = cs ++ ['\n'] := by
  have hne : lines cs ≠ [] := List.ne_nil_of_length_pos (by simp [length_lines])
  rw [flatMap_newline hne, lines, List.intercalate_splitOn]

/-- The rest of a line is the first line of what is left of the text. -/
theorem exists_lines_append (h : '\n' ∉ front) (cs : List Char) :
    ∃ more, lines (front ++ cs) = (front ++ cs.takeWhile (· ≠ '\n')) :: more := by
  have hline : '\n' ∉ front ++ cs.takeWhile (· ≠ '\n') := by
    intro hm
    rcases List.mem_append.1 hm with hm | hm
    · exact h hm
    · simpa using List.mem_takeWhile_imp hm
  have hcut : front ++ cs = front ++ cs.takeWhile (· ≠ '\n') ++ cs.dropWhile (· ≠ '\n') := by
    rw [List.append_assoc, List.takeWhile_append_dropWhile]
  cases hrest : cs.dropWhile (· ≠ '\n') with
  | nil =>
      rw [hcut, hrest, List.append_nil]
      exact ⟨[], lines_of_not_mem hline⟩
  | cons c rest =>
      have hc := List.head?_dropWhile_not (· ≠ '\n') cs
      rw [hrest] at hc
      obtain rfl : c = '\n' := by simpa using hc
      rw [hcut, hrest, lines_append_newline, lines_of_not_mem hline]
      exact ⟨lines rest, rfl⟩

theorem exists_lastLine (before : List Char) : ∃ front last, before = front ++ last ∧ '\n' ∉ last ∧
    (before.reverse.takeWhile (· ≠ '\n')).reverse = last ∧ (front = [] ∨ ∃ cs, front = cs ++ ['\n']) := by
  have hcut : (before.reverse.dropWhile (· ≠ '\n')).reverse ++ (before.reverse.takeWhile (· ≠ '\n')).reverse =
      before := by
    rw [← List.reverse_append, List.takeWhile_append_dropWhile, List.reverse_reverse]
  refine ⟨_, _, hcut.symm, ?_, rfl, ?_⟩
  · intro hm
    simpa using List.mem_takeWhile_imp (List.mem_reverse.1 hm)
  · cases hrest : before.reverse.dropWhile (· ≠ '\n') with
    | nil => exact .inl rfl
    | cons c rest =>
        have hc := List.head?_dropWhile_not (· ≠ '\n') before.reverse
        rw [hrest] at hc
        obtain rfl : c = '\n' := by simpa using hc
        exact .inr ⟨rest.reverse, List.reverse_cons⟩

theorem exists_line (before after : List Char) :
    let last := (before.reverse.takeWhile (· ≠ '\n')).reverse
    let line := last ++ after.takeWhile (· ≠ '\n')
    (lines (before ++ after))[before.count '\n']? = some line ∧
      lineStart (before ++ after) (before.count '\n') + byteLength last = byteLength before := by
  intro last line
  subst line last
  obtain ⟨front, last, rfl, hlast, hlast', rfl | ⟨cs, rfl⟩⟩ := exists_lastLine before
  · rw [List.nil_append] at hlast' ⊢
    obtain ⟨more, hmore⟩ := exists_lines_append hlast after
    rw [List.count_eq_zero_of_not_mem hlast, hlast', hmore]
    exact ⟨rfl, Nat.zero_add _⟩
  · obtain ⟨more, hmore⟩ := exists_lines_append hlast after
    have hlines : lines (cs ++ ['\n'] ++ last ++ after) =
        lines cs ++ (last ++ after.takeWhile (· ≠ '\n')) :: more := by
      rw [← hmore, ← lines_append_newline]
      simp
    have hcount : (cs ++ ['\n'] ++ last).count '\n' = (lines cs).length := by
      rw [List.count_append, List.count_append, List.count_eq_zero_of_not_mem hlast, length_lines]
      rfl
    rw [hlast', hcount, lineStart, hlines, List.take_left, flatMap_lines, ← byteLength_append]
    exact ⟨by simp, rfl⟩

/-- Positions are in the order of the boundaries that they stand for, so no two boundaries have the same one. An
offset past the end or inside a character has the position and the line of the nearest boundary below it. This line
is the one that the position counts, among the lines between newlines, and as many characters into it as the column
counts one comes to that boundary. -/
theorem position_locates (source : String) :
    (∀ n m, IsBoundary source.toList n → IsBoundary source.toList m →
      (n < m → (position source n).Before (position source m)) ∧
        (position source n = position source m → n = m)) ∧
    ∀ o, ∃ b, NearestBelow source.toList o b ∧
      position source o = position source b ∧ lineAt source o = lineAt source b ∧
        ∃ l c line, position source o = ⟨l + 1, c + 1⟩ ∧ (lines source.toList)[l]? = some line ∧
          lineAt source o = String.ofList line ∧ c ≤ line.length ∧
            lineStart source.toList l + byteLength (line.take c) = b := by
  constructor
  · intro n m hn hm
    refine ⟨position_before hn hm, fun h => ?_⟩
    rcases Nat.lt_trichotomy n m with hlt | rfl | hlt
    · exact absurd h (position_before hn hm hlt).ne
    · rfl
    · exact absurd h.symm (position_before hm hn hlt).ne
  · intro o
    have hnear := nearestBelow_upTo source.toList o
    refine ⟨_, hnear, ?_, ?_, ?_⟩
    · rw [position, position, upTo_nearestBelow]
    · simp only [lineAt, upTo_nearestBelow]
    obtain ⟨after, hafter⟩ := upTo_prefix source.toList o
    have hposition := foldr_advance (upTo source.toList o).reverse
    rw [List.foldr_reverse, List.count_reverse] at hposition
    obtain ⟨hline, hstart⟩ := exists_line (upTo source.toList o) after
    rw [hafter] at hline hstart
    refine ⟨_, _, _, hposition, hline, ?_, ?_, ?_⟩
    · have hdrop : (upTo source.toList o ++ after).drop (upTo source.toList o).length = after := List.drop_left
      rw [hafter] at hdrop
      rw [lineAt, hdrop]
    · simp
    · rw [← List.length_reverse, List.take_left]
      exact hstart

/-- In front of a character of two bytes, and behind the newline that follows it. -/
theorem position_locates_accented :
    IsBoundary "aé\nü".toList 1 ∧ IsBoundary "aé\nü".toList 4 ∧
      (position "aé\nü" 1).Before (position "aé\nü" 4) ∧ position "aé\nü" 1 ≠ position "aé\nü" 4 := by
  have hfront : IsBoundary "aé\nü".toList 1 := ⟨['a'], ['é', '\n', 'ü'], by decide, by decide⟩
  have hbehind : IsBoundary "aé\nü".toList 4 := ⟨['a', 'é', '\n'], ['ü'], by decide, by decide⟩
  obtain ⟨hbefore, hinjective⟩ := (position_locates "aé\nü").1 1 4 hfront hbehind
  exact ⟨hfront, hbehind, hbefore (by decide), mt hinjective (by decide)⟩

end Stencil.Text
