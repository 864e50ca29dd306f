import Stencil.Text.Basic

namespace Stencil.Text

variable {a b c : Char} {cs ds : List Char} {p : Char → Bool}

@[simp]
theorem joinLineEnds_nil : joinLineEnds [] = [] := rfl

@[simp]
theorem joinLineEnds_lineEnd (cs : List Char) : joinLineEnds ('\r' :: '\n' :: cs) = '\n' :: joinLineEnds cs := rfl

theorem joinLineEnds_cons (h : ¬(c = '\r' ∧ cs.head? = some '\n')) :
    joinLineEnds (c :: cs) = c :: joinLineEnds cs := by
  rw [joinLineEnds]
  rintro cs' rfl rfl
  exact h ⟨rfl, rfl⟩

/-- A text begins with a line end of two characters, or with a character of which none is dropped. -/
@[elab_as_elim]
theorem lineEnds_induction {motive : List Char → Prop} (nil : motive [])
    (lineEnd : ∀ cs, motive cs → motive ('\r' :: '\n' :: cs))
    (cons : ∀ c cs, ¬(c = '\r' ∧ cs.head? = some '\n') → motive cs → motive (c :: cs)) (cs : List Char) : motive cs := by
  fun_induction joinLineEnds cs with
  | case1 cs ih => exact lineEnd cs ih
  | case2 c cs hc ih =>
      refine cons c cs ?_ ih
      rintro ⟨rfl, hn⟩
      obtain ⟨rest, rfl⟩ := List.head?_eq_some_iff.1 hn
      exact hc rest rfl rfl
  | case3 => exact nil

theorem not_startsLineEnd (h : ¬(c = '\r' ∧ cs.head? = some '\n')) : ¬['\r', '\n'] <+: c :: cs := by
  rintro ⟨rest, hrest⟩
  obtain ⟨rfl, rfl⟩ := List.cons.inj hrest
  exact h ⟨rfl, rfl⟩

@[simp]
theorem joinLineEnds_newline (cs : List Char) : joinLineEnds ('\n' :: cs) = '\n' :: joinLineEnds cs :=
  joinLineEnds_cons (by simp)

theorem joinLineEnds_append_of_not_mem (h : '\r' ∉ cs) (ds : List Char) :
    joinLineEnds (cs ++ ds) = cs ++ joinLineEnds ds := by
  induction cs with
  | nil => rfl
  | cons c cs ih =>
      obtain ⟨hc, hcs⟩ := List.ne_and_not_mem_of_not_mem_cons h
      rw [List.cons_append, joinLineEnds_cons (fun hm => hc hm.1.symm), ih hcs]
      rfl

theorem joinLineEnds_of_not_mem (h : '\r' ∉ cs) : joinLineEnds cs = cs := by
  have happend := joinLineEnds_append_of_not_mem h []
  rwa [List.append_nil, joinLineEnds, List.append_nil] at happend

/-- No line end is torn apart. -/
theorem joinLineEnds_append (cs : List Char) (h : ds.head? ≠ some '\n') :
    joinLineEnds (cs ++ ds) = joinLineEnds cs ++ joinLineEnds ds := by
  induction cs using lineEnds_induction with
  | nil => rfl
  | lineEnd cs ih => simp [ih]
  | cons c cs hc ih =>
      have hc' : ¬(c = '\r' ∧ (cs ++ ds).head? = some '\n') := by
        cases cs with
        | nil => exact fun hn => h hn.2
        | cons d cs => exact hc
      rw [List.cons_append, joinLineEnds_cons hc', joinLineEnds_cons hc, ih, List.cons_append]

theorem joinLineEnds_between {front back : List Char} (hf : '\r' ∉ front) (hb : '\r' ∉ back)
    (hn : back.head? ≠ some '\n') (cs : List Char) :
    joinLineEnds (front ++ (cs ++ back)) = front ++ (joinLineEnds cs ++ back) := by
  rw [joinLineEnds_append_of_not_mem hf, joinLineEnds_append cs hn, joinLineEnds_of_not_mem hb]

theorem of_joinLineEnds_cons (h : joinLineEnds cs = c :: ds) (hc : c ≠ '\n') :
    ∃ cs', cs = c :: cs' ∧ joinLineEnds cs' = ds := by
  cases cs with
  | nil => cases h
  | cons d cs =>
      by_cases hd : d = '\r' ∧ cs.head? = some '\n'
      · obtain ⟨rfl, hn⟩ := hd
        obtain ⟨cs, rfl⟩ := List.head?_eq_some_iff.1 hn
        cases h
        exact absurd rfl hc
      · rw [joinLineEnds_cons hd] at h
        obtain ⟨rfl, rfl⟩ := List.cons.inj h
        exact ⟨cs, rfl, rfl⟩

theorem mem_of_joinLineEnds (h : c ∈ joinLineEnds cs) : c ∈ cs := by
  induction cs using lineEnds_induction with
  | nil => exact h
  | lineEnd cs ih =>
      rcases List.mem_cons.1 h with rfl | h
      · simp
      · simp [ih h]
  | cons d cs hd ih =>
      rw [joinLineEnds_cons hd] at h
      rcases List.mem_cons.1 h with rfl | h
      · simp
      · simp [ih h]

/-- No two characters become neighbours, unless the second is a newline. -/
theorem infix_of_joinLineEnds (hb : b ≠ '\n') (h : [a, b] <:+: joinLineEnds cs) : [a, b] <:+: cs := by
  induction cs using lineEnds_induction with
  | nil => exact h
  | lineEnd cs ih =>
      refine (List.infix_cons_iff.1 h).elim (fun hp => ?_) fun h => ?_
      · obtain ⟨rfl, ds, hds⟩ := List.cons_prefix_cons.1 hp
        obtain ⟨cs, rfl, -⟩ := of_joinLineEnds_cons hds.symm hb
        exact ⟨['\r'], cs, rfl⟩
      · exact List.infix_cons (List.infix_cons (ih h))
  | cons c cs hc ih =>
      rw [joinLineEnds_cons hc] at h
      refine (List.infix_cons_iff.1 h).elim (fun hp => ?_) fun h => List.infix_cons (ih h)
      obtain ⟨rfl, ds, hds⟩ := List.cons_prefix_cons.1 hp
      obtain ⟨cs, rfl, -⟩ := of_joinLineEnds_cons hds.symm hb
      exact ⟨[], cs, rfl⟩

section

variable (hr : p '\r' = false) (hn : p '\n' = false)
include hr hn

/-- A run of characters that are no line ends stays as it is. -/
theorem takeWhile_joinLineEnds (cs : List Char) : (joinLineEnds cs).takeWhile p = cs.takeWhile p := by
  induction cs using lineEnds_induction with
  | nil => rfl
  | lineEnd cs => simp [hr, hn]
  | cons c cs hc ih => rw [joinLineEnds_cons hc, List.takeWhile_cons, List.takeWhile_cons, ih]

theorem dropWhile_joinLineEnds (cs : List Char) : (joinLineEnds cs).dropWhile p = joinLineEnds (cs.dropWhile p) := by
  induction cs using lineEnds_induction with
  | nil => rfl
  | lineEnd cs => simp [hr, hn]
  | cons c cs hc ih => by_cases hp : p c <;> simp [joinLineEnds_cons hc, hp, ih]

end

/-- Blanks at the front go with the line ends among them. -/
theorem dropWhile_joinLineEnds_of_blank (hr : p '\r') (hn : p '\n') (cs : List Char) :
    (joinLineEnds cs).dropWhile p = joinLineEnds (cs.dropWhile p) := by
  induction cs using lineEnds_induction with
  | nil => rfl
  | lineEnd cs ih => simp [hr, hn, ih]
  | cons c cs hc ih => by_cases hp : p c <;> simp [joinLineEnds_cons hc, hp, ih]

theorem joinLineEnds_eq_nil_iff : joinLineEnds cs = [] ↔ cs = [] := by
  induction cs using lineEnds_induction with
  | nil | lineEnd => simp
  | cons c cs hc => simp [joinLineEnds_cons hc]

theorem head?_joinLineEnds_iff : (joinLineEnds cs).head? = some '\n' ↔
    cs.head? = some '\n' ∨ ['\r', '\n'] <+: cs := by
  induction cs using lineEnds_induction with
  | nil | lineEnd => simp
  | cons c cs hc => simp [joinLineEnds_cons hc, not_startsLineEnd hc]

/-- A line end is left where one stood behind another carriage return. -/
theorem infix_joinLineEnds_iff : ['\r', '\n'] <:+: joinLineEnds cs ↔ ['\r', '\r', '\n'] <:+: cs := by
  induction cs using lineEnds_induction with
  | nil => simp
  | lineEnd cs ih => simp [List.infix_cons_iff, ih]
  | cons c cs hc ih =>
      have hpair : ['\r', '\n'] <+: c :: joinLineEnds cs ↔ ['\r', '\r', '\n'] <+: c :: cs := by
        rw [List.cons_prefix_cons, List.cons_prefix_cons]
        refine and_congr_right fun hr => ?_
        have hhead : ['\n'] <+: joinLineEnds cs ↔ (joinLineEnds cs).head? = some '\n' := by
          cases joinLineEnds cs <;> simp [eq_comm]
        rw [hhead, head?_joinLineEnds_iff]
        exact or_iff_right fun hn => hc ⟨hr.symm, hn⟩
      rw [joinLineEnds_cons hc, List.infix_cons_iff, List.infix_cons_iff, ih, hpair]

/-- Only texts without line ends to join stay as they are. -/
theorem joinLineEnds_eq_self_iff : joinLineEnds cs = cs ↔ ¬['\r', '\n'] <:+: cs := by
  induction cs using lineEnds_induction with
  | nil => simp
  | lineEnd cs =>
      have hshort : '\n' :: joinLineEnds cs ≠ '\r' :: '\n' :: cs := by simp
      exact iff_of_false hshort fun h => h ⟨[], cs, rfl⟩
  | cons c cs hc ih =>
      rw [joinLineEnds_cons hc, List.cons_inj_right, ih, List.infix_cons_iff, or_iff_right (not_startsLineEnd hc)]

end Stencil.Text
