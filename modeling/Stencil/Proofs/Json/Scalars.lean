import Stencil.Json.Reader

namespace Stencil.Json

theorem shorter?_some {cs rest : List Char} {j : Json} (h : rest.length < cs.length) :
    shorter? cs (some (j, rest)) = some (j, ⟨rest, h⟩) := by
  rw [shorter?, dif_pos h]

theorem nextNot?_of_not {c : Char} (hc : isBlank c = false) (rest : List Char) :
    nextNot? isBlank (c :: rest) = some (c, ⟨rest, Nat.lt_succ_self rest.length⟩) := by
  rw [nextNot?, if_neg (ne_true_of_eq_false hc)]

theorem value_of_scalar {depth : Nat} {j : Json} {c : Char} {cs rest : List Char} (hc : isBlank c = false)
    (ha : c ≠ '[') (ho : c ≠ '\x7b') (h : scalar (c :: cs) = some (j, rest)) (hl : rest.length < (c :: cs).length) :
    value depth (c :: cs) = some (j, ⟨rest, hl⟩) := by
  rw [value, nextNot?_of_not hc]
  split
  next hs => exact absurd (Prod.mk.inj (Option.some.inj hs)).1 ha
  next hs => exact absurd (Prod.mk.inj (Option.some.inj hs)).1 ho
  next => rw [List.dropWhile_cons_of_neg (ne_true_of_eq_false hc), h, shorter?_some hl]

theorem chars_unit {a b c d : Char} {n : Nat} (hu : unit? a b c d = some n) (hn : n < 0xD800)
    (rest : List Char) :
    chars ('\\' :: 'u' :: a :: b :: c :: d :: rest) =
      (chars rest).map fun (s, r) => (Char.ofNat n :: s, r) := by
  have hl : isLeading n = false := by simp [isLeading]; omega
  have ht : isTrailing n = false := by simp [isTrailing]; omega
  rw [chars.eq_def]
  split
  next h => cases h
  next h => cases h
  -- Another escape follows, but the number is no first half of a pair that it could complete.
  next h =>
    cases h
    simp [hu, hl, ht]
  next h =>
    cases h
    simp [hu, hl, ht]
  next hno h =>
    cases h
    exact absurd rfl (hno a b c d rest rfl)
  next hno h =>
    cases h
    exact absurd rfl (hno 'u' (a :: b :: c :: d :: rest) rfl)

theorem chars_simple {c e : Char} (he : simpleEscape? c = some e) (rest : List Char) :
    chars ('\\' :: c :: rest) = (chars rest).map fun (s, r) => (e :: s, r) := by
  have hc : c ≠ 'u' := by
    rintro rfl
    cases he
  rw [chars.eq_def]
  split
  next h => cases h
  next h => cases h
  next h => exact absurd (List.cons.inj (List.cons.inj h).2).1 hc
  next h => exact absurd (List.cons.inj (List.cons.inj h).2).1 hc
  next h =>
    cases h
    rw [he]
  next hno h =>
    cases h
    exact absurd rfl (hno c rest rfl)

theorem chars_plain {c : Char} (hq : c ≠ '"') (hb : c ≠ '\\') (hc : ¬c.toNat < 0x20) (rest : List Char) :
    chars (c :: rest) = (chars rest).map fun (s, r) => (c :: s, r) := by
  rw [chars.eq_def]
  split
  next h => cases h
  next h => exact absurd (List.cons.inj h).1 hq
  next h => exact absurd (List.cons.inj h).1 hb
  next h => exact absurd (List.cons.inj h).1 hb
  next h => exact absurd (List.cons.inj h).1 hb
  next h =>
    cases h
    rw [if_neg hc]

theorem unit?_control {n : Nat} (h : n < 32) :
    ∃ a b, unit? '0' '0' a b = some n ∧
      (if n < 0x10 then "\\u000" ++ Text.hexText n else "\\u00" ++ Text.hexText n).toList =
        ['\\', 'u', '0', '0', a, b] := by
  have hall : ∀ n : Fin 32, unit? '0' '0' (if n.1 < 16 then '0' else '1') (Nat.digitChar (n.1 % 16)) = some n.1 ∧
      (if n.1 < 0x10 then "\\u000" ++ Text.hexText n else "\\u00" ++ Text.hexText n).toList =
        ['\\', 'u', '0', '0', if n.1 < 16 then '0' else '1', Nat.digitChar (n.1 % 16)] := by decide
  exact ⟨_, _, hall ⟨n, h⟩⟩

theorem chars_escape (c : Char) (rest : List Char) :
    chars ((escape c).toList ++ rest) = (chars rest).map fun (s, r) => (c :: s, r) := by
  unfold escape
  split
  · exact chars_simple rfl rest
  · exact chars_simple rfl rest
  · exact chars_simple rfl rest
  · exact chars_simple rfl rest
  · exact chars_simple rfl rest
  · exact chars_simple rfl rest
  · exact chars_simple rfl rest
  next hq hb _ _ _ _ _ =>
    by_cases hc : c.toNat < 32
    · obtain ⟨a, b, hu, hw⟩ := unit?_control hc
      rw [if_pos hc, hw]
      have h := chars_unit hu (by omega) rest
      rw [Char.ofNat_toNat] at h
      exact h
    · rw [if_neg (by omega), if_neg hc, Char.toString, String.toList_singleton]
      exact chars_plain hq hb hc rest

def escaped (cs : List Char) : List Char :=
  cs.flatMap fun c => (escape c).toList

theorem chars_escaped (cs rest : List Char) : chars (escaped cs ++ '"' :: rest) = some (cs, rest) := by
  induction cs with
  | nil => rw [escaped, List.flatMap_nil, List.nil_append, chars]
  | cons c cs ih =>
      rw [escaped] at ih ⊢
      rw [List.flatMap_cons, List.append_assoc, chars_escape, ih, Option.map_some]

def Whole (n : Int) : Prop :=
  -0x8000000000000000 ≤ n ∧ n ≤ maxDigits

theorem stringText_toList (s : String) :
    (stringText s).toList = '"' :: (escaped s.toList ++ ['"']) := by
  simp [stringText, escaped, List.flatMap_map]

def Ends (rest : List Char) : Prop :=
  ∀ c ∈ rest.head?, ¬c.isDigit ∧ c ≠ '.' ∧ c ≠ 'e' ∧ c ≠ 'E'

def digitsAfter (n : Nat) (ds : List Char) : Nat :=
  ds.foldl (fun n c => 10 * n + digitValue c) n

theorem le_digitsAfter (n : Nat) (ds : List Char) : n ≤ digitsAfter n ds := by
  induction ds generalizing n with
  | nil => exact Nat.le_refl n
  | cons c ds ih => exact Nat.le_trans (by omega) (ih (10 * n + digitValue c))

theorem foldl_addWhole {ds : List Char} {n : Nat} (h : digitsAfter n ds ≤ maxDigits) :
    ds.foldl Parts.addWhole ⟨n, 0⟩ = ⟨digitsAfter n ds, 0⟩ := by
  induction ds generalizing n with
  | nil => rfl
  | cons c ds ih =>
      have hle : 10 * n + digitValue c ≤ maxDigits := Nat.le_trans (le_digitsAfter _ ds) h
      rw [List.foldl_cons, Parts.addWhole]
      dsimp only
      rw [if_pos ⟨rfl, hle⟩]
      exact ih h

theorem exists_toDigits (n : Nat) : ∃ c cs, Nat.toDigits 10 n = c :: cs ∧ c.isDigit := by
  cases hw : Nat.toDigits 10 n with
  | nil => exact absurd hw Nat.toDigits_ne_nil
  | cons c cs =>
      have hc : c ∈ Nat.toDigits 10 n := hw ▸ List.mem_cons_self
      exact ⟨c, cs, rfl, Nat.isDigit_of_mem_toDigits (by decide) (by decide) hc⟩

theorem head?_toDigits {n : Nat} (h : n ≠ 0) : (Nat.toDigits 10 n).head? ≠ some '0' := by
  induction n using Nat.strongRecOn with
  | ind n ih =>
    rw [Nat.toDigits_eq_if (by decide)]
    split
    next hlt =>
      have hall : ∀ n : Fin 10, n.1 ≠ 0 → [Nat.digitChar n.1].head? ≠ some '0' := by decide
      exact hall ⟨n, hlt⟩ h
    next hge =>
      have hd := ih (n / 10) (by omega) (by omega)
      obtain ⟨c, cs, hw, -⟩ := exists_toDigits (n / 10)
      rwa [hw] at hd ⊢

theorem takeWhile_digits {ds rest : List Char} (hd : ∀ c ∈ ds, c.isDigit) (hr : Ends rest) :
    (ds ++ rest).takeWhile Char.isDigit = ds := by
  rw [List.takeWhile_append_of_pos hd]
  cases rest with
  | nil => simp
  | cons c rest => rw [List.takeWhile_cons_of_neg (hr c rfl).1, List.append_nil]

theorem unsignedNumber_digits (negative : Bool) {n : Nat} (hn : n ≤ maxDigits) {rest : List Char}
    (hr : Ends rest) :
    unsignedNumber negative ((Nat.repr n).toList ++ rest) = some (wholeNumber negative n, rest) := by
  have hd : ∀ c ∈ Nat.toDigits 10 n, c.isDigit := fun c => Nat.isDigit_of_mem_toDigits (by decide) (by decide)
  have hzero : ¬((Nat.toDigits 10 n).isEmpty ∨
      (Nat.toDigits 10 n).head? = some '0' ∧ 1 < (Nat.toDigits 10 n).length) := by
    rintro (he | ⟨h0, hl⟩)
    · exact Nat.toDigits_ne_nil (List.isEmpty_iff.1 he)
    · by_cases hn : n = 0
      · rw [hn, Nat.toDigits_zero] at hl
        exact absurd hl (by decide)
      · exact head?_toDigits hn h0
  have hsum : digitsAfter 0 (Nat.toDigits 10 n) = n := Nat.ofDigitChars_ten_toDigits
  unfold unsignedNumber
  dsimp only
  rw [Nat.toList_repr, takeWhile_digits hd hr, if_neg hzero, List.drop_left,
    foldl_addWhole (hsum.symm ▸ hn), hsum]
  split
  next => exact absurd rfl (hr _ rfl).2.1
  next => exact absurd rfl (hr _ rfl).2.2.1
  next => exact absurd rfl (hr _ rfl).2.2.2
  next => rfl

theorem number_digits (n : Nat) (rest : List Char) :
    number ((Nat.repr n).toList ++ rest) = unsignedNumber false ((Nat.repr n).toList ++ rest) := by
  unfold number
  split
  next r hm =>
    obtain ⟨c, cs, hw, hc⟩ := exists_toDigits n
    rw [Nat.toList_repr, hw] at hm
    rw [(List.cons.inj hm).1] at hc
    cases hc
  next => rfl

theorem number_intText {n : Int} (hn : Whole n) {rest : List Char} (hr : Ends rest) :
    number ((intText n).toList ++ rest) = some (.int n, rest) := by
  obtain ⟨hlow, hhigh⟩ := hn
  cases n with
  | ofNat k =>
      rw [intText, number_digits, unsignedNumber_digits false (Int.ofNat_le.1 hhigh) hr]
      rfl
  | negSucc k =>
      have hk : k + 1 ≤ 0x8000000000000000 := by omega
      have hread := unsignedNumber_digits true (Nat.le_trans hk (by decide)) hr
      rw [wholeNumber, if_pos rfl, if_neg (by omega)] at hread
      rw [intText, String.toList_append]
      exact hread

theorem takeWhile_isDigit_append {rest : List Char} (hr : Ends rest) (cs : List Char) :
    (cs ++ rest).takeWhile Char.isDigit = cs.takeWhile Char.isDigit := by
  induction cs with
  | nil => exact @takeWhile_digits [] rest (fun _ h => absurd h List.not_mem_nil) hr
  | cons c cs ih =>
      rw [List.cons_append, List.takeWhile_cons, List.takeWhile_cons, ih]

theorem drop_takeWhile_append (p : Char → Bool) (cs rest : List Char) :
    (cs ++ rest).drop (cs.takeWhile p).length = cs.drop (cs.takeWhile p).length ++ rest :=
  List.drop_append_of_le_length (List.takeWhile_prefix p).length_le

theorem digits_append {α : Type} (f : List Char → α) {cs rest : List Char} {a : α}
    (h : (if (cs.takeWhile Char.isDigit).isEmpty then none
      else some (f (cs.takeWhile Char.isDigit), cs.drop (cs.takeWhile Char.isDigit).length)) = some (a, []))
    (hr : Ends rest) :
    (if ((cs ++ rest).takeWhile Char.isDigit).isEmpty then none
      else some (f ((cs ++ rest).takeWhile Char.isDigit),
        (cs ++ rest).drop ((cs ++ rest).takeWhile Char.isDigit).length)) = some (a, rest) := by
  rw [takeWhile_isDigit_append hr, drop_takeWhile_append]
  split at h
  · cases h
  next hne =>
    obtain ⟨ha, hd⟩ := Prod.mk.inj (Option.some.inj h)
    rw [if_neg hne, hd, ha, List.nil_append]

theorem exponentPart_append {cs rest : List Char} {e : Int} (h : exponentPart cs = some (e, [])) (hr : Ends rest) :
    exponentPart (cs ++ rest) = some (e, rest) := by
  let value (negative : Bool) (ds : List Char) : Int := if negative then -(ofDigits ds : Int) else ofDigits ds
  cases cs with
  | nil => cases h
  | cons c tail =>
      by_cases hp : c = '+'
      · subst hp
        exact digits_append (value false) h hr
      by_cases hm : c = '-'
      · subst hm
        exact digits_append (value true) h hr
      have hplus (cs r : List Char) : c :: cs = '+' :: r → False := fun he => hp (List.cons.inj he).1
      have hminus (cs r : List Char) : c :: cs = '-' :: r → False := fun he => hm (List.cons.inj he).1
      rw [exponentPart.eq_3 _ (hplus _) (hminus _)] at h
      rw [List.cons_append, exponentPart.eq_3 _ (hplus _) (hminus _), ← List.cons_append]
      exact digits_append (value false) h hr

theorem withExponent_plain {negative : Bool} {p : Parts} {cs : List Char}
    (h : ∀ c ∈ cs.head?, c ≠ 'e' ∧ c ≠ 'E') :
    withExponent negative p cs = p.toFloat?.map fun x => (signed negative x, cs) := by
  have hhead (c : Char) (r : List Char) (hc : c = 'e' ∨ c = 'E') : cs = c :: r → False := by
    rintro rfl
    obtain ⟨he, hE⟩ := h c rfl
    rcases hc with hc | hc
    · exact he hc
    · exact hE hc
  rw [withExponent.eq_3 _ _ _ (fun r => hhead 'e' r (.inl rfl)) (fun r => hhead 'E' r (.inr rfl))]
  simp only [Option.bind_eq_bind, Option.bind_some]
  cases p.toFloat? <;> rfl

theorem withExponent_marked {negative : Bool} {p : Parts} {c : Char} (hc : c = 'e' ∨ c = 'E') (cs : List Char) :
    withExponent negative p (c :: cs) = (exponentPart cs).bind fun (e, rest) =>
      (Parts.toFloat? { p with exponent := p.exponent + e }).map fun x => (signed negative x, rest) := by
  have hmark : withExponent negative p (c :: cs) = withExponent negative p ('e' :: cs) := by
    rcases hc with rfl | rfl <;> rfl
  rw [hmark, withExponent]
  cases exponentPart cs with
  | none => rfl
  | some parts =>
      simp only [Option.map_some, Option.bind_eq_bind, Option.bind_some]
      cases (Parts.toFloat? { p with exponent := p.exponent + parts.1 }) <;> rfl

theorem withExponent_append {negative : Bool} {p : Parts} {cs rest : List Char} {j : Json}
    (h : withExponent negative p cs = some (j, [])) (hr : Ends rest) :
    withExponent negative p (cs ++ rest) = some (j, rest) := by
  have hplain {cs : List Char} (hc : ∀ c ∈ cs.head?, c ≠ 'e' ∧ c ≠ 'E')
      (h : withExponent negative p cs = some (j, [])) : withExponent negative p (cs ++ rest) = some (j, rest) := by
    rw [withExponent_plain hc] at h
    obtain ⟨x, hx, he⟩ := Option.map_eq_some_iff.1 h
    obtain ⟨rfl, rfl⟩ := Prod.mk.inj he
    rw [List.nil_append, withExponent_plain fun c hc => (hr c hc).2.2, hx, Option.map_some]
  cases cs with
  | nil => exact hplain nofun h
  | cons c cs =>
      by_cases hc : c = 'e' ∨ c = 'E'
      · rw [withExponent_marked hc] at h
        obtain ⟨⟨e, r⟩, he, hx⟩ := Option.bind_eq_some_iff.1 h
        obtain ⟨x, hfloat, heq⟩ := Option.map_eq_some_iff.1 hx
        obtain ⟨rfl, rfl⟩ := Prod.mk.inj heq
        rw [List.cons_append, withExponent_marked hc, exponentPart_append he hr, Option.bind_some]
        dsimp only
        rw [hfloat, Option.map_some]
      · refine hplain (fun d hd => ?_) h
        obtain rfl := Option.some.inj hd
        exact not_or.1 hc

theorem unsignedNumber_append {negative : Bool} {cs rest : List Char} {j : Json}
    (h : unsignedNumber negative cs = some (j, [])) (hr : Ends rest) :
    unsignedNumber negative (cs ++ rest) = some (j, rest) := by
  unfold unsignedNumber at h ⊢
  dsimp only at h ⊢
  rw [takeWhile_isDigit_append hr, drop_takeWhile_append]
  split at h
  · cases h
  next hbad =>
  rw [if_neg hbad]
  generalize (cs.takeWhile Char.isDigit).foldl Parts.addWhole ⟨0, 0⟩ = p at h ⊢
  split at h
  next r hbehind =>
    rw [hbehind, List.cons_append]
    show (if ((r ++ rest).takeWhile Char.isDigit).isEmpty then none else _) = some (j, rest)
    rw [takeWhile_isDigit_append hr, drop_takeWhile_append]
    split at h
    · cases h
    next hne => rw [if_neg hne, withExponent_append h hr]
  next r hbehind =>
    rw [hbehind] at h ⊢
    exact withExponent_append h hr
  next r hbehind =>
    rw [hbehind] at h ⊢
    exact withExponent_append h hr
  next hdot he hE =>
    generalize cs.drop (cs.takeWhile Char.isDigit).length = behind at h hdot he hE ⊢
    have hnil : behind = [] := by
      split at h
      · exact (Prod.mk.inj (Option.some.inj h)).2
      · rw [withExponent_plain] at h
        · obtain ⟨x, -, heq⟩ := Option.map_eq_some_iff.1 h
          exact (Prod.mk.inj heq).2
        · intro c hc
          cases behind with
          | nil => cases hc
          | cons d r =>
            obtain rfl := Option.some.inj hc
            exact ⟨fun h => he r (h ▸ rfl), fun h => hE r (h ▸ rfl)⟩
    subst hnil
    rw [List.nil_append]
    split
    next => exact absurd rfl (hr _ rfl).2.1
    next => exact absurd rfl (hr _ rfl).2.2.1
    next => exact absurd rfl (hr _ rfl).2.2.2
    next =>
      split at h
      next hz =>
        rw [if_pos hz, (Prod.mk.inj (Option.some.inj h)).1]
      next hz =>
        rw [if_neg hz]
        exact withExponent_append h hr

theorem number_append {cs rest : List Char} {j : Json} (h : number cs = some (j, [])) (hr : Ends rest) :
    number (cs ++ rest) = some (j, rest) := by
  unfold number at h
  split at h
  next r => exact unsignedNumber_append h hr
  next hsign =>
    have hread := unsignedNumber_append h hr
    rw [number.eq_2]
    · exact hread
    · intro r he
      cases cs with
      | nil => cases h
      | cons c cs => exact hsign cs (by rw [(List.cons.inj he).1])

theorem starts_number {cs : List Char} {j : Json} (h : number cs = some (j, [])) :
    ∃ c tail, cs = c :: tail ∧ (c = '-' ∨ c.isDigit) := by
  cases cs with
  | nil => cases h
  | cons c tail =>
      refine ⟨c, tail, rfl, ?_⟩
      by_cases hc : c.isDigit
      · exact .inr hc
      · unfold number at h
        split at h
        next r he => exact .inl (List.cons.inj he).1
        next =>
          unfold unsignedNumber at h
          dsimp only at h
          rw [List.takeWhile_cons_of_neg hc, if_pos (.inl rfl)] at h
          cases h

theorem starts_intText (n : Int) : ∃ c tail, (intText n).toList = c :: tail ∧ (c = '-' ∨ c.isDigit) := by
  cases n with
  | ofNat k =>
      obtain ⟨c, cs, hw, hc⟩ := exists_toDigits k
      exact ⟨c, cs, by rw [intText, Nat.toList_repr, hw], .inr hc⟩
  | negSucc k => exact ⟨'-', (Nat.repr (k + 1)).toList, by simp [intText], .inl rfl⟩

end Stencil.Json
