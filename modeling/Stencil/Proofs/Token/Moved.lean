import Stencil.Proofs.Text.LineEnds
import Stencil.Proofs.Token.Longest

namespace Stencil

namespace Token

variable {c : Char} {cs ds gap tail : List Char} {kind : TokenKind} {o : Nat} {ts : List Token}

theorem symbolTail_cons (c d : Char) (cs : List Char) : symbolTail c (d :: cs) = symbolTail c [d] := by
  by_cases he : d = '='
  · subst he
    rfl
  by_cases hg : d = '>'
  · subst hg
    rfl
  · simp [symbolTail, he, hg]

theorem symbolTail_before_blank (hgap : StartsBlank gap) : symbolTail c (cs ++ gap) = symbolTail c cs := by
  cases cs with
  | nil =>
      have hnil : symbolTail c [] = [] := rfl
      have hblank := @symbolTail_append_blank c [] gap hgap
      rwa [hnil] at hblank
  | cons d cs => rw [List.cons_append, symbolTail_cons, symbolTail_cons c d cs]

theorem Reads.append_blank (h : Reads c cs kind tail) (hgap : StartsBlank gap) :
    Reads c (cs ++ gap) kind tail := by
  cases h with
  | single hs => exact .single hs
  | integer hd =>
      rw [← takeWhile_before_blank isDigit_eq_false_of_isSpace hgap]
      exact .integer hd
  | string hq hm =>
      have hrun : (cs ++ gap).takeWhile (· ≠ c) = cs.takeWhile (· ≠ c) :=
        takeWhile_append_of_ends fun hall => absurd (hall c hm) (by simp)
      rw [← hrun]
      exact .string hq (List.mem_append_left _ hm)
  | word hw =>
      rw [← takeWhile_before_blank isWordPart_eq_false_of_isSpace hgap]
      exact .word hw
  | symbol hs =>
      rw [← symbolTail_before_blank hgap]
      exact .symbol hs

theorem Longest.before_blank {text : List Char} (h : Spells kind text) (hgap : StartsBlank gap) :
    Longest kind text (text ++ gap) := by
  obtain ⟨c, tail, rfl⟩ := h.exists_cons
  obtain ⟨kind', tail', hr, hle, hkind⟩ := h.reads (List.prefix_refl tail)
  obtain rfl := hr.begins.eq_of_length_le hle
  obtain rfl := hkind rfl
  exact reads_iff_longest.1 (hr.append_blank hgap)

theorem Reads.drop_append (h : Reads c cs kind tail) (ds : List Char) :
    (cs ++ ds).drop tail.length = cs.drop tail.length ++ ds :=
  List.drop_append_of_le_length h.begins.length_le

theorem Alike.cons (kind : TokenKind) (text : String) (o o' : Nat) {us : List Token} (h : Alike ts us) :
    Alike (⟨kind, text, o⟩ :: ts) (⟨kind, text, o'⟩ :: us) :=
  congrArg (Token.mk kind text 0 :: ·) h

theorem length_drop_lt (c : Char) (cs : List Char) (n : Nat) : (cs.drop n).length < (c :: cs).length := by
  rw [List.length_drop, List.length_cons]
  omega

/-- The same tokens are found wherever the text stands, with blanks behind it. The induction is on the length of
the text. -/
theorem scan_append_gap (h : scan o cs = .ok ts) (hgap : ∀ x ∈ gap, isSpace x) (o' : Nat) :
    ∃ us, scan o' (cs ++ gap) = .ok us ∧ Alike ts us := by
  induction hn : cs.length using Nat.strongRecOn generalizing cs o o' ts with
  | ind n ih =>
      subst hn
      cases cs with
      | nil =>
          rw [scan_nil] at h
          obtain rfl := Except.ok.inj h
          have hempty := @scan_gap [] gap hgap o'
          rw [List.append_nil, scan_nil] at hempty
          exact ⟨[], hempty, rfl⟩
      | cons c cs =>
          by_cases hc : isSpace c
          · rw [scan_space o hc] at h
            rw [List.cons_append, scan_space o' hc]
            exact ih cs.length (Nat.lt_succ_self _) h _ rfl
          · obtain ⟨kind, tail, more, hr, hm, rfl⟩ := (scan_cons_ok_iff hc).1 h
            obtain ⟨us, hus, halike⟩ := ih _ (length_drop_lt c cs tail.length) hm _ rfl
            rw [← hr.drop_append] at hus
            have hgap : StartsBlank gap := fun x hx => hgap x (List.mem_of_mem_head? hx)
            exact ⟨_, (scan_cons_ok_iff hc).2 ⟨kind, tail, us, hr.append_blank hgap, hus, rfl⟩, halike.cons ..⟩

/-- The same tokens are found wherever the text stands, with blanks around it. -/
theorem scan_elsewhere {lead : List Char} (h : scan o cs = .ok ts) (hlead : ∀ x ∈ lead, isSpace x)
    (hgap : ∀ x ∈ gap, isSpace x) (o' : Nat) : ∃ us, scan o' (lead ++ (cs ++ gap)) = .ok us ∧ Alike ts us := by
  rw [scan_gap hlead]
  exact scan_append_gap h hgap _

def joined (t : Token) : Token :=
  if t.kind = .string then { t with text := Text.withUnixLines t.text } else t

theorem kind_joined {t : Token} : t.joined.kind = t.kind := by
  rw [joined]
  split <;> rfl

theorem text_joined {t : Token} (h : t.kind ≠ .string) : t.joined.text = t.text := by
  rw [joined, if_neg h]

theorem drop_length_takeWhile (p : Char → Bool) (cs : List Char) :
    cs.drop (cs.takeWhile p).length = cs.dropWhile p := by
  have h : (cs.takeWhile p ++ cs.dropWhile p).drop (cs.takeWhile p).length = cs.dropWhile p := List.drop_left
  rwa [List.takeWhile_append_dropWhile] at h

theorem drop_joinLineEnds {p : Char → Bool} (hp : ∀ x, isSpace x → p x = false) (cs : List Char) :
    (Text.joinLineEnds cs).drop (cs.takeWhile p).length =
      Text.joinLineEnds (cs.drop (cs.takeWhile p).length) := by
  rw [drop_length_takeWhile, ← Text.dropWhile_joinLineEnds (hp _ rfl) (hp _ rfl),
    ← Text.takeWhile_joinLineEnds (hp _ rfl) (hp _ rfl), drop_length_takeWhile]

theorem symbolTail_joinLineEnds (c : Char) (cs : List Char) :
    symbolTail c (Text.joinLineEnds cs) = symbolTail c cs ∧
      (Text.joinLineEnds cs).drop (symbolTail c cs).length =
        Text.joinLineEnds (cs.drop (symbolTail c cs).length) := by
  cases cs with
  | nil => exact ⟨rfl, rfl⟩
  | cons d cs =>
      by_cases hd : d = '\r' ∧ cs.head? = some '\n'
      · obtain ⟨rfl, hn⟩ := hd
        obtain ⟨cs, rfl⟩ := List.head?_eq_some_iff.1 hn
        exact ⟨rfl, rfl⟩
      · have hjoin := Text.joinLineEnds_cons hd
        constructor
        · rw [hjoin, symbolTail_cons, symbolTail_cons c d cs]
        · rcases symbolTail_cases c (d :: cs) with h | ⟨h, -⟩ | ⟨h, -⟩
          · rw [h]
            rfl
          · rw [h, hjoin]
            rfl
          · rw [h, hjoin]
            rfl

/-- A token is read from the joined text as from the other one, and the same is left. -/
theorem Reads.joined (h : Reads c cs kind tail) : ∃ tail', Reads c (Text.joinLineEnds cs) kind tail' ∧
    (Text.joinLineEnds cs).drop tail'.length = Text.joinLineEnds (cs.drop tail.length) ∧
      tail' = if kind = .string then Text.joinLineEnds tail else tail := by
  cases h with
  | single hs => exact ⟨[], .single hs, rfl, by split <;> rfl⟩
  | integer hd =>
      have hr : Reads c (Text.joinLineEnds cs) .integer _ := .integer hd
      rw [Text.takeWhile_joinLineEnds rfl rfl] at hr
      exact ⟨_, hr, drop_joinLineEnds isDigit_eq_false_of_isSpace cs, rfl⟩
  | string hq hm =>
      obtain ⟨body, rest, rfl, hbody⟩ := List.eq_append_cons_of_mem hm
      have hn : c ≠ '\n' := by rcases hq with rfl | rfl <;> decide
      have hc : c ≠ '\r' := by rcases hq with rfl | rfl <;> decide
      have hjoin (rest : List Char) :
          Text.joinLineEnds (body ++ c :: rest) = Text.joinLineEnds body ++ c :: Text.joinLineEnds rest := by
        rw [Text.joinLineEnds_append body (by simpa using hn), Text.joinLineEnds_cons fun h => hc h.1]
      have hr : Reads c (Text.joinLineEnds body ++ c :: Text.joinLineEnds rest) .string _ := .string hq (by simp)
      rw [takeWhile_ne_append (mt Text.mem_of_joinLineEnds hbody)] at hr
      refine ⟨_, hjoin rest ▸ hr, ?_, ?_⟩
      · rw [takeWhile_ne_append hbody, hjoin]
        simp
      · rw [takeWhile_ne_append hbody]
        exact (hjoin []).symm
  | word hw =>
      have hr : Reads c (Text.joinLineEnds cs) _ _ := .word hw
      rw [Text.takeWhile_joinLineEnds rfl rfl] at hr
      exact ⟨_, hr, drop_joinLineEnds isWordPart_eq_false_of_isSpace cs, (if_neg (wordKind_ne_string _)).symm⟩
  | symbol hs =>
      obtain ⟨htail, hdrop⟩ := symbolTail_joinLineEnds c cs
      refine ⟨_, .symbol hs, ?_, htail⟩
      rw [htail, hdrop]

theorem joinLineEnds_of_not_isSpace (hc : ¬isSpace c) (cs : List Char) :
    Text.joinLineEnds (c :: cs) = c :: Text.joinLineEnds cs :=
  Text.joinLineEnds_cons fun h => hc (h.1 ▸ rfl)

theorem joined_mk (hc : ¬isSpace c) (kind : TokenKind) (tail : List Char) (o : Nat) :
    joined ⟨kind, String.ofList (c :: tail), o⟩ =
      ⟨kind, String.ofList (c :: if kind = .string then Text.joinLineEnds tail else tail), o⟩ := by
  rw [joined]
  split
  next => rw [Text.withUnixLines, String.toList_ofList, joinLineEnds_of_not_isSpace hc]
  next => rfl

theorem scan_joinLineEnds_space (hc : isSpace c) (cs : List Char) (o : Nat) :
    ∃ o', scan o (Text.joinLineEnds (c :: cs)) = scan o' (Text.joinLineEnds cs) := by
  by_cases hd : c = '\r' ∧ cs.head? = some '\n'
  · obtain ⟨rfl, hn⟩ := hd
    obtain ⟨cs, rfl⟩ := List.head?_eq_some_iff.1 hn
    exact ⟨o, by rw [Text.joinLineEnds_newline]; rfl⟩
  · rw [Text.joinLineEnds_cons hd, scan_space o hc]
    exact ⟨_, rfl⟩

/-- The induction is on the length of the text. -/
theorem scan_joinLineEnds (h : scan o cs = .ok ts) (o' : Nat) :
    ∃ us, scan o' (Text.joinLineEnds cs) = .ok us ∧ Alike (ts.map joined) us := by
  induction hn : cs.length using Nat.strongRecOn generalizing cs o o' ts with
  | ind n ih =>
      subst hn
      cases cs with
      | nil =>
          rw [scan_nil] at h
          obtain rfl := Except.ok.inj h
          exact ⟨[], scan_nil o', rfl⟩
      | cons c cs =>
          by_cases hc : isSpace c
          · rw [scan_space o hc] at h
            obtain ⟨o'', ho⟩ := scan_joinLineEnds_space hc cs o'
            rw [ho]
            exact ih cs.length (Nat.lt_succ_self _) h _ rfl
          · obtain ⟨kind, tail, more, hr, hm, rfl⟩ := (scan_cons_ok_iff hc).1 h
            obtain ⟨tail', hr', hdrop, htail⟩ := hr.joined
            obtain ⟨us, hus, halike⟩ := ih _ (length_drop_lt c cs tail.length) hm _ rfl
            rw [← hdrop] at hus
            rw [joinLineEnds_of_not_isSpace hc]
            refine ⟨_, (scan_cons_ok_iff hc).2 ⟨kind, tail', us, hr', hus, rfl⟩, ?_⟩
            rw [List.map_cons, joined_mk hc, htail]
            exact halike.cons ..

end Token

end Stencil
