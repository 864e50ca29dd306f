import Stencil.Proofs.Token.Balanced

namespace Stencil.Token

def weight (t : Token) : Int :=
  match t.kind with
  | .leftBracket => 1
  | .rightBracket => -1
  | _ => 0

def depth : List Token → Int
  | [] => 0
  | t :: ts => t.weight + depth ts

/-- With so many brackets open before, none is closed that was not opened. -/
def Stays (d : Int) (ts : List Token) : Prop :=
  ∀ front, front <+: ts → 0 ≤ d + depth front

/-- No bracket is closed while the count of open ones is zero, so that the count is never cut off. -/
def CountsAll (ts : List Token) : Prop :=
  ∀ front t back, ts = front ++ t :: back → t.kind = .rightBracket → 0 < front.foldl depthAfter 0

/-- The commas outside brackets, so many of which are open before. -/
def commas : Int → List Token → List Token
  | _, [] => []
  | d, t :: ts => if d = 0 ∧ t.kind = .comma then t :: commas (d + t.weight) ts else commas (d + t.weight) ts

def rejoin : List (List Token) → List Token → List Token
  | [], _ => []
  | piece :: _, [] => piece
  | piece :: pieces, separator :: separators => piece ++ separator :: rejoin pieces separators

variable {t close : Token} {ts us inner rest : List Token} {d : Int}

@[simp]
theorem weight_opening (h : t.kind = .leftBracket) : t.weight = 1 := by
  simp only [weight, h]

@[simp]
theorem weight_closing (h : t.kind = .rightBracket) : t.weight = -1 := by
  simp only [weight, h]

@[simp]
theorem weight_plain (hl : t.kind ≠ .leftBracket) (hr : t.kind ≠ .rightBracket) : t.weight = 0 := by
  rw [weight]
  split
  next h => exact absurd h hl
  next h => exact absurd h hr
  next => rfl

@[simp] theorem depth_nil : depth [] = 0 := rfl

@[simp] theorem depth_cons (t : Token) (ts : List Token) : depth (t :: ts) = t.weight + depth ts := rfl

@[simp] theorem depth_append (ts us : List Token) : depth (ts ++ us) = depth ts + depth us := by
  induction ts with
  | nil => exact (Int.zero_add _).symm
  | cons t ts ih => simp [ih, Int.add_assoc]

@[simp]
theorem stays_nil : Stays d [] ↔ 0 ≤ d := by
  simp [Stays, List.prefix_nil]

@[simp]
theorem stays_cons : Stays d (t :: ts) ↔ 0 ≤ d ∧ Stays (d + t.weight) ts := by
  constructor
  · intro h
    refine ⟨?_, fun front hf => ?_⟩
    · simpa using h [] (List.nil_prefix)
    · have hcons := h (t :: front) (List.cons_prefix_cons.2 ⟨rfl, hf⟩)
      rw [depth_cons] at hcons
      omega
  · rintro ⟨hd, h⟩ front hf
    cases front with
    | nil => simpa using hd
    | cons u front =>
        obtain ⟨rfl, hf'⟩ := List.cons_prefix_cons.1 hf
        have hrest := h front hf'
        rw [depth_cons]
        omega

@[simp]
theorem stays_append : Stays d (ts ++ us) ↔ Stays d ts ∧ Stays (d + depth ts) us := by
  induction ts generalizing d with
  | nil =>
      rw [List.nil_append, stays_nil, depth_nil, Int.add_zero]
      exact ⟨fun h => ⟨by simpa using h [] List.nil_prefix, h⟩, fun h => h.2⟩
  | cons t ts ih => simp [ih, Int.add_assoc, and_assoc]

theorem Stays.le (h : Stays d ts) : 0 ≤ d + depth ts :=
  h ts (List.prefix_refl ts)

def TakesClosing (n : Nat) (ts : List Token) : Prop :=
  (∀ inner close rest, takeBracketed n ts = some (inner, close, rest) → Stays n inner ∧ n + depth inner = 0) ∧
    (takeBracketed n ts = none → Stays n ts)

/-- A token in front, if the rest is read with the count that its weight leads to. -/
theorem TakesClosing.cons {n m : Nat} (hm : (m : Int) = n + t.weight)
    (he : takeBracketed n (t :: ts) =
      (takeBracketed m ts).map fun (inner, close, rest) => (t :: inner, close, rest))
    (h : TakesClosing m ts) : TakesClosing n (t :: ts) := by
  obtain ⟨hsome, hnone⟩ := h
  rw [TakesClosing, he]
  refine ⟨fun inner close rest h => ?_, fun h => ?_⟩
  · obtain ⟨⟨i, c, r⟩, hi, he⟩ := Option.map_eq_some_iff.1 h
    cases he
    obtain ⟨hstays, hdepth⟩ := hsome _ _ _ hi
    rw [hm] at hstays hdepth
    refine ⟨stays_cons.2 ⟨Int.natCast_nonneg n, hstays⟩, ?_⟩
    rw [depth_cons]
    omega
  · have hstays := hnone (Option.map_eq_none_iff.1 h)
    rw [hm] at hstays
    exact stays_cons.2 ⟨Int.natCast_nonneg n, hstays⟩

/-- A closing bracket is taken as the partner of the one before the tokens when all that were opened since are
closed. There is no partner if the tokens never close more than they open. -/
theorem takesClosing (n : Nat) (ts : List Token) : TakesClosing n ts := by
  induction ts generalizing n with
  | nil => exact ⟨nofun, fun _ => stays_nil.2 (Int.natCast_nonneg n)⟩
  | cons t ts ih =>
      by_cases hl : t.kind = .leftBracket
      · exact (ih (n + 1)).cons (by rw [weight_opening hl, Int.natCast_succ]) (takeBracketed_opening n hl)
      by_cases hr : t.kind = .rightBracket
      · cases n with
        | zero =>
            rw [TakesClosing, takeBracketed_last hr]
            refine ⟨fun inner close rest h => ?_, fun h => ?_⟩
            · cases h
              exact ⟨stays_nil.2 (Int.le_refl 0), rfl⟩
            · cases h
        | succ n =>
            refine (ih n).cons ?_ (takeBracketed_closing n hr)
            rw [weight_closing hr]
            omega
      · exact (ih n).cons (by rw [weight_plain hl hr, Int.add_zero]) (takeBracketed_plain n hl hr)

theorem Balanced.depth_eq (h : Balanced ts) : depth ts = 0 := by
  induction h with
  | nil => rfl
  | cons hl hr _ ih => simp [hl, hr, ih]
  | group ho hc _ _ ih_inner ih =>
      simp [ho, hc, ih_inner, ih]

theorem Balanced.stays (h : Balanced ts) : ∀ d : Int, 0 ≤ d → Stays d ts := by
  induction h with
  | nil => exact fun d hd => stays_nil.2 hd
  | cons hl hr _ ih =>
      intro d hd
      rw [stays_cons, weight_plain hl hr, Int.add_zero]
      exact ⟨hd, ih d hd⟩
  | group ho hc hi _ ih_inner ih =>
      intro d hd
      rw [stays_cons, stays_append, stays_cons, hi.depth_eq, weight_opening ho, weight_closing hc, Int.add_zero,
        Int.add_neg_cancel_right]
      exact ⟨hd, ih_inner _ (by omega), by omega, ih d hd⟩

theorem balanced_of_depth (ts : List Token) (hd : depth ts = 0) (hs : Stays 0 ts) : Balanced ts := by
  match ts with
  | [] => exact .nil
  | t :: ts =>
      rw [depth_cons] at hd
      obtain ⟨-, hs⟩ := stays_cons.1 hs
      by_cases hl : t.kind = .leftBracket
      · rw [weight_opening hl] at hd hs
        obtain ⟨hsome, hnone⟩ := takesClosing 0 ts
        cases hb : takeBracketed 0 ts with
        | none =>
            have hle := (hnone hb).le
            omega
        | some parts =>
            obtain ⟨inner, close, rest⟩ := parts
            obtain ⟨hinner, hzero⟩ := hsome _ _ _ hb
            have hlen := length_of_takeBracketed hb
            have hclose := close_kind_of_takeBracketed hb
            have hts := eq_append_of_takeBracketed hb
            rw [Int.natCast_zero, Int.zero_add] at hzero
            rw [hts, stays_append, stays_cons, weight_closing hclose, hzero] at hs
            rw [hts, depth_append, depth_cons, weight_closing hclose, hzero] at hd
            rw [hts]
            exact .group hl hclose (balanced_of_depth inner hzero hinner)
              (balanced_of_depth rest (by omega) hs.2.2)
      by_cases hr : t.kind = .rightBracket
      · rw [weight_closing hr] at hs
        have hle := hs [] List.nil_prefix
        rw [depth_nil] at hle
        omega
      · rw [weight_plain hl hr] at hd hs
        rw [Int.zero_add] at hd hs
        exact .cons hl hr (balanced_of_depth ts hd hs)
termination_by ts.length

theorem balanced_iff : Balanced ts ↔ depth ts = 0 ∧ Stays 0 ts :=
  ⟨fun h => ⟨h.depth_eq, h.stays 0 (Int.le_refl 0)⟩, fun h => balanced_of_depth ts h.1 h.2⟩

/-- What is taken is balanced up to a closing bracket, and there is one such stretch at most. -/
theorem takeBracketed_eq_some_iff : takeBracketed 0 ts = some (inner, close, rest) ↔
    ts = inner ++ close :: rest ∧ close.kind = .rightBracket ∧ Balanced inner := by
  constructor
  · intro h
    obtain ⟨hstays, hdepth⟩ := (takesClosing 0 ts).1 _ _ _ h
    rw [Int.natCast_zero, Int.zero_add] at hdepth
    exact ⟨eq_append_of_takeBracketed h, close_kind_of_takeBracketed h, balanced_of_depth inner hdepth hstays⟩
  · rintro ⟨rfl, hc, hi⟩
    exact takeBracketed_of_balanced hi hc

theorem foldl_depthAfter_eq {n : Nat} (h : Stays n ts) : ((ts.foldl depthAfter n : Nat) : Int) = n + depth ts := by
  induction ts generalizing n with
  | nil => simp
  | cons t ts ih =>
      obtain ⟨-, h⟩ := stays_cons.1 h
      -- the token keeps the count from falling below zero, so that it is not cut off there
      have hone : (depthAfter n t : Int) = n + t.weight := by
        by_cases hl : t.kind = .leftBracket
        · simp [hl]
        by_cases hr : t.kind = .rightBracket
        · have hle := h [] List.nil_prefix
          rw [weight_closing hr, depth_nil] at hle
          rw [depthAfter_closing n hr, weight_closing hr]
          omega
        · simp [hl, hr]
      rw [← hone] at h
      simp [ih h, hone, Int.add_assoc]

theorem countsAll_of_stays (h : Stays 0 ts) : CountsAll ts := by
  rintro front t back rfl hr
  rw [stays_append, stays_cons, weight_closing hr] at h
  have hcount := foldl_depthAfter_eq (n := 0) h.1
  have hle := h.2.2 [] List.nil_prefix
  rw [depth_nil] at hle
  omega

/-- The count with which the search for the partner goes on behind tokens that never close more than they open. -/
theorem takeBracketed_of_stays {n : Nat} (h : Stays n ts) (rest : List Token) :
    takeBracketed n (ts ++ rest) =
      (takeBracketed (ts.foldl depthAfter n) rest).map fun (inner, close, left) => (ts ++ inner, close, left) := by
  induction ts generalizing n with
  | nil =>
      rw [List.nil_append, List.foldl_nil]
      cases takeBracketed n rest <;> rfl
  | cons t ts ih =>
      obtain ⟨-, h⟩ := stays_cons.1 h
      by_cases hl : t.kind = .leftBracket
      · rw [weight_opening hl, ← Int.natCast_succ] at h
        rw [List.cons_append, takeBracketed_opening n hl, ih h, List.foldl_cons, depthAfter_opening n hl,
          Option.map_map]
        rfl
      by_cases hr : t.kind = .rightBracket
      · cases n with
        | zero =>
            have hle := h [] List.nil_prefix
            rw [weight_closing hr, depth_nil] at hle
            omega
        | succ n =>
            rw [weight_closing hr, Int.natCast_succ, Int.add_neg_cancel_right] at h
            rw [List.cons_append, takeBracketed_closing n hr, ih h, List.foldl_cons, depthAfter_closing _ hr,
              Nat.add_sub_cancel, Option.map_map]
            rfl
      · rw [weight_plain hl hr, Int.add_zero] at h
        rw [List.cons_append, takeBracketed_plain n hl hr, ih h, List.foldl_cons, depthAfter_plain n hl hr,
          Option.map_map]
        rfl

@[simp]
theorem commas_append (d : Int) (ts us : List Token) :
    commas d (ts ++ us) = commas d ts ++ commas (d + depth ts) us := by
  induction ts generalizing d with
  | nil => simp [commas]
  | cons t ts ih =>
      rw [List.cons_append, commas, commas, ih, depth_cons, Int.add_assoc]
      split <;> rfl

theorem Balanced.commas_eq_nil (h : Balanced ts) : ∀ d : Int, 0 < d → commas d ts = [] := by
  induction h with
  | nil => exact fun _ _ => rfl
  | cons hl hr _ ih =>
      intro d hd
      rw [commas, if_neg (fun h => by omega), weight_plain hl hr, ih _ (by omega)]
  | group ho hc hi _ ih_inner ih =>
      intro d hd
      rw [commas, if_neg (fun h => by omega), commas_append, hi.depth_eq, commas, if_neg (fun h => by
        rw [weight_opening ho] at h; omega), weight_opening ho, weight_closing hc, ih_inner _ (by omega),
        ih _ (by omega), List.append_nil]

theorem commas_group {opening closing : Token} (ho : opening.kind = .leftBracket)
    (hc : closing.kind = .rightBracket) (hi : Balanced inner) :
    commas 0 (opening :: (inner ++ closing :: ts)) = commas 0 ts := by
  have hopen : opening.kind ≠ .comma := by
    rw [ho]
    decide
  rw [commas, if_neg (fun h => hopen h.2), commas_append, hi.depth_eq, weight_opening ho,
    hi.commas_eq_nil _ (by decide), commas, if_neg (fun h => absurd h.1 (by decide)), weight_closing hc]
  rfl

theorem Whole.commas_eq_nil (h : Whole ts) : commas 0 ts = [] := by
  induction h with
  | nil => rfl
  | cons hl hr hc _ ih => rw [commas, if_neg (fun h => hc h.2), weight_plain hl hr, Int.add_zero, ih]
  | group ho hc hi _ ih => rw [commas_group ho hc hi, ih]

theorem rejoin_append (front piece : List Token) (pieces : List (List Token)) (separators : List Token) :
    rejoin ((front ++ piece) :: pieces) separators = front ++ rejoin (piece :: pieces) separators := by
  cases separators with
  | nil => rfl
  | cons s separators => exact List.append_assoc _ _ _

/-- Cutting at the commas outside brackets leaves whole pieces and loses nothing. -/
theorem splitAtDepth_spec (h : Balanced ts) :
    (∀ piece ∈ splitAtDepth .comma 0 ts, Whole piece) ∧
      rejoin (splitAtDepth .comma 0 ts) (commas 0 ts) = ts ∧
      (splitAtDepth .comma 0 ts).length = (commas 0 ts).length + 1 := by
  induction h with
  | nil => exact ⟨by simp [splitAtDepth, Whole.nil], rfl, rfl⟩
  | @cons t ts hl hr _ ih =>
      obtain ⟨hwhole, hjoin, hlen⟩ := ih
      by_cases hc : t.kind = .comma
      · rw [splitAtDepth, if_pos ⟨rfl, hc⟩, commas, if_pos ⟨rfl, hc⟩, weight_plain hl hr]
        refine ⟨?_, ?_, by simp [hlen]⟩
        · rintro piece (_ | ⟨_, hp⟩)
          · exact .nil
          · exact hwhole piece hp
        · rw [rejoin, Int.add_zero, hjoin, List.nil_append]
      · rw [splitAtDepth, if_neg (fun h => hc h.2), commas, if_neg (fun h => hc h.2), weight_plain hl hr,
          depthAfter_plain 0 hl hr, Int.add_zero]
        generalize hp : splitAtDepth .comma 0 ts = pieces at hwhole hjoin hlen
        cases pieces with
        | nil => exact absurd hp (splitAtDepth_ne_nil _ _ _)
        | cons first more =>
            refine ⟨?_, ?_, hlen⟩
            · rintro piece (_ | ⟨_, hp⟩)
              · exact .cons hl hr hc (hwhole first List.mem_cons_self)
              · exact hwhole piece (List.mem_cons_of_mem _ hp)
            · exact (rejoin_append [t] first more _).trans (congrArg (t :: ·) hjoin)
  | @group opening closing inner ts ho hc hi _ _ ih =>
      obtain ⟨hwhole, hjoin, hlen⟩ := ih
      have hgroup (left : List Token) : opening :: (inner ++ closing :: left) =
          (opening :: (inner ++ [closing])) ++ left := by simp
      have hpiece : Whole (opening :: (inner ++ [closing])) := .group ho hc hi .nil
      rw [commas_group ho hc hi, hgroup, splitAtDepth_append (splitAtDepth_of_whole hpiece),
        foldl_depthAfter hpiece.balanced]
      generalize hp : splitAtDepth .comma 0 ts = pieces at hwhole hjoin hlen
      cases pieces with
      | nil => exact absurd hp (splitAtDepth_ne_nil _ _ _)
      | cons first more =>
          refine ⟨?_, ?_, hlen⟩
          · rintro piece (_ | ⟨_, hp⟩)
            · exact hpiece.append (hwhole first List.mem_cons_self)
            · exact hwhole piece (List.mem_cons_of_mem _ hp)
          · exact (rejoin_append _ first more _).trans (congrArg (_ ++ ·) hjoin)

end Stencil.Token
