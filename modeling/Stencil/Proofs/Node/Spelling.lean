import Stencil.Proofs.Node.Grammar
import Stencil.Proofs.Node.Tag
import Stencil.Proofs.Text.Span
import Stencil.Proofs.Token.Lexeme

namespace Stencil

theorem Text.byteLength_trimLeft (cs : List Char) :
    byteLength (cs.takeWhile isBlank) + byteLength (trimLeft cs) = byteLength cs := by
  rw [trimLeft, ← byteLength_append, List.takeWhile_append_dropWhile]

theorem Text.byteLength_trimLeft_le (cs : List Char) : byteLength (trimLeft cs) ≤ byteLength cs := by
  rw [← byteLength_trimLeft cs]
  exact Nat.le_add_left _ _

/-- A name at the front is the first word behind the blanks. The induction is on the blanks. -/
theorem Token.eq_word_of_scan {cs : List Char} {offset : Nat} {t : Token} {ts : List Token}
    (h : scan offset cs = .ok (t :: ts)) (ht : t.kind = .identifier) :
    t.text = String.ofList ((Text.trimLeft cs).takeWhile isWordPart) ∧
      t.offset = offset + (Text.byteLength cs - Text.byteLength (Text.trimLeft cs)) := by
  induction cs generalizing offset with
  | nil =>
      rw [scan_nil] at h
      cases h
  | cons c cs ih =>
      by_cases hc : isSpace c
      · have hb : Text.isBlank c := by
          rw [isSpace_iff] at hc
          simp [Text.isBlank]
          omega
        rw [scan_space offset hc] at h
        have htrim : Text.trimLeft (c :: cs) = Text.trimLeft cs := List.dropWhile_cons_of_pos hb
        have hle := Text.byteLength_trimLeft_le cs
        obtain ⟨htext, hoffset⟩ := ih h
        rw [htrim]
        refine ⟨htext, ?_⟩
        rw [hoffset, Text.byteLength]
        omega
      · obtain ⟨kind, tail, more, hr, -, he⟩ := (scan_cons_ok_iff hc).1 h
        obtain ⟨rfl, rfl⟩ := List.cons.inj he
        obtain rfl : kind = .identifier := ht
        obtain ⟨hw, rfl⟩ := hr.of_identifier
        have hb : ¬Text.isBlank c := by
          rw [isWordStart_iff] at hw
          simp [Text.isBlank]
          omega
        have htrim : Text.trimLeft (c :: cs) = c :: cs := List.dropWhile_cons_of_neg hb
        rw [htrim, List.takeWhile_cons_of_pos (isWordPart_of_isWordStart hw)]
        simp

namespace Instruction

def mark : Instruction → Mark
  | .place _ => .plain
  | .begin block _ => .opens block.kind
  | .otherwiseIf _ _ => .elsif
  | .otherwise _ => .otherwise
  | .finish kind _ => .closes kind

def Fresh : Instruction → Prop
  | .begin (.branch arms _ hasElse) _ => arms = [] ∧ hasElse = false
  | _ => True

def Spelled (keyword : String) (offset : Nat) : Instruction → Prop
  | .place _ => Mark.ofKeyword keyword = .plain
  | .begin block o => keyword = block.kind.keyword ∧ o = offset
  | .otherwiseIf _ o => keyword = "elsif" ∧ o = offset
  | .otherwise o => keyword = "else" ∧ o = offset
  | .finish kind o => keyword = "end" ++ kind.keyword ∧ o = offset

variable {keyword : String} {offset stop : Nat} {i j : Instruction} {ts : List Token}

theorem Spelled.mark_eq (h : Spelled keyword offset i) : Mark.ofKeyword keyword = i.mark := by
  cases i with
  | place n => exact h
  | begin block o =>
      obtain ⟨rfl, -⟩ := h
      cases block <;> rfl
  | otherwiseIf c o =>
      obtain ⟨rfl, -⟩ := h
      rfl
  | otherwise o =>
      obtain ⟨rfl, -⟩ := h
      rfl
  | finish kind o =>
      obtain ⟨rfl, -⟩ := h
      cases kind <;> rfl

theorem spelled_of_ofKeyword {keyword : Token} (h : ofKeyword keyword ts stop = .ok i) :
    i.Spelled keyword.text keyword.offset ∧ i.Fresh := by
  unfold ofKeyword at h
  dsimp only at h
  split at h
  next hk =>
    obtain ⟨name, value, target, -, rfl⟩ := of_assign h
    exact ⟨congrArg Mark.ofKeyword hk, trivial⟩
  next hk =>
    obtain ⟨name, rfl⟩ := of_capture h
    exact ⟨⟨hk, rfl⟩, trivial⟩
  next hk =>
    obtain rfl := eq_of_bare h
    exact ⟨⟨hk, rfl⟩, trivial⟩
  next hk =>
    obtain ⟨condition, -, h⟩ := Except.of_bind_ok h
    obtain rfl := Except.ok.inj h
    exact ⟨⟨hk, rfl⟩, rfl, rfl⟩
  next hk =>
    obtain ⟨condition, -, h⟩ := Except.of_bind_ok h
    obtain rfl := Except.ok.inj h
    exact ⟨⟨hk, rfl⟩, trivial⟩
  next hk =>
    obtain rfl := eq_of_bare h
    exact ⟨⟨hk, rfl⟩, trivial⟩
  next hk =>
    obtain rfl := eq_of_bare h
    exact ⟨⟨hk, rfl⟩, trivial⟩
  next hk =>
    obtain ⟨name, source, -, rfl⟩ := of_loop h
    exact ⟨⟨hk, rfl⟩, trivial⟩
  next hk =>
    obtain rfl := eq_of_bare h
    exact ⟨⟨hk, rfl⟩, trivial⟩
  case h_10 hk | h_11 hk | h_12 hk | h_13 hk | h_14 hk =>
    obtain rfl := eq_of_bare h
    exact ⟨congrArg Mark.ofKeyword hk, trivial⟩
  next hk =>
    obtain ⟨name, arguments, -, rfl⟩ := of_embed h
    exact ⟨congrArg Mark.ofKeyword hk, trivial⟩
  next => cases h

theorem spelled_of_ofTag {cs : List Char} (h : ofTag offset cs = .ok i) :
    i.Spelled (Region.tag offset cs).keyword (Region.tag offset cs).keywordOffset ∧ i.Fresh := by
  rw [ofTag] at h
  dsimp only at h
  split at h
  next hcomment =>
    obtain rfl := Except.ok.inj h
    exact ⟨congrArg Mark.ofKeyword hcomment, trivial⟩
  obtain ⟨tokens, hscan, h⟩ := Except.of_bind_ok h
  cases tokens with
  | nil => cases h
  | cons keyword rest =>
      obtain ⟨hname, h⟩ := Except.of_check_ok h
      obtain ⟨htext, hoffset⟩ := Token.eq_word_of_scan hscan (Decidable.of_not_not hname)
      have hs := spelled_of_ofKeyword h
      rw [htext, hoffset] at hs
      exact hs

/-- A tag with a word at its front is what this word says, unless it is a comment. -/
theorem ofTag_of_scan {offset : Nat} {cs : List Char} {keyword : Token} {ts : List Token}
    (h : Token.scan offset cs = .ok (keyword :: ts)) (hk : keyword.kind = .identifier)
    (hc : keyword.text ≠ "comment") :
    ofTag offset cs = ofKeyword keyword ts (offset + Text.byteLength cs) := by
  rw [(Token.eq_word_of_scan h hk).1] at hc
  rw [ofTag]
  dsimp only
  rw [if_neg hc, h]
  dsimp only [bind, Except.bind]
  rw [if_neg (not_not_intro hk)]

/-- What a region says by itself agrees with its keyword. -/
theorem spelled_of_ofRegion {r : Region} (h : ofRegion r = .ok i) :
    i.Spelled r.keyword r.keywordOffset ∧ i.Fresh := by
  cases r with
  | text o cs =>
      obtain rfl := Except.ok.inj h
      exact ⟨rfl, trivial⟩
  | output o cs =>
      obtain ⟨tokens, -, h⟩ := Except.of_bind_ok h
      obtain ⟨e, -, h⟩ := Except.of_bind_ok h
      obtain rfl := Except.ok.inj h
      exact ⟨rfl, trivial⟩
  | tag o cs => exact spelled_of_ofTag h
  | unclosedOutput o => cases h
  | unclosedTag o => cases h

end Instruction

end Stencil
