import Stencil.Text.Basic
import Stencil.Basic

namespace Stencil

/-- Offsets are those of the first character, inside the marks for an output or a tag. An unclosed
region is the last piece. -/
inductive Region where
  | text (offset : Nat) (cs : List Char)
  | output (offset : Nat) (cs : List Char)
  | tag (offset : Nat) (cs : List Char)
  | unclosedOutput (offset : Nat)
  | unclosedTag (offset : Nat)
deriving DecidableEq, Repr

namespace Region

def splitAtMark (a b : Char) : List Char → Option (List Char × List Char)
  | c :: d :: cs =>
      if c = a ∧ d = b then some ([], cs)
      else (splitAtMark a b (d :: cs)).map fun (before, after) => (c :: before, after)
  | _ => none

theorem length_of_splitAtMark {a b : Char} {cs before after : List Char}
    (h : splitAtMark a b cs = some (before, after)) : before.length + after.length + 2 = cs.length := by
  induction cs generalizing before with
  | nil => simp [splitAtMark] at h
  | cons c cs ih =>
      cases cs with
      | nil => simp [splitAtMark] at h
      | cons d cs =>
          unfold splitAtMark at h
          split at h
          · simp only [Option.some.injEq, Prod.mk.injEq] at h
            obtain ⟨rfl, rfl⟩ := h
            simp
          · obtain ⟨⟨p, q⟩, hr, he⟩ := Option.map_eq_some_iff.1 h
            simp only [Prod.mk.injEq] at he
            obtain ⟨rfl, rfl⟩ := he
            have := ih hr
            simp at this ⊢
            omega

def afterTag (skipNewline : Bool) : List Char → List Char
  | '\n' :: cs => if skipNewline then cs else '\n' :: cs
  | cs => cs

theorem length_afterTag_le (skipNewline : Bool) (cs : List Char) :
    (afterTag skipNewline cs).length ≤ cs.length := by
  unfold afterTag
  split
  · split <;> simp
  · exact Nat.le_refl _

/-- Literal text up to the next brace. A brace that ends the source belongs to the text before it,
any other brace that opens nothing is a text by itself. With `skipNewline`, one newline right after a
tag is left out. -/
def scan (skipNewline : Bool) (offset : Nat) (cs : List Char) : List Region :=
  match cs with
  | [] => []
  | '\x7b' :: '\x7b' :: cs =>
      match h : splitAtMark '\x7d' '\x7d' cs with
      | none => [.unclosedOutput offset]
      | some (body, rest) =>
          have := length_of_splitAtMark h
          .output (offset + 2) body :: scan skipNewline (offset + 4 + Text.byteLength body) rest
  | '\x7b' :: '%' :: cs =>
      match h : splitAtMark '%' '\x7d' cs with
      | none => [.unclosedTag offset]
      | some (body, rest) =>
          have := length_of_splitAtMark h
          have := length_afterTag_le skipNewline rest
          let next := afterTag skipNewline rest
          .tag (offset + 2) body ::
            scan skipNewline (offset + 4 + Text.byteLength body + (rest.length - next.length)) next
  | '\x7b' :: c :: cs => .text offset ['\x7b'] :: scan skipNewline (offset + 1) (c :: cs)
  | c :: cs =>
      let run := c :: cs.takeWhile (· ≠ '\x7b')
      let rest := cs.dropWhile (· ≠ '\x7b')
      have := length_dropWhile_le (· ≠ '\x7b') cs
      if rest = ['\x7b'] then [.text offset (c :: cs)]
      else .text offset run :: scan skipNewline (offset + Text.byteLength run) rest
termination_by cs.length
decreasing_by all_goals simp at * <;> omega

end Region

end Stencil
