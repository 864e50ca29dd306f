import Stencil.Token

namespace Stencil.Token

/-- Splits at the closing bracket that matches an opening one already read, `depth` brackets being
open inside it. -/
def takeBracketed : Nat → List Token → Option (List Token × Token × List Token)
  | _, [] => none
  | depth, t :: ts =>
      match t.kind with
      | .leftBracket =>
          (takeBracketed (depth + 1) ts).map fun (inner, close, rest) => (t :: inner, close, rest)
      | .rightBracket =>
          match depth with
          | 0 => some ([], t, ts)
          | d + 1 => (takeBracketed d ts).map fun (inner, close, rest) => (t :: inner, close, rest)
      | _ => (takeBracketed depth ts).map fun (inner, close, rest) => (t :: inner, close, rest)

theorem eq_append_of_takeBracketed {depth : Nat} {ts inner rest : List Token} {close : Token}
    (h : takeBracketed depth ts = some (inner, close, rest)) : ts = inner ++ close :: rest := by
  induction ts generalizing depth inner with
  | nil => simp [takeBracketed] at h
  | cons t ts ih =>
      unfold takeBracketed at h
      split at h
      · obtain ⟨⟨i, c, r⟩, hr, he⟩ := Option.map_eq_some_iff.1 h
        simp only [Prod.mk.injEq] at he
        obtain ⟨rfl, rfl, rfl⟩ := he
        simp [ih hr]
      · split at h
        · simp only [Option.some.injEq, Prod.mk.injEq] at h
          obtain ⟨rfl, rfl, rfl⟩ := h
          rfl
        · obtain ⟨⟨i, c, r⟩, hr, he⟩ := Option.map_eq_some_iff.1 h
          simp only [Prod.mk.injEq] at he
          obtain ⟨rfl, rfl, rfl⟩ := he
          simp [ih hr]
      · obtain ⟨⟨i, c, r⟩, hr, he⟩ := Option.map_eq_some_iff.1 h
        simp only [Prod.mk.injEq] at he
        obtain ⟨rfl, rfl, rfl⟩ := he
        simp [ih hr]

theorem length_of_takeBracketed {depth : Nat} {ts inner rest : List Token} {close : Token}
    (h : takeBracketed depth ts = some (inner, close, rest)) :
    inner.length + rest.length < ts.length := by
  rw [eq_append_of_takeBracketed h]
  simp

/-- How many brackets are open after a token. A closing one without partner changes nothing. -/
def depthAfter (depth : Nat) (t : Token) : Nat :=
  match t.kind with
  | .leftBracket => depth + 1
  | .rightBracket => depth - 1
  | _ => depth

def splitAtDepth (separator : TokenKind) : Nat → List Token → List (List Token)
  | _, [] => [[]]
  | depth, t :: ts =>
      if depth = 0 ∧ t.kind = separator then [] :: splitAtDepth separator depth ts
      else (splitAtDepth separator (depthAfter depth t) ts).modifyHead (t :: ·)

/-- The pieces between the separators outside brackets. Nothing has no pieces. -/
def splitTopLevel (separator : TokenKind) (ts : List Token) : List (List Token) :=
  if ts.isEmpty then [] else splitAtDepth separator 0 ts

theorem length_le_of_mem_splitAtDepth {separator : TokenKind} {depth : Nat} {ts piece : List Token}
    (h : piece ∈ splitAtDepth separator depth ts) : piece.length ≤ ts.length := by
  induction ts generalizing depth piece with
  | nil => simp_all [splitAtDepth]
  | cons t ts ih =>
      unfold splitAtDepth at h
      split at h
      · rcases List.mem_cons.1 h with rfl | h
        · simp
        · exact Nat.le_succ_of_le (ih h)
      · generalize he : splitAtDepth separator (depthAfter depth t) ts = pieces at h
        cases pieces with
        | nil => simp at h
        | cons first more =>
            rcases List.mem_cons.1 h with rfl | h
            · have hm : first ∈ splitAtDepth separator (depthAfter depth t) ts := by simp [he]
              simpa using ih hm
            · have hm : piece ∈ splitAtDepth separator (depthAfter depth t) ts := by simp [he, h]
              exact Nat.le_succ_of_le (ih hm)

theorem length_le_of_mem_splitTopLevel {separator : TokenKind} {ts piece : List Token}
    (h : piece ∈ splitTopLevel separator ts) : piece.length ≤ ts.length := by
  unfold splitTopLevel at h
  split at h
  · simp at h
  · exact length_le_of_mem_splitAtDepth h

end Stencil.Token
