import Mathlib
import Stencil.Proofs.Node.Blame
import Stencil.Proofs.Node.Made

namespace Stencil

/-- A piece of the source that is looked at, and the offset that it is taken from: what is still ahead where a
region begins, where the end of one is looked for, what is between its marks and the keyword in it, its tokens,
and what a failure is placed by. -/
inductive Taken (skipNewline : Bool) (source : String) : Nat → List Char → Prop
  | ahead {r : Region} {n : Nat} : r ∈ Region.scan skipNewline 0 source.toList →
      r.start = n + Text.byteLength r.opening →
        Taken skipNewline source n (Text.span source.toList n (Text.byteLength source.toList))
  | behindMark {r : Region} {n : Nat} : r ∈ Region.scan skipNewline 0 source.toList → !r.isText →
      r.start = n + Text.byteLength r.opening →
        Taken skipNewline source (n + 2) (Text.span source.toList (n + 2) (Text.byteLength source.toList))
  | content {r : Region} : r ∈ Region.scan skipNewline 0 source.toList →
      Taken skipNewline source r.start r.content
  | trimmed {o : Nat} {cs : List Char} : .tag o cs ∈ Region.scan skipNewline 0 source.toList →
      Taken skipNewline source (Region.tag o cs).keywordOffset (Text.trimLeft cs)
  | keyword {r : Region} : r ∈ Region.scan skipNewline 0 source.toList → r.isTag →
      Taken skipNewline source r.keywordOffset r.keyword.toList
  | unread {r : Region} {ts : List Token} {n : Nat} {rest : List Char} :
      r ∈ Region.scan skipNewline 0 source.toList → !r.isText → Token.Scanned r.start r.content ts n rest →
        Taken skipNewline source n (Text.span source.toList n (Text.byteLength source.toList))
  | behindQuote {r : Region} {ts : List Token} {n : Nat} {quote : Char} {rest : List Char} :
      r ∈ Region.scan skipNewline 0 source.toList → !r.isText →
        Token.Scanned r.start r.content ts n (quote :: rest) → quote = '\'' ∨ quote = '"' →
          Taken skipNewline source (n + 1) rest
  | token {r : Region} {t : Token} {ts : List Token} {n : Nat} {rest : List Char} :
      r ∈ Region.scan skipNewline 0 source.toList → !r.isText → Token.Scanned r.start r.content ts n rest →
        t ∈ ts → Taken skipNewline source t.offset t.text.toList
  | unquoted {r : Region} {t : Token} {ts : List Token} {n : Nat} {rest : List Char} :
      r ∈ Region.scan skipNewline 0 source.toList → !r.isText → Token.Scanned r.start r.content ts n rest →
        t ∈ ts → t.kind = .string → Taken skipNewline source (t.offset + 1) t.unquoted.toList
  | before {e : ParseError} : parseNodes skipNewline source = .error e →
      Taken skipNewline source 0 (Text.upTo source.toList e.offset)
  | line {e : ParseError} {front line : List Char} : parseNodes skipNewline source = .error e →
      Text.upTo source.toList e.offset = front ++ line → (front = [] ∨ front.getLast? = some '\n') →
        '\n' ∉ line → Taken skipNewline source (Text.byteLength front) line

variable {source : List Char} {r : Region} {n : Nat}

theorem Region.StandsIn.isBoundary (h : r.StandsIn source) (hn : r.start = n + Text.byteLength r.opening) :
    Text.IsBoundary source n := by
  obtain ⟨-, m, hm, hwritten⟩ := h
  obtain rfl : n = m := Nat.add_right_cancel (hn.symm.trans hm)
  exact hwritten.isBoundary

theorem Region.StandsIn.isBoundary_behindMark (h : r.StandsIn source) (hmarked : !r.isText)
    (hn : r.start = n + Text.byteLength r.opening) : Text.IsBoundary source (n + 2) := by
  obtain ⟨-, m, hm, hwritten⟩ := h
  obtain rfl : n = m := Nat.add_right_cancel (hn.symm.trans hm)
  obtain ⟨mark, more, hmark, hlength⟩ : ∃ mark more, r.written = mark ++ more ∧ Text.byteLength mark = 2 := by
    cases r with
    | text => cases hmarked
    | output | tag => exact ⟨_, _, rfl, rfl⟩
    | unclosedOutput => exact ⟨['\x7b', '\x7b'], [], rfl, rfl⟩
    | unclosedTag => exact ⟨['\x7b', '%'], [], rfl, rfl⟩
  rw [hmark] at hwritten
  rw [← hlength]
  exact hwritten.front.isBoundary_end

theorem Text.StandsAt.unquoted {t : Token} (h : StandsAt source t.offset t.text.toList)
    (hs : Token.Spells t.kind t.text.toList) (hk : t.kind = .string) :
    StandsAt source (t.offset + 1) t.unquoted.toList := by
  rw [Token.unquoted, if_pos hk, String.toList_ofList]
  rw [hk] at hs
  generalize t.text.toList = text at h hs ⊢
  cases hs with
  | string hquote _ =>
      rw [List.drop_one, List.tail_cons, List.dropLast_concat]
      have htail := h.tail.front
      rwa [Token.utf8Size_of_quote hquote] at htail

theorem Taken.standsAt {skipNewline : Bool} {source : String} {piece : List Char}
    (h : Taken skipNewline source n piece) : Text.StandsAt source.toList n piece := by
  cases h with
  | ahead hr hn => exact ((Region.standsIn_of_scan hr).isBoundary hn).standsAt_rest
  | behindMark hr hmarked hn => exact ((Region.standsIn_of_scan hr).isBoundary_behindMark hmarked hn).standsAt_rest
  | content hr => exact (Region.standsIn_of_scan hr).content
  | trimmed hr => exact (Region.standsIn_of_scan hr).trimmed
  | keyword hr htag => exact (Region.standsIn_of_scan hr).keyword htag
  | unread hr _ hs => exact (hs.rest_standsAt (Region.standsIn_of_scan hr).content).isBoundary.standsAt_rest
  | behindQuote hr _ hs hquote =>
      have hbehind := (hs.rest_standsAt (Region.standsIn_of_scan hr).content).tail
      rwa [Token.utf8Size_of_quote hquote] at hbehind
  | token hr _ hs ht => exact hs.standsAt (Region.standsIn_of_scan hr).content _ ht
  | unquoted hr _ hs ht hk =>
      have htoken := hs.standsAt (Region.standsIn_of_scan hr).content _ ht
      obtain ⟨_, _, -, -, hlongest⟩ := hs.cutFrom _ ht
      exact htoken.unquoted hlongest.spells hk
  | before he =>
      obtain ⟨before, after, hsource, ho⟩ := blames_parseNodes skipNewline source _ he
      rw [hsource, ← ho, Text.upTo_append]
      exact ⟨[], after, rfl, rfl⟩
  | line he hline =>
      obtain ⟨before, after, hsource, ho⟩ := blames_parseNodes skipNewline source _ he
      rw [hsource, ← ho, Text.upTo_append] at hline
      rw [hsource, hline]
      exact ⟨_, after, by rw [List.append_assoc], rfl⟩

end Stencil
