import Mathlib
import Stencil.Proofs.Expr.Rooted
import Stencil.Proofs.Node.Heads
import Stencil.Proofs.Node.Pieces
import Stencil.Proofs.Token.Laid

namespace Stencil

def Signal.keyword : Signal → String
  | stopLoop => "break"
  | nextRound => "continue"
  | eject => "eject"
  | discard => "discard"

namespace Node

def keyword? : Node → Option String
  | text _ _ => none
  | output _ => none
  | assign _ _ _ _ => some "assign"
  | capture _ _ _ => some "capture"
  | loop _ _ _ _ => some "for"
  | branch _ _ => some "if"
  | embed _ _ _ => some "include"
  | signal s _ => some s.keyword
  | comment _ => some "comment"
  | newline _ => some "newline"

/-- The node is made from this region. Its offset is where the text begins, of which it has a part, where the
token begins that its expression is made from, or where the keyword of its tag begins. -/
inductive MadeFrom (source : List Char) : Node → Region → Prop
  | text {s : String} {o : Nat} {cs : List Char} : s.toList <:+: cs → cs ≠ [] → Text.StandsAt source o cs →
      MadeFrom source (.text s o) (.text o cs)
  | output {e : Expr} {t : Token} {ts : List Token} {o : Nat} {cs : List Char} :
      Token.scan o cs = .ok ts → t ∈ ts → e.MadeFrom t → Text.StandsAt source e.offset t.text.toList →
        MadeFrom source (.output e) (.output o cs)
  | tag {n : Node} {r : Region} : r.isTag → n.keyword? = some r.keyword → n.offset = r.keywordOffset →
      Text.StandsAt source n.offset r.keyword.toList → MadeFrom source n r

end Node

namespace Region

variable {source : List Char} {r : Region}

theorem keywordOffset_tag (o : Nat) (cs : List Char) :
    (Region.tag o cs).keywordOffset = o + Text.byteLength (cs.takeWhile Text.isBlank) := by
  rw [keywordOffset, ← Text.byteLength_trimLeft cs, Nat.add_sub_cancel]

theorem StandsIn.trimmed {o : Nat} {cs : List Char} (h : (Region.tag o cs).StandsIn source) :
    Text.StandsAt source (Region.tag o cs).keywordOffset (Text.trimLeft cs) := by
  have hcs : Text.StandsAt source o (cs.takeWhile Text.isBlank ++ Text.trimLeft cs) := by
    rw [Text.trimLeft, List.takeWhile_append_dropWhile]
    exact h.content
  rw [keywordOffset_tag]
  exact hcs.back

theorem StandsIn.keyword (h : r.StandsIn source) (hr : r.isTag) :
    Text.StandsAt source r.keywordOffset r.keyword.toList := by
  cases r with
  | tag o cs =>
      have htrimmed := h.trimmed
      rw [← List.takeWhile_append_dropWhile (p := Token.isWordPart) (l := Text.trimLeft cs)] at htrimmed
      rw [Region.keyword, String.toList_ofList]
      exact htrimmed.front
  | text | output | unclosedOutput | unclosedTag => cases hr

theorem keywordOffset_bounds (hr : r.isTag) (hk : r.keyword ≠ "") :
    r.start ≤ r.keywordOffset ∧ r.keywordOffset < r.start + Text.byteLength r.content := by
  cases r with
  | tag o cs =>
      have hlength := Text.byteLength_trimLeft cs
      have hpos : Text.byteLength (Text.trimLeft cs) ≠ 0 := by
        intro h
        apply hk
        rw [keyword, Text.eq_nil_of_byteLength h]
        rfl
      rw [keywordOffset_tag, start, content]
      omega
  | text | output | unclosedOutput | unclosedTag => cases hr

end Region

namespace Node

variable {source : List Char} {n : Node} {r : Region}

theorem keyword?_ne_empty : n.keyword? ≠ some "" := by
  cases n with
  | signal s => cases s <;> simp [keyword?, Signal.keyword]
  | _ => simp [keyword?]

theorem MadeFrom.isBoundary (h : n.MadeFrom source r) : Text.IsBoundary source n.offset := by
  cases h with
  | text _ _ ho => exact ho.isBoundary
  | output _ _ _ ho => exact ho.isBoundary
  | tag _ _ _ ho => exact ho.isBoundary

theorem MadeFrom.bounds (h : n.MadeFrom source r) :
    r.start ≤ n.offset ∧ n.offset < r.start + Text.byteLength r.content := by
  cases h with
  | @text s o cs _ hne _ =>
      have hpos : Text.byteLength cs ≠ 0 := fun h => hne (Text.eq_nil_of_byteLength h)
      exact ⟨Nat.le_refl _, by dsimp only [offset, Region.start, Region.content]; omega⟩
  | output hscan ht he =>
      rw [offset, he.offset_eq]
      exact Token.bounds_of_scan hscan _ ht
  | tag hr hk ho _ =>
      rw [ho]
      refine Region.keywordOffset_bounds hr fun hempty => ?_
      rw [hempty] at hk
      exact keyword?_ne_empty hk

/-- Nodes that are made from regions in their order have offsets in that order. -/
theorem pairwise_offset {ns : List Node} {regions : List Region}
    (h : List.SublistForall₂ (MadeFrom source) ns regions)
    (hr : regions.Pairwise fun r s => r.start + Text.byteLength r.content ≤ s.start) :
    (ns.map offset).Pairwise (· < ·) := by
  induction h with
  | nil => exact .nil
  | cons hn h ih =>
      obtain ⟨hfirst, hr⟩ := List.pairwise_cons.1 hr
      refine List.pairwise_cons.2 ⟨fun o ho => ?_, ih hr⟩
      obtain ⟨m, hm, rfl⟩ := List.mem_map.1 ho
      obtain ⟨s, hs, hms⟩ := h.exists_of_mem hm
      have hbehind := hfirst s hs
      have hlow := hn.bounds
      have hhigh := hms.bounds
      omega
  | cons_right _ ih => exact ih (List.pairwise_cons.1 hr).2

theorem infix_stripText (s : String) (afterTag beforeTag : Bool) :
    (stripText s afterTag beforeTag).toList <:+: s.toList := by
  have hfront (p : Char → Bool) (c : Bool) (cs : List Char) : (if c then cs.dropWhile p else cs) <:+ cs := by
    split
    · exact List.dropWhile_suffix p
    · exact List.suffix_refl cs
  rw [stripText, String.toList_ofList]
  refine List.IsInfix.trans ?_ (hfront isLayout afterTag s.toList).isInfix
  split
  · rw [← List.reverse_infix, List.reverse_reverse]
    exact (List.dropWhile_suffix isIndent).isInfix
  · exact List.infix_refl _

theorem MadeFrom.strip (h : n.MadeFrom source r) (afterTag beforeTag : Bool) :
    (n.strip afterTag beforeTag).MadeFrom source r := by
  cases h with
  | text hs hne ho => exact .text ((infix_stripText _ _ _).trans hs) hne ho
  | output hscan ht he ho => exact .output hscan ht he ho
  | tag hr hk ho hstands =>
      cases n with
      | text | output => cases hk
      | assign | capture | loop | branch | embed | signal | comment | newline => exact .tag hr hk ho hstands

end Node

namespace Instruction

variable {C : Expr → Prop} {source : List Char} {offset stop : Nat} {i : Instruction} {n : Node} {r : Region}
  {ts : List Token}

theorem keyword_of_ofKeyword {keyword : Token} (h : ofKeyword keyword ts stop = .ok i) (hn : i.Makes C n) :
    n.keyword? = some keyword.text ∧ n.offset = keyword.offset := by
  unfold ofKeyword at h
  dsimp only at h
  split at h
  next hk =>
    obtain ⟨name, value, target, -, rfl⟩ := of_assign h
    cases hn
    exact ⟨congrArg some hk.symm, rfl⟩
  next hk =>
    obtain ⟨name, rfl⟩ := of_capture h
    cases hn
    exact ⟨congrArg some hk.symm, rfl⟩
  next =>
    obtain rfl := eq_of_bare h
    cases hn
  next hk =>
    obtain ⟨condition, -, h⟩ := Except.of_bind_ok h
    obtain rfl := Except.ok.inj h
    cases hn
    exact ⟨congrArg some hk.symm, rfl⟩
  next =>
    obtain ⟨condition, -, h⟩ := Except.of_bind_ok h
    obtain rfl := Except.ok.inj h
    cases hn
  next =>
    obtain rfl := eq_of_bare h
    cases hn
  next =>
    obtain rfl := eq_of_bare h
    cases hn
  next hk =>
    obtain ⟨name, source, -, rfl⟩ := of_loop h
    cases hn
    exact ⟨congrArg some hk.symm, rfl⟩
  next =>
    obtain rfl := eq_of_bare h
    cases hn
  case h_10 hk | h_11 hk | h_12 hk | h_13 hk | h_14 hk =>
    obtain rfl := eq_of_bare h
    cases hn
    exact ⟨congrArg some hk.symm, rfl⟩
  next hk =>
    obtain ⟨name, arguments, -, rfl⟩ := of_embed h
    cases hn
    exact ⟨congrArg some hk.symm, rfl⟩
  next => cases h

theorem made_of_ofTag {o : Nat} {cs : List Char} (h : ofTag o cs = .ok i) (hr : (Region.tag o cs).StandsIn source)
    (hn : i.Makes C n) : n.MadeFrom source (.tag o cs) := by
  have hstands := hr.keyword rfl
  rw [ofTag] at h
  dsimp only at h
  split at h
  next hcomment =>
    obtain rfl := Except.ok.inj h
    cases hn
    exact .tag rfl (congrArg some hcomment.symm) rfl hstands
  obtain ⟨tokens, hscan, h⟩ := Except.of_bind_ok h
  cases tokens with
  | nil => cases h
  | cons keyword ts =>
      obtain ⟨hkind, h⟩ := Except.of_check_ok h
      obtain ⟨htext, hoffset⟩ := Token.eq_word_of_scan hscan (Decidable.not_not.1 hkind)
      obtain ⟨hkeyword, ho⟩ := keyword_of_ofKeyword h hn
      have hplace : n.offset = (Region.tag o cs).keywordOffset := ho.trans hoffset
      exact .tag rfl (hkeyword.trans (congrArg some htext)) hplace (hplace ▸ hstands)

theorem made_of_ofRegion (h : ofRegion r = .ok i) (hr : r.StandsIn source) (hn : i.Makes C n) :
    n.MadeFrom source r := by
  cases r with
  | text o cs =>
      obtain rfl := Except.ok.inj h
      cases hn
      have hne : cs ≠ [] := by
        rintro rfl
        exact hr.1 rfl
      exact .text (by rw [String.toList_ofList]) hne hr.content
  | output o cs =>
      obtain ⟨ts, hscan, h⟩ := Except.of_bind_ok h
      obtain ⟨e, he, h⟩ := Except.of_bind_ok h
      obtain rfl := Except.ok.inj h
      cases hn
      obtain ⟨t, ht, hmade⟩ := Expr.rooted_of_ofTokens he (fun t ht => ht) e e.mem_parts
      have hstands := (Token.scan_eq_ok_iff.1 hscan).standsAt hr.content t ht
      exact .output hscan ht hmade (hmade.offset_eq ▸ hstands)
  | tag o cs => exact made_of_ofTag h hr hn
  | unclosedOutput | unclosedTag => cases h

end Instruction

theorem Region.sublistForall₂_of_mapM {source : List Char} {regions : List Region} {is : List Instruction}
    (hr : ∀ r ∈ regions, r.StandsIn source) (h : regions.mapM Instruction.ofRegion = .ok is) :
    List.SublistForall₂ (fun i r => r.StandsIn source ∧ Instruction.ofRegion r = .ok i) is regions := by
  induction regions generalizing is with
  | nil =>
      obtain rfl := Except.ok.inj h
      exact .nil
  | cons r regions ih =>
      obtain ⟨i, is, hi, his, rfl⟩ := Except.of_mapM_cons h
      obtain ⟨hfirst, hr⟩ := List.forall_mem_cons.1 hr
      exact .cons ⟨hfirst, hi⟩ (ih hr his)

/-- Each node is made from a region of its own, in the order of the source. -/
theorem Node.madeFrom_of_parseNodes {skipNewline : Bool} {source : String} {ns : List Node}
    (h : parseNodes skipNewline source = .ok ns) :
    List.SublistForall₂ (MadeFrom source.toList) (walkAll ns) (Region.scan skipNewline 0 source.toList) := by
  obtain ⟨is, his, hd⟩ := exists_derives_of_parseNodes h
  have hmakes := hd.makes (C := fun _ => True) fun i hi => by
    obtain ⟨r, -, hr⟩ := Except.exists_of_mem_mapM his hi
    exact ⟨Instruction.bare_of_ofRegion hr, fun _ _ => trivial⟩
  have hregions := Region.sublistForall₂_of_mapM (fun _ hr => Region.standsIn_of_scan hr) his
  refine hmakes.comp hregions fun n i r hn hr => ?_
  exact Instruction.made_of_ofRegion hr.2 hr.1 hn

end Stencil
