import Mathlib
import Stencil.Proofs.Node.Placed
import Stencil.Proofs.Node.Taken

namespace Stencil

/-- The nodes and their expressions begin where the source has what they are made from. The nodes take regions of
their own in the order of the source, so that in the order of the tree their offsets increase. -/
structure Node.Grounded (skipNewline : Bool) (source : String) (ns : List Node) : Prop where
  made : List.SublistForall₂ (MadeFrom source.toList) (walkAll ns) (Region.scan skipNewline 0 source.toList)
  placed : ∀ n ∈ walkAll ns, ∀ e ∈ n.ownExpressions, ∀ p ∈ e.parts,
    p.Placed source.toList (Region.scan skipNewline 0 source.toList)
  boundary : ∀ n ∈ walkAll ns, Text.IsBoundary source.toList n.offset ∧
    ∀ e ∈ n.ownExpressions, ∀ p ∈ e.parts, Text.IsBoundary source.toList p.offset
  ordered : ((walkAll ns).map offset).Pairwise (· < ·)

namespace Node.Grounded

variable {skipNewline : Bool} {source : String} {ns : List Node}

theorem of_made
    (hmade : List.SublistForall₂ (MadeFrom source.toList) (walkAll ns) (Region.scan skipNewline 0 source.toList))
    (hplaced : ∀ n ∈ walkAll ns, ∀ e ∈ n.ownExpressions, ∀ p ∈ e.parts,
      p.Placed source.toList (Region.scan skipNewline 0 source.toList)) : Grounded skipNewline source ns where
  made := hmade
  placed := hplaced
  boundary n hn := by
    obtain ⟨r, -, hr⟩ := hmade.exists_of_mem hn
    exact ⟨hr.isBoundary, fun e he p hp => (hplaced n hn e he p hp).isBoundary⟩
  ordered := pairwise_offset hmade (Region.pieces_scan skipNewline 0 source.toList).ordered

theorem of_parseNodes (h : parseNodes skipNewline source = .ok ns) : Grounded skipNewline source ns :=
  of_made (madeFrom_of_parseNodes h) (placed_of_parseNodes h)

/-- Without its layout a text begins later, but the offset of the node stays. -/
theorem stripAll (h : Grounded skipNewline source ns) (afterTag endsAtTag : Bool) :
    Grounded skipNewline source (Node.stripAll afterTag endsAtTag ns) := by
  have hstripped := walkAll_stripAll afterTag endsAtTag ns
  refine of_made (hstripped.comp h.made fun n m r hn hm => ?_) fun n hn => ?_
  · obtain ⟨after, before, rfl⟩ := hn
    exact hm.strip after before
  · obtain ⟨m, hm, after, before, rfl⟩ := hstripped.exists_of_mem hn
    rw [ownExpressions_strip]
    exact h.placed m hm

end Node.Grounded

namespace Template

/-- Where a text is at fault or where its nodes begin, no character is split. An error has the line and the column
of its offset. The offsets of nodes and of all their expressions are those of the tokens that they are made from,
and increase along the tree. Nothing is ever taken from the source but what stands in it. -/
theorem parse_places (options : ParserOptions) (path : Option String) (text : String) :
    let source := Text.withUnixLines text
    (∀ e, parse options path text = .error e →
      Text.IsBoundary source.toList e.offset ∧ e.offset ≤ Text.byteLength source.toList ∧
        Text.IsPosition source.toList e.offset ⟨e.line, e.column⟩) ∧
      (∀ t, parse options path text = .ok t →
        t.source = source ∧ Node.Grounded options.skipNewline source t.nodes) ∧
      ∀ n piece, Taken options.skipNewline source n piece →
        Text.StandsAt source.toList n piece ∧ n + Text.byteLength piece ≤ Text.byteLength source.toList := by
  intro source
  refine ⟨fun e he => ?_, fun t ht => ?_, fun n piece h => ?_⟩
  · simp only [parse] at he
    split at he
    next => cases he
    next e' hnodes =>
      obtain rfl := Except.error.inj he
      have hboundary := blames_parseNodes options.skipNewline source e' hnodes
      exact ⟨hboundary, hboundary.le, hboundary.isPosition⟩
  · simp only [parse] at ht
    split at ht
    next nodes hnodes =>
      have hgrounded := Node.Grounded.of_parseNodes hnodes
      obtain rfl := Except.ok.inj ht
      split
      · exact ⟨rfl, hgrounded.stripAll false false⟩
      · exact ⟨rfl, hgrounded⟩
    next => cases ht
  · exact ⟨h.standsAt, h.standsAt.isBoundary_end.le⟩

def accentedText : String :=
  "é\r\n\x7b% if not x[-1].y or z %\x7d \x7b\x7b 'ü' | f: 2 \x7d\x7d\x7b% else %\x7d ß\x7b% endif %\x7d"

def accentedNodes : List Node :=
  [.text "é\n" 0,
    .branch
      [(.binary .or (.negation (.member (.index (.variable "x" 13) (.literal (.int (-1)) 15) 14) "y" 19) 9)
          (.variable "z" 24) 21,
        [.text "" 28, .output (.pipe (.literal (.string "ü") 32) "f" [.int 2] 39)]),
      (.literal (.bool true) 49, [.text "ß" 56])] 6]

theorem parse_places_accented :
    parse ⟨true, true⟩ none accentedText = .ok ⟨Text.withUnixLines accentedText, none, accentedNodes⟩ ∧
      Node.Grounded true (Text.withUnixLines accentedText) accentedNodes ∧
      parse .plain none "é\r\n\x7b\x7b 'ü' ü \x7d\x7d" = .error ⟨.unexpectedCharacter 'ü', 11, 2, 8, none⟩ ∧
      Text.IsPosition "é\n\x7b\x7b 'ü' ü \x7d\x7d".toList 11 ⟨2, 8⟩ := by
  have hok : parse ⟨true, true⟩ none accentedText =
      .ok ⟨Text.withUnixLines accentedText, none, accentedNodes⟩ := by cbv
  have herror : parse .plain none "é\r\n\x7b\x7b 'ü' ü \x7d\x7d" =
      .error ⟨.unexpectedCharacter 'ü', 11, 2, 8, none⟩ := by cbv
  have hsource : Text.withUnixLines "é\r\n\x7b\x7b 'ü' ü \x7d\x7d" = "é\n\x7b\x7b 'ü' ü \x7d\x7d" := by cbv
  refine ⟨hok, ((parse_places _ _ _).2.1 _ hok).2, herror, ?_⟩
  rw [← hsource]
  exact ((parse_places _ _ _).1 _ herror).2.2

end Template

end Stencil
