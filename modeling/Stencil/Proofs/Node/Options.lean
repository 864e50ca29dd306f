import Stencil.Proofs.Node.Newlines

namespace Stencil

theorem parseNodes_skipping (source : String) :
    parseNodes true source = (parseNodes false source).map (Node.retextAll (.withoutNewline source.toList)) := by
  have hstart : Text.IsBehindTag source.toList 0 → source.toList.head? ≠ some '\n' := by
    rw [Text.IsBehindTag, Text.upTo_zero]
    exact fun h => (List.cons_ne_nil _ _ (List.suffix_nil.1 h)).elim
  have hempty : Draft.empty.retext (.withoutNewline source.toList) = Draft.empty := rfl
  rw [parseNodes, parseNodes, Region.skipsFrom source.toList 0 source.toList [] rfl rfl hstart, ← hempty,
    Draft.retext_foldlM, hempty]
  cases (Region.scan false 0 source.toList).foldlM Draft.step Draft.empty with
  | error e => rfl
  | ok d => exact Draft.retext_finish

namespace Template

def withoutNewlines (t : Template) : Template :=
  { t with nodes := Node.retextAll (.withoutNewline t.source.toList) t.nodes }

def blanked (t : Template) : Template :=
  { t with nodes := Node.retextAll .blank t.nodes }

theorem blanked_stripLayout (t : Template) : t.stripLayout.blanked = t.blanked := by
  rw [blanked, stripLayout, Node.retextAll_blank_stripAll]
  rfl

theorem parse_skipping (path : Option String) (text : String) :
    parse ⟨true, false⟩ path text = (parse .plain path text).map withoutNewlines := by
  simp only [parse, ParserOptions.plain, parseNodes_skipping]
  cases parseNodes false (Text.withUnixLines text) <;> rfl

theorem parse_stripping (skip : Bool) (path : Option String) (text : String) :
    parse ⟨skip, true⟩ path text = (parse ⟨skip, false⟩ path text).map stripLayout := by
  simp only [parse]
  cases parseNodes skip (Text.withUnixLines text) <;> rfl

/-- Options change what was read, and nothing about whether it can be read. -/
theorem parse_eq_map (o : ParserOptions) (path : Option String) (text : String) :
    ∃ f : Template → Template, parse o path text = (parse .plain path text).map f := by
  have hskip : ∀ skip, ∃ f : Template → Template, parse ⟨skip, false⟩ path text = (parse .plain path text).map f := by
    rintro (_ | _)
    · exact ⟨id, (congrFun Except.map_id _).symm⟩
    · exact ⟨withoutNewlines, parse_skipping path text⟩
  obtain ⟨skip, strip⟩ := o
  obtain ⟨f, hf⟩ := hskip skip
  cases strip with
  | false => exact ⟨f, hf⟩
  | true =>
      refine ⟨stripLayout ∘ f, ?_⟩
      rw [parse_stripping, hf]
      cases parse .plain path text <;> rfl

/-- Errors are the same under all options. Of the nodes, skipping newlines only cuts them from the texts
behind tags, and stripping layout only changes what the texts hold. -/
theorem parse_under_options (path : Option String) (text : String) :
    (∀ o o' e, parse o path text = .error e ↔ parse o' path text = .error e) ∧
      parse ⟨true, false⟩ path text = (parse .plain path text).map withoutNewlines ∧
        ∀ skip, (parse ⟨skip, true⟩ path text).map blanked = (parse ⟨skip, false⟩ path text).map blanked := by
  have hplain : ∀ o e, parse o path text = .error e ↔ parse .plain path text = .error e := by
    have hkept : ∀ skip e, parse ⟨skip, false⟩ path text = .error e ↔ parse .plain path text = .error e := by
      rintro (_ | _) e
      · exact Iff.rfl
      · rw [parse_skipping, Except.map_eq_error_iff]
    rintro ⟨skip, _ | _⟩ e
    · exact hkept skip e
    · rw [parse_stripping, Except.map_eq_error_iff, hkept]
  refine ⟨fun o o' e => (hplain o e).trans (hplain o' e).symm, parse_skipping path text, fun skip => ?_⟩
  rw [parse_stripping]
  cases parse ⟨skip, false⟩ path text with
  | error e => rfl
  | ok t => exact congrArg Except.ok t.blanked_stripLayout

/-- The first text is only a newline behind a tag, the second stands behind an output. -/
example : (parse ⟨true, false⟩ none "\x7b% if a %\x7d\n\x7b\x7b b \x7d\x7d\n\x7b% endif %\x7d\n\nc").map nodes =
    .ok [.branch [(.variable "a" 6, [.output (.variable "b" 14), .text "\n" 18])] 3, .text "\nc" 31] := by cbv

end Template

end Stencil
