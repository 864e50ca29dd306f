import Stencil.Proofs.Expr.Text
import Stencil.Proofs.Node.Reworded
import Stencil.Proofs.Node.Flat
import Stencil.Proofs.Node.Marked

namespace Stencil

theorem Text.trimLeft_joinLineEnds (cs : List Char) : trimLeft (joinLineEnds cs) = joinLineEnds (trimLeft cs) :=
  dropWhile_joinLineEnds_of_blank rfl rfl cs

theorem Instruction.ofTag_joinLineEnds {offset : Nat} {cs : List Char} {i : Instruction}
    (h : ofTag offset cs = .ok i) (offset' : Nat) : ∃ j, ofTag offset' (Text.joinLineEnds cs) = .ok j := by
  have hword : (Text.trimLeft (Text.joinLineEnds cs)).takeWhile Token.isWordPart =
      (Text.trimLeft cs).takeWhile Token.isWordPart := by
    rw [Text.trimLeft_joinLineEnds, Text.takeWhile_joinLineEnds rfl rfl]
  obtain ⟨j, hj, -⟩ := ofTag_reworded (r := .joined) h hword fun ts hts => by
    obtain ⟨us, hus, halike⟩ := Token.scan_joinLineEnds hts offset'
    exact ⟨us, hus, Token.alike_iff_rejoined.1 halike⟩
  exact ⟨j, hj⟩

namespace Region

inductive JoinedTo : Region → Region → Prop
  | text {o o' : Nat} {cs : List Char} : JoinedTo (.text o cs) (.text o' (Text.joinLineEnds cs))
  | output {o o' : Nat} {cs : List Char} : JoinedTo (.output o cs) (.output o' (Text.joinLineEnds cs))
  | tag {o o' : Nat} {cs : List Char} : JoinedTo (.tag o cs) (.tag o' (Text.joinLineEnds cs))

variable {r r' : Region} {regions : List Region} {skip : Bool} {o : Nat} {a b : Char}
  {cs body run rest : List Char}

theorem JoinedTo.mark_eq (h : JoinedTo r r') : r'.mark = r.mark := by
  cases h with
  | text | output => rfl
  | tag =>
      rw [mark, mark, keyword, keyword, Text.trimLeft_joinLineEnds, Text.takeWhile_joinLineEnds rfl rfl]

theorem JoinedTo.ofRegion_ok (h : JoinedTo r r') {i : Instruction} (hi : Instruction.ofRegion r = .ok i) :
    ∃ j, Instruction.ofRegion r' = .ok j := by
  cases h with
  | text => exact ⟨_, rfl⟩
  | output =>
      obtain ⟨ts, hts, hi⟩ := Except.of_bind_ok hi
      obtain ⟨e, he, -⟩ := Except.of_bind_ok hi
      obtain ⟨us, hus, halike⟩ := Token.scan_joinLineEnds hts _
      obtain ⟨f, hf, -⟩ := Rewording.joined.read he (Token.alike_iff_rejoined.1 halike) _
      rw [Instruction.ofRegion, hus]
      dsimp only [bind, Except.bind]
      rw [hf]
      exact ⟨_, rfl⟩
  | tag => exact Instruction.ofTag_joinLineEnds hi _

/-- A mark is never cut by a line end. -/
theorem splitAtMark_joinLineEnds (ha : a ≠ '\n') (hr : a ≠ '\r') (hb : b ≠ '\n') (hr' : b ≠ '\r')
    (h : splitAtMark a b cs = some (body, rest)) :
    splitAtMark a b (Text.joinLineEnds cs) = some (Text.joinLineEnds body, Text.joinLineEnds rest) := by
  obtain ⟨rfl, hmark⟩ := splitAtMark_spec h
  have hbehind (ds : List Char) : Text.joinLineEnds (body ++ a :: ds) =
      Text.joinLineEnds body ++ a :: Text.joinLineEnds ds := by
    rw [Text.joinLineEnds_append body (by simpa using ha), Text.joinLineEnds_cons (by simp [hr])]
  rw [hbehind, Text.joinLineEnds_cons (by simp [hr'])]
  refine splitAtMark_eq (fun hi => hmark (Text.infix_of_joinLineEnds hb ?_)) _
  rwa [hbehind]

theorem head?_dropWhile_brace (cs : List Char) : ∀ x ∈ (cs.dropWhile (· ≠ '\x7b')).head?, x = '\x7b' := by
  intro x hx
  have hstop := List.head?_dropWhile_not (· ≠ '\x7b') cs
  rw [Option.mem_def.1 hx] at hstop
  simpa using hstop

section run

variable (hne : run ≠ []) (hrun : ∀ x ∈ run, x ≠ '\x7b') (hrest : ∀ x ∈ rest.head?, x = '\x7b')
include hne hrun hrest

/-- A literal text up to a brace or to the end. -/
theorem scan_run_append (skip : Bool) (o : Nat) :
    scan skip o (run ++ rest) = if rest = ['\x7b'] then [.text o (run ++ rest)]
      else .text o run :: scan skip (o + Text.byteLength run) rest := by
  obtain ⟨c, run, rfl⟩ := List.exists_cons_of_ne_nil hne
  obtain ⟨hc, hrun⟩ := List.forall_mem_cons.1 hrun
  have hpos : ∀ x ∈ run, (decide (x ≠ '\x7b')) = true := fun x hx => decide_eq_true (hrun x hx)
  have hstop : rest.takeWhile (· ≠ '\x7b') = [] ∧ rest.dropWhile (· ≠ '\x7b') = rest := by
    cases rest with
    | nil => exact ⟨rfl, rfl⟩
    | cons d rest =>
        obtain rfl := hrest d rfl
        exact ⟨rfl, rfl⟩
  rw [List.cons_append, scan_run hc, List.takeWhile_append_of_pos hpos, List.dropWhile_append_of_pos hpos,
    hstop.1, hstop.2, List.append_nil]

theorem scan_joinLineEnds_run (skip : Bool) (o : Nat) :
    scan skip o (Text.joinLineEnds (run ++ rest)) =
      if rest = ['\x7b'] then [.text o (Text.joinLineEnds (run ++ rest))]
      else .text o (Text.joinLineEnds run) ::
        scan skip (o + Text.byteLength (Text.joinLineEnds run)) (Text.joinLineEnds rest) := by
  have hstart : rest.head? ≠ some '\n' := fun hn => absurd (hrest _ hn) (by decide)
  have hjoined : ∀ x ∈ (Text.joinLineEnds rest).head?, x = '\x7b' := by
    cases rest with
    | nil => exact nofun
    | cons d rest =>
        obtain rfl := hrest d rfl
        rw [Text.joinLineEnds_cons (by simp)]
        exact hrest
  have hlast : Text.joinLineEnds rest = ['\x7b'] ↔ rest = ['\x7b'] := by
    cases rest with
    | nil => rfl
    | cons d rest =>
        obtain rfl := hrest d rfl
        rw [Text.joinLineEnds_cons (by simp), List.cons_inj_right, List.cons_inj_right,
          Text.joinLineEnds_eq_nil_iff]
  rw [Text.joinLineEnds_append run hstart, scan_run_append (mt Text.joinLineEnds_eq_nil_iff.1 hne)
    (fun x hx => hrun x (Text.mem_of_joinLineEnds hx)) hjoined, if_congr hlast rfl rfl]

end run

theorem scan_joinedTo (h : ∀ r ∈ scan false o cs, r.Closed) (o' : Nat) :
    List.Forall₂ JoinedTo (scan false o cs) (scan false o' (Text.joinLineEnds cs)) := by
  fun_induction scan false o cs generalizing o' with
  | case1 =>
      rw [Text.joinLineEnds, scan]
      exact .nil
  | case2 => exact (h _ (List.mem_singleton_self _)).elim
  | case3 o cs body rest hsplit _ ih =>
      rw [Text.joinLineEnds_cons (by simp), Text.joinLineEnds_cons (by simp),
        scan_output (splitAtMark_joinLineEnds (by decide) (by decide) (by decide) (by decide) hsplit)]
      exact .cons .output (ih (List.forall_mem_cons.1 h).2 _)
  | case4 => exact (h _ (List.mem_singleton_self _)).elim
  | case5 o cs body rest hsplit _ _ next ih =>
      have hnext : next = rest := afterTag_false rest
      rw [Text.joinLineEnds_cons (by simp), Text.joinLineEnds_cons (by simp),
        scan_tag (splitAtMark_joinLineEnds (by decide) (by decide) (by decide) (by decide) hsplit)]
      rw [hnext] at ih h ⊢
      rw [afterTag_false]
      exact .cons .tag (ih (List.forall_mem_cons.1 h).2 _)
  | case6 o c cs hbrace hpercent ih =>
      have hfirst : ∃ d ds, Text.joinLineEnds (c :: cs) = d :: ds ∧ d ≠ '\x7b' ∧ d ≠ '%' := by
        by_cases hc : c = '\r' ∧ cs.head? = some '\n'
        · obtain ⟨rfl, hn⟩ := hc
          obtain ⟨cs, rfl⟩ := List.head?_eq_some_iff.1 hn
          exact ⟨_, _, rfl, by decide, by decide⟩
        · exact ⟨c, _, Text.joinLineEnds_cons hc, hbrace, hpercent⟩
      obtain ⟨d, ds, hds, hd, hp⟩ := hfirst
      have hrest := ih (List.forall_mem_cons.1 h).2 (o' + 1)
      rw [hds] at hrest
      rw [Text.joinLineEnds_cons (by simp), hds, scan_brace hd hp]
      exact .cons .text hrest
  | case7 o c cs h₁ h₂ h₃ rest _ hrest =>
      have hcs : c :: cs = (c :: cs.takeWhile (· ≠ '\x7b')) ++ ['\x7b'] := by
        rw [← hrest]
        exact (run_append_rest c cs).symm
      have hrun : ∀ x ∈ c :: cs.takeWhile (· ≠ '\x7b'), x ≠ '\x7b' := ne_brace_of_run (ne_brace_of_last h₃ hrest)
      have hbrace : ∀ x ∈ ['\x7b'].head?, x = '\x7b' := by simp
      have hscan := scan_joinLineEnds_run (List.cons_ne_nil _ _) hrun hbrace false o'
      rw [if_pos rfl, ← hcs] at hscan
      rw [hscan]
      exact .cons .text .nil
  | case8 o c cs h₁ h₂ h₃ run rest _ hrest ih =>
      have hcs : c :: cs = run ++ rest := (run_append_rest c cs).symm
      by_cases hc : c = '\x7b'
      · cases cs with
        | nil =>
            have hrun : run = ['\x7b'] := congrArg (· :: []) hc
            have hrest : rest = [] := rfl
            rw [hc, Text.joinLineEnds_cons (by simp), Text.joinLineEnds, scan_brace_nil, hrun, hrest, scan]
            exact .cons .text .nil
        | cons d cs => exact (h₃ d cs hc rfl).elim
      · rw [hcs, scan_joinLineEnds_run (List.cons_ne_nil _ _) (ne_brace_of_run hc) (head?_dropWhile_brace cs),
          if_neg hrest]
        exact .cons .text (ih (List.forall_mem_cons.1 h).2 _)

theorem exists_instructions_of_joinedTo {regions' : List Region} (h : List.Forall₂ JoinedTo regions regions')
    {is : List Instruction} (his : regions.mapM Instruction.ofRegion = .ok is) :
    ∃ js, regions'.mapM Instruction.ofRegion = .ok js := by
  induction h generalizing is with
  | nil => exact ⟨[], rfl⟩
  | cons hr _ ih =>
      obtain ⟨i, is, hi, his, -⟩ := Except.of_mapM_cons his
      obtain ⟨j, hj⟩ := hr.ofRegion_ok hi
      obtain ⟨js, hjs⟩ := ih his
      exact ⟨j :: js, by rw [List.mapM_cons, hj, hjs]; rfl⟩

theorem map_mark_of_joinedTo {regions' : List Region} (h : List.Forall₂ JoinedTo regions regions') :
    regions'.map mark = regions.map mark := by
  induction h with
  | nil => rfl
  | cons hr _ ih => rw [List.map_cons, List.map_cons, hr.mark_eq, ih]

end Region

theorem parseNodes_of_derives {skip : Bool} {source : String} {is : List Instruction} {ns : List Node}
    (h : (Region.scan skip 0 source.toList).mapM Instruction.ofRegion = .ok is) (hd : Derives is ns) :
    parseNodes skip source = .ok ns := by
  rw [parseNodes, Region.foldlM_step_eq h, (run_empty_iff (Region.map_mark_eq h).2).2 hd]
  rfl

theorem parseNodes_withUnixLines {source : String} {ns : List Node} (h : parseNodes false source = .ok ns) :
    ∃ ns', parseNodes false (Text.withUnixLines source) = .ok ns' := by
  obtain ⟨is, his, hd⟩ := exists_derives_of_parseNodes h
  have hjoins := Region.scan_joinedTo (Region.closed_of_mapM his) 0
  obtain ⟨js, hjs⟩ := Region.exists_instructions_of_joinedTo hjoins his
  obtain ⟨hmarks, hfresh⟩ := Region.map_mark_eq his
  obtain ⟨hmarks', hfresh'⟩ := Region.map_mark_eq hjs
  have hsentence : Mark.Sentence (js.map Instruction.mark) := by
    rw [← hmarks', Region.map_mark_of_joinedTo hjoins, hmarks, sentence_iff_exists_derives hfresh]
    exact ⟨ns, hd⟩
  obtain ⟨ns', hd'⟩ := (sentence_iff_exists_derives hfresh').1 hsentence
  rw [← String.toList_ofList (l := Text.joinLineEnds source.toList)] at hjs
  exact ⟨ns', parseNodes_of_derives hjs hd'⟩

namespace Template

variable {path : Option String} {text : String} {t : Template}

theorem parse_plain_eq_ok_iff : parse .plain path text = .ok t ↔
    ∃ ns, parseNodes false (Text.withUnixLines text) = .ok ns ∧ t = ⟨Text.withUnixLines text, path, ns⟩ := by
  simp only [parse, ParserOptions.plain]
  cases parseNodes false (Text.withUnixLines text) with
  | error e => simp
  | ok ns => simp [eq_comm]

theorem toList_withUnixLines (source : String) :
    (Text.withUnixLines source).toList = Text.joinLineEnds source.toList :=
  String.toList_ofList

/-- The source of a template can be parsed again. What comes of it has the same source just if the text nowhere had
two carriage returns before a newline, and then it has the same nodes. Elsewhere a line end is left in the source. -/
theorem parse_source_again (h : parse .plain path text = .ok t) (path' : Option String) :
    (['\r', '\n'] <:+: t.source.toList ↔ ['\r', '\r', '\n'] <:+: text.toList) ∧
      ∃ u, parse .plain path' t.source = .ok u ∧
        (u.source = t.source ↔ ¬['\r', '\r', '\n'] <:+: text.toList) ∧ (u.source = t.source → u.nodes = t.nodes) := by
  obtain ⟨ns, hns, rfl⟩ := parse_plain_eq_ok_iff.1 h
  obtain ⟨ns', hns'⟩ := parseNodes_withUnixLines hns
  have hleft : ['\r', '\n'] <:+: (Text.withUnixLines text).toList ↔ ['\r', '\r', '\n'] <:+: text.toList := by
    rw [toList_withUnixLines, Text.infix_joinLineEnds_iff]
  have hsame : Text.withUnixLines (Text.withUnixLines text) = Text.withUnixLines text ↔
      ¬['\r', '\r', '\n'] <:+: text.toList := by
    rw [← hleft, ← Text.joinLineEnds_eq_self_iff, ← String.toList_inj, toList_withUnixLines]
  refine ⟨hleft, ⟨_, path', ns'⟩, parse_plain_eq_ok_iff.2 ⟨ns', hns', rfl⟩, hsame, fun hsource => ?_⟩
  rw [show Text.withUnixLines (Text.withUnixLines text) = Text.withUnixLines text from hsource, hns] at hns'
  exact (Except.ok.inj hns').symm

/-- Line ends in a text, in a tag and in a string, and a carriage return that is none. -/
theorem parse_source_again_lines :
    parse .plain none "a\r\n\r\x7b\x7b\r\n 'b\r\n' \x7d\x7d" =
        .ok ⟨"a\n\r\x7b\x7b\n 'b\n' \x7d\x7d", none, [.text "a\n\r" 0, .output (.literal (.string "b\n") 7)]⟩ ∧
      ∃ u, parse .plain none "a\n\r\x7b\x7b\n 'b\n' \x7d\x7d" = .ok u ∧
        u.source = "a\n\r\x7b\x7b\n 'b\n' \x7d\x7d" ∧
          u.nodes = [.text "a\n\r" 0, .output (.literal (.string "b\n") 7)] := by
  have h : parse .plain none "a\r\n\r\x7b\x7b\r\n 'b\r\n' \x7d\x7d" =
      .ok ⟨"a\n\r\x7b\x7b\n 'b\n' \x7d\x7d", none, [.text "a\n\r" 0, .output (.literal (.string "b\n") 7)]⟩ := by
    cbv
  obtain ⟨-, u, hu, hsource, hnodes⟩ := parse_source_again h none
  have hsame := hsource.2 (by decide)
  exact ⟨h, u, hu, hsame, hnodes hsame⟩

/-- Of two carriage returns before a newline each pass drops one. -/
theorem source_of_doubled_return : ∃ t u,
    parse .plain none "\r\r\n" = .ok t ∧ parse .plain none t.source = .ok u ∧
      u.source ≠ t.source ∧ u.nodes ≠ t.nodes ∧ ['\r', '\n'] <:+: t.source.toList := by
  refine ⟨⟨"\r\n", none, [.text "\r\n" 0]⟩, ⟨"\n", none, [.text "\n" 0]⟩, by cbv, by cbv, by decide, ?_, by decide⟩
  simp

end Template

end Stencil
