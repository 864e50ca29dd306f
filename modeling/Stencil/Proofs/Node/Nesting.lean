import Mathlib
import Stencil.Proofs.Node.Following

namespace Stencil

open Instruction (Fresh mark)

def Mark.sample : Mark → Instruction
  | .plain => .place (.newline 0)
  | .opens .capture => .begin (.capture "") 0
  | .opens .loop => .begin (.loop "" (.literal .null 0)) 0
  | .opens .branch => .begin (.branch [] (.literal .null 0) false) 0
  | .elsif => .otherwiseIf (.literal .null 0) 0
  | .otherwise => .otherwise 0
  | .closes kind => .finish kind 0

theorem Mark.mark_sample (m : Mark) : m.sample.mark = m := by
  cases m with
  | opens kind => cases kind <;> rfl
  | plain | elsif | otherwise | closes => rfl

theorem Mark.fresh_sample (m : Mark) : Fresh m.sample := by
  cases m with
  | opens kind =>
      cases kind with
      | branch => exact ⟨rfl, rfl⟩
      | capture | loop => trivial
  | plain | elsif | otherwise | closes => trivial

namespace Draft

variable {is : List Instruction} {i : Instruction} {d : Draft} {e : ParseError}

/-- Every open block can be ended. The induction is on the blocks, since ending one changes the body of
the next. -/
theorem run_finishes (kinds : List BlockKind) (h : d.levels.map (·.block.kind) = kinds) :
    ∃ ns, (kinds.map (Instruction.finish · 0)).foldlM apply d = .ok ⟨[], ns⟩ := by
  induction kinds generalizing d with
  | nil =>
      obtain ⟨levels, ns⟩ := d
      obtain rfl := List.map_eq_nil_iff.1 h
      exact ⟨ns, rfl⟩
  | cons kind kinds ih =>
      obtain ⟨levels, ns⟩ := d
      obtain ⟨l, rest, rfl, hl, hrest⟩ := List.map_eq_cons_iff.1 h
      have hclose : close ⟨l :: rest, ns⟩ kind = some (place ⟨rest, ns⟩ l.toNode) := if_pos hl
      have hkinds : (place ⟨rest, ns⟩ l.toNode).levels.map (·.block.kind) = kinds := by
        cases rest <;> exact hrest
      obtain ⟨more, hm⟩ := ih hkinds
      refine ⟨more, ?_⟩
      rw [List.map_cons, List.foldlM_cons, apply, hclose]
      exact hm

theorem viable_of_run (hf : ∀ i ∈ is, Fresh i) (h : is.foldlM apply empty = .ok d) :
    Mark.Viable (is.map mark) := by
  obtain ⟨ns, hrun⟩ := run_finishes (d.levels.map (·.block.kind)) rfl
  have hall : (is ++ (d.levels.map (·.block.kind)).map (Instruction.finish · 0)).foldlM apply empty =
      .ok ⟨[], ns⟩ := by
    rw [List.foldlM_append, h]
    exact hrun
  refine ⟨((d.levels.map (·.block.kind)).map (Instruction.finish · 0)).map mark, ?_⟩
  rw [← List.map_append]
  refine ((run_empty_iff ?_).1 hall).sentence
  refine List.forall_mem_append.2 ⟨hf, ?_⟩
  intro i hi
  obtain ⟨kind, -, rfl⟩ := List.mem_map.1 hi
  trivial

/-- What is refused is refused whatever follows, for some instructions have the marks that follow. -/
theorem not_viable_of_apply (hf : ∀ j ∈ is ++ [i], Fresh j) (h : is.foldlM apply empty = .ok d)
    (hi : d.apply i = .error e) : ¬Mark.Viable ((is ++ [i]).map mark) := by
  rintro ⟨more, hs⟩
  have hmarks : (more.map Mark.sample).map mark = more := by
    rw [List.map_map]
    exact (List.map_congr_left fun m _ => m.mark_sample).trans (List.map_id more)
  rw [← hmarks, ← List.map_append] at hs
  have hsample : ∀ j ∈ more.map Mark.sample, Fresh j := by
    intro j hj
    obtain ⟨m, -, rfl⟩ := List.mem_map.1 hj
    exact m.fresh_sample
  obtain ⟨ns, hd⟩ := exists_derives hs _ rfl (List.forall_mem_append.2 ⟨hf, hsample⟩)
  have hrun := hd.run empty
  rw [List.append_assoc, List.foldlM_append, h] at hrun
  replace hrun : List.foldlM apply d ([i] ++ more.map Mark.sample) = .ok (ns.foldl place empty) := hrun
  rw [List.singleton_append, List.foldlM_cons, hi] at hrun
  cases hrun

theorem error_of_apply {keyword : String} {o : Nat} (hs : i.Spelled keyword o)
    (h : d.apply i = .error e) : e = (ParseFault.unexpectedTag keyword).at o := by
  have hnone {k : String} {n : Nat} {d? : Option Draft} (h : orUnexpected k n d? = .error e) :
      e = (ParseFault.unexpectedTag k).at n := by
    cases d? with
    | none => exact (Except.error.inj h).symm
    | some d' => cases h
  cases i with
  | place n => cases h
  | begin block n => cases h
  | otherwiseIf c n | otherwise n | finish kind n =>
      obtain ⟨rfl, rfl⟩ := hs
      exact hnone h

theorem exists_open_of_finish (h : Built is d) (he : d.finish = .error e) :
    ∃ before block o after hasElse, is = before ++ .begin block o :: after ∧
      Mark.Inside block.kind hasElse (after.map mark) ∧
        e = (ParseFault.unclosedBlock block.kind.keyword).at o := by
  cases h with
  | outside h => cases he
  | inside h hl =>
      obtain rfl := Except.error.inj he
      cases hl with
      | capture hb => exact ⟨_, _, _, _, _, rfl, .body hb.sentence, rfl⟩
      | loop hb => exact ⟨_, _, _, _, _, rfl, .body hb.sentence, rfl⟩
      | branch ha => exact ⟨_, _, _, _, _, rfl, ha.inside, rfl⟩

end Draft

namespace Region

/-- The error names the first keyword that no continuation of the keywords before it allows. -/
def Unexpected (regions : List Region) (e : ParseError) : Prop :=
  ∃ before r after, regions = before ++ r :: after ∧ Mark.Viable (before.map mark) ∧
    ¬Mark.Viable ((before ++ [r]).map mark) ∧
      e = (ParseFault.unexpectedTag r.keyword).at r.keywordOffset

def Unclosed (regions : List Region) (e : ParseError) : Prop :=
  Mark.Viable (regions.map mark) ∧ ∃ before r after kind hasElse,
    regions = before ++ r :: after ∧ r.mark = .opens kind ∧
      Mark.Inside kind hasElse (after.map mark) ∧
        e = (ParseFault.unclosedBlock r.keyword).at r.keywordOffset

variable {regions : List Region} {is : List Instruction}

theorem map_mark_eq (h : regions.mapM Instruction.ofRegion = .ok is) :
    regions.map mark = is.map Instruction.mark ∧ ∀ i ∈ is, Fresh i := by
  induction regions generalizing is with
  | nil =>
      obtain rfl := Except.ok.inj h
      exact ⟨rfl, List.forall_mem_nil _⟩
  | cons r regions ih =>
      obtain ⟨i, is, hr, hrs, rfl⟩ := Except.of_mapM_cons h
      obtain ⟨hs, hf⟩ := Instruction.spelled_of_ofRegion hr
      obtain ⟨hmarks, hfresh⟩ := ih hrs
      refine ⟨?_, List.forall_mem_cons.2 ⟨hf, hfresh⟩⟩
      rw [List.map_cons, List.map_cons, hmarks, mark, hs.mark_eq]

theorem foldlM_step_eq (h : regions.mapM Instruction.ofRegion = .ok is) (d : Draft) :
    regions.foldlM Draft.step d = is.foldlM Draft.apply d := by
  induction regions generalizing is d with
  | nil =>
      obtain rfl := Except.ok.inj h
      rfl
  | cons r regions ih =>
      obtain ⟨i, is, hr, hrs, rfl⟩ := Except.of_mapM_cons h
      have hstep : d.step r = d.apply i := by
        rw [Draft.step, hr]
        rfl
      rw [List.foldlM_cons, List.foldlM_cons, hstep]
      exact congrArg (d.apply i >>= ·) (funext fun d' => ih hrs d')

theorem exists_region {before after : List Instruction} {i : Instruction}
    (h : regions.mapM Instruction.ofRegion = .ok (before ++ i :: after)) :
    ∃ rs r rs', regions = rs ++ r :: rs' ∧ rs.mapM Instruction.ofRegion = .ok before ∧
      Instruction.ofRegion r = .ok i ∧ rs'.mapM Instruction.ofRegion = .ok after := by
  obtain ⟨rs, tail, rfl, hrs, htail⟩ := Except.of_mapM_append h
  cases tail with
  | nil => cases htail
  | cons r rs' =>
      obtain ⟨i', is', hr, hrs', he⟩ := Except.of_mapM_cons htail
      obtain ⟨rfl, rfl⟩ := List.cons.inj he
      exact ⟨rs, r, rs', rfl, hrs, hr, hrs'⟩

theorem unexpected_of_run {e : ParseError} (h : regions.mapM Instruction.ofRegion = .ok is)
    (hrun : is.foldlM Draft.apply Draft.empty = .error e) : Unexpected regions e := by
  obtain ⟨before, i, after, d, rfl, hbefore, hi⟩ := Except.of_foldlM_error hrun
  obtain ⟨rs, r, rs', rfl, hrs, hr, -⟩ := exists_region h
  obtain ⟨hmarks, hf⟩ := map_mark_eq hrs
  obtain ⟨hs, hfi⟩ := Instruction.spelled_of_ofRegion hr
  refine ⟨rs, r, rs', rfl, ?_, ?_, Draft.error_of_apply hs hi⟩
  · rw [hmarks]
    exact Draft.viable_of_run hf hbefore
  · have hall : (rs ++ [r]).map mark = (before ++ [i]).map Instruction.mark := by
      rw [List.map_append, List.map_append, hmarks, List.map_singleton, List.map_singleton,
        mark, hs.mark_eq]
    rw [hall]
    refine Draft.not_viable_of_apply (List.forall_mem_append.2 ⟨hf, ?_⟩) hbefore hi
    exact List.forall_mem_singleton.2 hfi

theorem unclosed_of_finish {d : Draft} {e : ParseError} (h : regions.mapM Instruction.ofRegion = .ok is)
    (hrun : is.foldlM Draft.apply Draft.empty = .ok d) (he : d.finish = .error e) :
    Unclosed regions e := by
  obtain ⟨hmarks, hf⟩ := map_mark_eq h
  have hb : Built is d := (Built.outside Derives.nil).run hf hrun
  obtain ⟨before, block, o, after, hasElse, rfl, hinside, rfl⟩ := Draft.exists_open_of_finish hb he
  obtain ⟨rs, r, rs', rfl, -, hr, hrs'⟩ := exists_region h
  obtain ⟨hs, -⟩ := Instruction.spelled_of_ofRegion hr
  obtain ⟨hkeyword, hoffset⟩ := id hs
  refine ⟨?_, rs, r, rs', block.kind, hasElse, rfl, hs.mark_eq, ?_, ?_⟩
  · rw [hmarks]
    exact Draft.viable_of_run hf hrun
  · rw [(map_mark_eq hrs').1]
    exact hinside
  · rw [hkeyword, hoffset]

end Region

/-- Reading the nodes of a source whose regions are all well-formed by themselves. It succeeds exactly on
the sentences of the grammar and then gives the one derivation. Otherwise the error names the first
keyword that cannot be continued, or the innermost block that is open at the end. -/
theorem parseNodes_follows_grammar {skipNewline : Bool} {source : String} {is : List Instruction}
    (h : (Region.scan skipNewline 0 source.toList).mapM Instruction.ofRegion = .ok is) :
    let regions := Region.scan skipNewline 0 source.toList
    ((∃ ns, parseNodes skipNewline source = .ok ns) ↔ Mark.Sentence (regions.map Region.mark)) ∧
      (∀ ns, parseNodes skipNewline source = .ok ns ↔ Derives is ns) ∧
        ∀ e, parseNodes skipNewline source = .error e →
          Region.Unexpected regions e ∨ Region.Unclosed regions e := by
  intro regions
  obtain ⟨hmarks, hf⟩ := Region.map_mark_eq h
  have hparse : parseNodes skipNewline source =
      is.foldlM Draft.apply Draft.empty >>= Draft.finish := by
    rw [parseNodes, Region.foldlM_step_eq h]
  have hok : ∀ ns, parseNodes skipNewline source = .ok ns ↔ Derives is ns := by
    intro ns
    rw [hparse, ← run_empty_iff hf]
    constructor
    · intro hp
      obtain ⟨⟨levels, nodes⟩, hrun, hfinish⟩ := Except.of_bind_ok hp
      cases levels with
      | nil =>
          obtain rfl := Except.ok.inj hfinish
          exact hrun
      | cons l levels => cases hfinish
    · intro hrun
      rw [hrun]
      rfl
  refine ⟨?_, hok, ?_⟩
  · rw [hmarks, sentence_iff_exists_derives hf]
    exact exists_congr hok
  · intro e he
    rw [hparse] at he
    rcases Except.of_bind_error he with hrun | ⟨d, hrun, hfinish⟩
    · exact .inl (Region.unexpected_of_run h hrun)
    · exact .inr (Region.unclosed_of_finish h hrun hfinish)

def nestedSource : String :=
  "\x7b% for x in y %\x7d\x7b% if x %\x7da\x7b% else %\x7db\x7b% endif %\x7d\x7b% endfor %\x7d"

def nestedInstructions : List Instruction :=
  [.begin (.loop "x" (.variable "y" 12)) 3, .begin (.branch [] (.variable "x" 22) false) 19,
    .place (.text "a" 26), .otherwise 30, .place (.text "b" 37), .finish .branch 41, .finish .loop 52]

def nestedNodes : List Node :=
  [.loop "x" (.variable "y" 12)
    [.branch [(.variable "x" 22, [.text "a" 26]), (.literal (.bool true) 30, [.text "b" 37])] 19] 3]

theorem parseNodes_follows_grammar_nested :
    (Region.scan false 0 nestedSource.toList).mapM Instruction.ofRegion = .ok nestedInstructions ∧
      Mark.Sentence ((Region.scan false 0 nestedSource.toList).map Region.mark) ∧
        Derives nestedInstructions nestedNodes := by
  have h : (Region.scan false 0 nestedSource.toList).mapM Instruction.ofRegion =
      .ok nestedInstructions := by cbv
  have hparse : parseNodes false nestedSource = .ok nestedNodes := by cbv
  obtain ⟨hsentence, hderives, -⟩ := parseNodes_follows_grammar h
  exact ⟨h, hsentence.1 ⟨_, hparse⟩, (hderives _).1 hparse⟩

end Stencil
