import Stencil.Proofs.Expr.Blame
import Stencil.Proofs.Node.Pieces
import Stencil.Proofs.Token.Laid

namespace Stencil

open Token (Within)

theorem Token.blames_scan {source cs : List Char} {o : Nat} (h : Text.StandsAt source o cs) :
    Blames (Text.IsBoundary source) (scan o cs) := by
  intro e he
  obtain ⟨ts, n, c, rest, hscanned, hstuck⟩ := scan_eq_error_iff.1 he
  have hrest := hscanned.rest_standsAt h
  cases hstuck with
  | character => exact hrest.isBoundary
  | quote hq =>
      have hbehind := hrest.tail.isBoundary
      rwa [utf8Size_of_quote hq] at hbehind

theorem Token.within_of_scan {source cs : List Char} {o : Nat} {ts : List Token}
    (h : Text.StandsAt source o cs) (hs : scan o cs = .ok ts) : Within (Text.IsBoundary source) ts :=
  fun t ht => ((scan_eq_ok_iff.1 hs).standsAt h t ht).isBoundary

namespace Instruction

variable {P : Nat → Prop} {ts : List Token} {offset stop : Nat}

theorem blames_expectNone (hts : Within P ts) : Blames P (expectNone ts) := by
  cases ts with
  | nil => exact .ok _
  | cons t ts => exact .fault _ hts.cons.1

theorem blames_expectName (fault : ParseFault) (hts : Within P ts) (hstop : P stop) :
    Blames P (expectName fault ts stop) := by
  cases ts with
  | nil => exact .fault _ hstop
  | cons t ts =>
      rw [expectName]
      split
      · exact .ok _
      · exact .fault _ hts.cons.1

theorem blames_bare (i : Instruction) (hts : Within P ts) : Blames P (bare i ts) :=
  (blames_expectNone hts).bind fun _ _ => .ok _

theorem blames_assign (hts : Within P ts) (hstop : P stop) : Blames P (assign offset ts stop) := by
  refine (blames_expectName _ hts hstop).bind fun r hr => ?_
  obtain ⟨name, rest⟩ := r
  have hrest : Within P rest := fun t ht => hts t (rest_subset_of_expectName hr ht)
  cases rest with
  | nil => exact .fault _ hstop
  | cons sign rest =>
      obtain ⟨hsign, hrest⟩ := hrest.cons
      refine .check hsign fun _ => ?_
      have htokens : Within P (splitSelector rest).2 := fun t ht => hrest t (splitSelector_subset rest ht)
      exact (Expr.blames_ofTokens _ stop htokens hstop).bind fun _ _ => .ok _

theorem blames_capture (hts : Within P ts) (hstop : P stop) : Blames P (capture offset ts stop) := by
  refine (blames_expectName _ hts hstop).bind fun r hr => ?_
  obtain ⟨name, rest⟩ := r
  have hrest : Within P rest := fun t ht => hts t (rest_subset_of_expectName hr ht)
  exact (blames_expectNone hrest).bind fun _ _ => .ok _

theorem blames_loop (ho : P offset) (hts : Within P ts) (hstop : P stop) : Blames P (loop offset ts stop) := by
  refine (blames_expectName _ hts hstop).bind fun r hr => ?_
  obtain ⟨name, rest⟩ := r
  have hrest : Within P rest := fun t ht => hts t (rest_subset_of_expectName hr ht)
  cases rest with
  | nil => exact .fault _ ho
  | cons word rest =>
      refine .check ho fun _ => ?_
      exact (Expr.blames_ofTokens _ stop hrest.cons.2 hstop).bind fun _ _ => .ok _

/-- A value is blamed up to the argument behind it. The induction is on the number of tokens. -/
theorem blames_embedArguments (hts : Within P ts) (hstop : P stop) : Blames P (embedArguments ts stop) := by
  induction hn : ts.length using Nat.strongRecOn generalizing ts with
  | ind n ih =>
      subst hn
      cases ts with
      | nil =>
          rw [embedArguments]
          exact .ok _
      | cons key rest =>
          obtain ⟨hkey, hrest⟩ := hts.cons
          rw [embedArguments.eq_def]
          dsimp only
          refine .check hkey fun _ => ?_
          cases rest with
          | nil => exact .fault _ hkey
          | cons sign rest =>
              refine .check hkey fun _ => ?_
              obtain ⟨hvalue, hleft⟩ := takeValue_subset true 0 rest
              have hbehind : Within P (takeValue true 0 rest).2 := fun t ht => hrest.cons.2 t (hleft ht)
              have hlimit : P (((takeValue true 0 rest).2.head?.map Token.offset).getD stop) := by
                cases hhead : (takeValue true 0 rest).2 with
                | nil => exact hstop
                | cons t more => exact (hhead ▸ hbehind).cons.1
              have hlt : (dropComma (takeValue true 0 rest).2).length < (key :: sign :: rest).length := by
                have := length_dropComma_le (takeValue true 0 rest).2
                have := length_takeValue_le true 0 rest
                simp only [List.length_cons]
                omega
              have hmore : Within P (dropComma (takeValue true 0 rest).2) := fun t ht =>
                hbehind t (dropComma_subset _ ht)
              refine (Expr.blames_ofTokens _ _ (fun t ht => hrest.cons.2 t (hvalue ht)) hlimit).bind fun _ _ => ?_
              exact (ih _ hlt hmore rfl).bind fun _ _ => .ok _

theorem blames_embedWith (name : String) (hts : Within P ts) (hstop : P stop) :
    Blames P (embedWith name offset ts stop) := by
  cases ts with
  | nil => exact .ok _
  | cons word rest =>
      obtain ⟨hword, hrest⟩ := hts.cons
      refine .check hword fun _ => .check hstop fun _ => ?_
      exact (blames_embedArguments hrest hstop).bind fun _ _ => .ok _

theorem blames_embed (hts : Within P ts) (hstop : P stop) : Blames P (embed offset ts stop) := by
  cases ts with
  | nil => exact .fault _ hstop
  | cons t rest =>
      obtain ⟨ht, hrest⟩ := hts.cons
      rw [embed]
      split
      · exact blames_embedWith _ hrest hstop
      split
      · exact blames_embedWith _ (fun u hu => hrest u (dotted_subset t.text rest hu)) hstop
      · exact .fault _ ht

theorem blames_ofKeyword {keyword : Token} (hk : P keyword.offset) (hts : Within P ts) (hstop : P stop) :
    Blames P (ofKeyword keyword ts stop) := by
  unfold ofKeyword
  dsimp only
  split
  next => exact blames_assign hts hstop
  next => exact blames_capture hts hstop
  next => exact blames_bare _ hts
  next => exact (Expr.blames_ofTokens ts stop hts hstop).bind fun _ _ => .ok _
  next => exact (Expr.blames_ofTokens ts stop hts hstop).bind fun _ _ => .ok _
  next => exact blames_bare _ hts
  next => exact blames_bare _ hts
  next => exact blames_loop hk hts hstop
  case h_9 | h_10 | h_11 | h_12 | h_13 | h_14 => exact blames_bare _ hts
  next => exact blames_embed hts hstop
  next => exact .fault _ hk

variable {source : List Char} {r : Region} {i : Instruction}

theorem blames_ofRegion (h : r.StandsIn source) : Blames (Text.IsBoundary source) (ofRegion r) := by
  have hcontent := h.content
  have hstart := hcontent.isBoundary
  have hstop := hcontent.isBoundary_end
  cases r with
  | text o cs => exact .ok _
  | output o cs =>
      refine (Token.blames_scan hcontent).bind fun ts hts => ?_
      have hwithin := Token.within_of_scan hcontent hts
      exact (Expr.blames_ofTokens ts _ hwithin hstop).bind fun _ _ => .ok _
  | tag o cs =>
      rw [ofRegion, ofTag]
      dsimp only
      split
      · exact .ok _
      refine (Token.blames_scan hcontent).bind fun ts hts => ?_
      have hwithin := Token.within_of_scan hcontent hts
      cases ts with
      | nil => exact .fault _ hstart
      | cons keyword rest =>
          obtain ⟨hkeyword, hrest⟩ := hwithin.cons
          exact .check hkeyword fun _ => blames_ofKeyword hkeyword hrest hstop
  | unclosedOutput o => exact .fault _ hstart
  | unclosedTag o => exact .fault _ hstart

def At (P : Nat → Prop) : Instruction → Prop
  | .place _ => True
  | .begin _ o => P o
  | .otherwiseIf _ o => P o
  | .otherwise o => P o
  | .finish _ o => P o

theorem Says.at (h : i.Says offset ts) (ho : P offset) : i.At P := by
  cases h with
  | assign | embed | signal | newline => trivial
  | capture | loop | branch | otherwiseIf | otherwise | finish => exact ho

theorem at_of_ofRegion (hr : r.StandsIn source) (h : ofRegion r = .ok i) : i.At (Text.IsBoundary source) := by
  cases r with
  | text o cs =>
      obtain rfl := Except.ok.inj h
      trivial
  | output o cs =>
      obtain ⟨ts, -, h⟩ := Except.of_bind_ok h
      obtain ⟨e, -, h⟩ := Except.of_bind_ok h
      obtain rfl := Except.ok.inj h
      trivial
  | tag o cs =>
      rcases says_of_ofTag h with rfl | ⟨keyword, ts, hts, hs⟩
      · trivial
      · exact hs.at (Token.within_of_scan hr.content hts).cons.1
  | unclosedOutput | unclosedTag => cases h

end Instruction

namespace Draft

variable {P : Nat → Prop} {d d' : Draft} {i : Instruction}

def OpenAt (P : Nat → Prop) (d : Draft) : Prop :=
  ∀ l ∈ d.levels, P l.offset

theorem OpenAt.place (h : d.OpenAt P) (n : Node) : (d.place n).OpenAt P := by
  rw [Draft.place]
  split
  next => exact h
  next l rest hlevels =>
    rw [OpenAt, hlevels] at h
    obtain ⟨hl, hrest⟩ := List.forall_mem_cons.1 h
    exact List.forall_mem_cons.2 ⟨hl, hrest⟩

theorem blames_orUnexpected (keyword : String) {o : Nat} (ho : P o) (d? : Option Draft) :
    Blames P (orUnexpected keyword o d?) := by
  cases d? with
  | none => exact .fault _ ho
  | some d => exact .ok _

theorem blames_apply (hi : i.At P) : Blames P (d.apply i) := by
  cases i with
  | place n => exact .ok _
  | begin block o => exact .ok _
  | otherwiseIf condition o => exact blames_orUnexpected _ hi _
  | otherwise o => exact blames_orUnexpected _ hi _
  | finish kind o => exact blames_orUnexpected _ hi _

theorem OpenAt.nextArm {condition : Expr} {isLast : Bool} (h : d.OpenAt P)
    (hd : d.nextArm condition isLast = some d') : d'.OpenAt P := by
  rw [Draft.nextArm] at hd
  split at hd
  next arms current o body rest hlevels =>
    obtain rfl := Option.some.inj hd
    rw [OpenAt, hlevels] at h
    obtain ⟨hl, hrest⟩ := List.forall_mem_cons.1 h
    exact List.forall_mem_cons.2 ⟨hl, hrest⟩
  next => cases hd

theorem OpenAt.close {kind : BlockKind} (h : d.OpenAt P) (hd : d.close kind = some d') : d'.OpenAt P := by
  rw [Draft.close] at hd
  split at hd
  next l rest hlevels =>
    rw [OpenAt, hlevels] at h
    split at hd
    next =>
      obtain rfl := Option.some.inj hd
      exact OpenAt.place (d := { d with levels := rest }) (List.forall_mem_cons.1 h).2 _
    next => cases hd
  next => cases hd

theorem OpenAt.apply (h : d.OpenAt P) (hi : i.At P) (hd : d.apply i = .ok d') : d'.OpenAt P := by
  cases i with
  | place n =>
      obtain rfl := Except.ok.inj hd
      exact h.place n
  | begin block o =>
      obtain rfl := Except.ok.inj hd
      exact List.forall_mem_cons.2 ⟨hi, h⟩
  | otherwiseIf condition o => exact h.nextArm (of_orUnexpected_ok hd)
  | otherwise o => exact h.nextArm (of_orUnexpected_ok hd)
  | finish kind o => exact h.close (of_orUnexpected_ok hd)

/-- The induction is on the regions still to come, and it carries where the open blocks begin. -/
theorem blames_run {source : List Char} {regions : List Region} (hr : ∀ r ∈ regions, r.StandsIn source)
    (hd : d.OpenAt (Text.IsBoundary source)) :
    Blames (Text.IsBoundary source) (regions.foldlM step d >>= finish) := by
  induction regions generalizing d with
  | nil =>
      show Blames _ (finish d)
      rw [finish]
      split
      next => exact .ok _
      next l rest hlevels =>
        rw [OpenAt, hlevels] at hd
        exact .fault _ (List.forall_mem_cons.1 hd).1
  | cons r regions ih =>
      obtain ⟨hr, hregions⟩ := List.forall_mem_cons.1 hr
      rw [List.foldlM_cons, bind_assoc, step, bind_assoc]
      refine (Instruction.blames_ofRegion hr).bind fun i hi => ?_
      have hat := Instruction.at_of_ofRegion hr hi
      exact (blames_apply hat).bind fun d' hd' => ih hregions (hd.apply hat hd')

end Draft

theorem blames_parseNodes (skipNewline : Bool) (source : String) :
    Blames (Text.IsBoundary source.toList) (parseNodes skipNewline source) :=
  Draft.blames_run (fun _ hr => Region.standsIn_of_scan hr) (List.forall_mem_nil _)

end Stencil
