import Stencil.Proofs.Node.Marked
import Stencil.Proofs.Node.Texts

namespace Stencil

def Text.IsBehindTag (source : List Char) (o : Nat) : Prop :=
  ['%', '\x7d'] <:+ Text.upTo source o

instance (source : List Char) (o : Nat) : Decidable (Text.IsBehindTag source o) :=
  inferInstanceAs (Decidable (_ <:+ _))

def TextChange.withoutNewline (source : List Char) : TextChange
  | '\n' :: cs, o =>
      if Text.IsBehindTag source o then if cs = [] then none else some (cs, o + 1) else some ('\n' :: cs, o)
  | cs, o => some (cs, o)

namespace TextChange

variable {source cs : List Char} {o : Nat}

theorem withoutNewline_eq (h : Text.IsBehindTag source o → cs.head? ≠ some '\n') :
    withoutNewline source cs o = some (cs, o) := by
  unfold withoutNewline
  split
  next => rw [if_neg fun hb => h hb rfl]
  next => rfl

end TextChange

namespace Text

variable {before cs : List Char} {a b : Char}

theorem not_isBehindTag (h : [a, b] ≠ ['%', '\x7d']) :
    ¬IsBehindTag (before ++ [a, b] ++ cs) (byteLength (before ++ [a, b])) := by
  rintro ⟨start, hs⟩
  rw [upTo_append] at hs
  exact h (List.append_inj_right' hs rfl).symm

theorem not_isBehindTag_of_last (h : b ≠ '\x7d') :
    ¬IsBehindTag (before ++ [b] ++ cs) (byteLength (before ++ [b])) := by
  rintro ⟨start, hs⟩
  rw [upTo_append, List.append_cons] at hs
  exact h (List.cons.inj (List.append_inj_right' hs rfl)).1.symm

theorem isBehindTag_append : IsBehindTag (before ++ ['%', '\x7d'] ++ cs) (byteLength (before ++ ['%', '\x7d'])) := by
  rw [IsBehindTag, upTo_append]
  exact List.suffix_append ..

end Text

namespace Region

variable {o : Nat} {source before cs : List Char}

theorem filterMap_scan_newline (hbehind : Text.IsBehindTag source o)
    (hnext : ¬Text.IsBehindTag source (o + 1)) :
    (scan false o ('\n' :: cs)).filterMap (Region.retext (.withoutNewline source)) =
      (scan false (o + 1) cs).filterMap (Region.retext (.withoutNewline source)) := by
  have hone : Char.utf8Size '\n' = 1 := rfl
  rcases @scan_cons false o '\n' cs (by decide) with ⟨d, ds, regions, hscan, hcons⟩ | hcons
  · rw [hone] at hscan
    have hcut : Region.retext (.withoutNewline source) (.text o ('\n' :: d :: ds)) =
        some (.text (o + 1) (d :: ds)) := by
      rw [Region.retext, TextChange.withoutNewline, if_pos hbehind, if_neg (List.cons_ne_nil _ _)]
      rfl
    have hkept : Region.retext (.withoutNewline source) (.text (o + 1) (d :: ds)) =
        some (.text (o + 1) (d :: ds)) := by
      rw [Region.retext, TextChange.withoutNewline_eq fun h => (hnext h).elim]
      rfl
    rw [hscan, hcons, List.filterMap_cons_some hcut, List.filterMap_cons_some hkept]
  · have hdropped : Region.retext (.withoutNewline source) (.text o ['\n']) = none := by
      rw [Region.retext, TextChange.withoutNewline, if_pos hbehind, if_pos rfl]
      rfl
    rw [hcons, List.filterMap_cons_none hdropped, hone]

theorem filterMap_text_cons {regions : List Region} (h : Text.IsBehindTag source o → cs.head? ≠ some '\n') :
    (.text o cs :: regions).filterMap (Region.retext (.withoutNewline source)) =
      .text o cs :: regions.filterMap (Region.retext (.withoutNewline source)) := by
  refine List.filterMap_cons_some ?_
  rw [Region.retext, TextChange.withoutNewline_eq h]
  rfl

theorem head?_dropWhile_ne (cs : List Char) : (cs.dropWhile (· ≠ '\x7b')).head? ≠ some '\n' := by
  have h := List.head?_dropWhile_not (· ≠ '\x7b') cs
  intro hn
  rw [hn] at h
  cases h

/-- From here on, where no newline stands behind a tag, newlines are skipped as if they were cut afterwards. -/
def SkipsFrom (source : List Char) (o : Nat) (cs : List Char) : Prop :=
  ∀ before, source = before ++ cs → o = Text.byteLength before →
    (Text.IsBehindTag source o → cs.head? ≠ some '\n') →
      scan true o cs = (scan false o cs).filterMap (Region.retext (.withoutNewline source))

theorem SkipsFrom.afterTag (hsource : source = before ++ ['%', '\x7d'] ++ cs)
    (ho : o = Text.byteLength (before ++ ['%', '\x7d']))
    (h : SkipsFrom source (o + (cs.length - (afterTag true cs).length)) (afterTag true cs)) :
    scan true (o + (cs.length - (Region.afterTag true cs).length)) (Region.afterTag true cs) =
      (scan false o cs).filterMap (Region.retext (.withoutNewline source)) := by
  have hbehind : Text.IsBehindTag source o := by
    rw [hsource, ho]
    exact Text.isBehindTag_append
  unfold Region.afterTag at h ⊢
  split at h
  next rest =>
    have hbefore : source = before ++ ['%', '\x7d'] ++ ['\n'] ++ rest := by
      rw [hsource, List.append_cons]
    have hlen : o + 1 = Text.byteLength (before ++ ['%', '\x7d'] ++ ['\n']) := by
      rw [Text.byteLength_append, ho]
      rfl
    have hnext : ¬Text.IsBehindTag source (o + 1) := by
      rw [hbefore, hlen]
      exact Text.not_isBehindTag_of_last (by decide)
    rw [if_pos rfl, List.length_cons, Nat.add_sub_cancel_left] at h ⊢
    rw [h _ hbefore hlen fun hb => (hnext hb).elim, filterMap_scan_newline hbehind hnext]
  next hnewline =>
    rw [Nat.sub_self, Nat.add_zero] at h ⊢
    refine h _ hsource ho fun _ hhead => ?_
    obtain ⟨rest, rfl⟩ := List.head?_eq_some_iff.1 hhead
    exact hnewline rest rfl

theorem skipsFrom (source : List Char) (o : Nat) (cs : List Char) : SkipsFrom source o cs := by
  fun_induction scan true o cs with
  | case1 =>
      intro _ _ _ _
      rw [scan, scan]
      rfl
  | case2 o cs h =>
      intro _ _ _ _
      rw [scan_unclosedOutput h, scan_unclosedOutput h]
      rfl
  | case3 o cs body rest hsplit _ ih =>
      intro before hsource ho _
      obtain ⟨rfl, -⟩ := splitAtMark_spec hsplit
      rw [scan_output hsplit, scan_output hsplit]
      have hrest : source = before ++ '\x7b' :: '\x7b' :: body ++ ['\x7d', '\x7d'] ++ rest := by
        rw [hsource]
        simp
      have hlen : o + 4 + Text.byteLength body =
          Text.byteLength (before ++ '\x7b' :: '\x7b' :: body ++ ['\x7d', '\x7d']) := by
        rw [Text.byteLength_marked rfl rfl rfl rfl, ho]
      refine congrArg (List.cons _) (ih _ hrest hlen fun h => ?_)
      rw [hrest, hlen] at h
      exact (Text.not_isBehindTag (by decide) h).elim
  | case4 o cs h =>
      intro _ _ _ _
      rw [scan_unclosedTag h, scan_unclosedTag h]
      rfl
  | case5 o cs body rest hsplit _ _ next ih =>
      intro before hsource ho _
      obtain ⟨rfl, -⟩ := splitAtMark_spec hsplit
      rw [scan_tag hsplit, scan_tag hsplit]
      have hrest : source = before ++ '\x7b' :: '%' :: body ++ ['%', '\x7d'] ++ rest := by
        rw [hsource]
        simp
      have hlen : o + 4 + Text.byteLength body =
          Text.byteLength (before ++ '\x7b' :: '%' :: body ++ ['%', '\x7d']) := by
        rw [Text.byteLength_marked rfl rfl rfl rfl, ho]
      rw [afterTag_false, Nat.sub_self, Nat.add_zero]
      exact congrArg (List.cons _) (ih.afterTag hrest hlen)
  | case6 o c cs hbrace hpercent ih =>
      intro before hsource ho _
      rw [scan_brace hbrace hpercent, scan_brace hbrace hpercent, filterMap_text_cons fun _ => by simp]
      have hrest : source = before ++ ['\x7b'] ++ c :: cs := by
        rw [hsource, ← List.append_cons]
      have hlen : o + 1 = Text.byteLength (before ++ ['\x7b']) := by
        rw [Text.byteLength_append, ho]
        rfl
      refine congrArg (List.cons _) (ih _ hrest hlen fun h => ?_)
      rw [hrest, hlen] at h
      exact (Text.not_isBehindTag_of_last (by decide) h).elim
  | case7 o c cs _ _ hrun rest _ hrest =>
      intro before hsource ho hstart
      have hc : c ≠ '\x7b' := ne_brace_of_last hrun hrest
      rw [scan_run hc, scan_run hc, if_pos hrest, if_pos hrest, filterMap_text_cons hstart]
      rfl
  | case8 o c cs _ _ hrun run rest _ hrest ih =>
      intro before hsource ho hstart
      have hfirst : Text.IsBehindTag source o → run.head? ≠ some '\n' := hstart
      have hcut : run ++ rest = c :: cs := congrArg (c :: ·) List.takeWhile_append_dropWhile
      have hafter : source = before ++ run ++ rest := by
        rw [List.append_assoc, hcut, hsource]
      have hlen : o + Text.byteLength run = Text.byteLength (before ++ run) := by
        simp [ho]
      rw [scan_text hrun hrest, scan_text hrun hrest]
      refine Eq.trans ?_ (filterMap_text_cons hfirst).symm
      exact congrArg (List.cons _) (ih _ hafter hlen fun _ => head?_dropWhile_ne cs)

end Region

end Stencil
