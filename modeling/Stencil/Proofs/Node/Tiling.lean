import Stencil.Proofs.Node.Walk
import Stencil.Proofs.Text.Span
import Stencil.Template

namespace Stencil

namespace Region

variable {a b : Char} {o : Nat} {cs body rest : List Char} {regions : List Region}

/-- The pieces that a source is cut into, in their order. A literal text holds no mark that opens a
region, not even one that goes on behind it, and a region ends at the first mark that closes it. -/
inductive Tiles : Nat → List Char → List Region → Prop
  | nil {o : Nat} : Tiles o [] []
  | text {o : Nat} {cs rest : List Char} {regions : List Region} :
      cs ≠ [] → ¬['\x7b', '\x7b'] <:+: cs ++ rest.take 1 → ¬['\x7b', '%'] <:+: cs ++ rest.take 1 →
        Tiles (o + Text.byteLength cs) rest regions → Tiles o (cs ++ rest) (.text o cs :: regions)
  | output {o : Nat} {body rest : List Char} {regions : List Region} :
      ¬['\x7d', '\x7d'] <:+: body ++ ['\x7d'] → Tiles (o + 4 + Text.byteLength body) rest regions →
        Tiles o ('\x7b' :: '\x7b' :: (body ++ '\x7d' :: '\x7d' :: rest)) (.output (o + 2) body :: regions)
  | tag {o : Nat} {body rest : List Char} {regions : List Region} :
      ¬['%', '\x7d'] <:+: body ++ ['%'] → Tiles (o + 4 + Text.byteLength body) rest regions →
        Tiles o ('\x7b' :: '%' :: (body ++ '%' :: '\x7d' :: rest)) (.tag (o + 2) body :: regions)

theorem splitAtMark_spec (h : splitAtMark a b cs = some (body, rest)) :
    cs = body ++ a :: b :: rest ∧ ¬[a, b] <:+: body ++ [a] := by
  induction cs generalizing body with
  | nil => simp [splitAtMark] at h
  | cons c cs ih =>
      cases cs with
      | nil => simp [splitAtMark] at h
      | cons d cs =>
          rw [splitAtMark] at h
          by_cases hc : c = a ∧ d = b
          · rw [if_pos hc] at h
            obtain ⟨rfl, rfl⟩ := hc
            cases h
            exact ⟨rfl, fun hi => Nat.not_succ_le_self 1 hi.length_le⟩
          · rw [if_neg hc] at h
            obtain ⟨⟨before, after⟩, hr, he⟩ := Option.map_eq_some_iff.1 h
            cases he
            obtain ⟨hcs, hn⟩ := ih hr
            refine ⟨by rw [hcs, List.cons_append], fun hi => ?_⟩
            rcases List.infix_cons_iff.1 hi with hp | hi
            · apply hc
              cases before <;> cases hcs <;> simpa [eq_comm] using hp
            · exact hn hi

theorem splitAtMark_eq (h : ¬[a, b] <:+: body ++ [a]) (rest : List Char) :
    splitAtMark a b (body ++ a :: b :: rest) = some (body, rest) := by
  induction body with
  | nil => exact if_pos ⟨rfl, rfl⟩
  | cons c body ih =>
      obtain ⟨d, ds, hds⟩ := List.exists_cons_of_ne_nil (List.append_ne_nil_of_right_ne_nil body
        (List.cons_ne_nil a []))
      have hall : body ++ a :: b :: rest = d :: (ds ++ b :: rest) := by
        rw [← List.singleton_append, ← List.append_assoc, hds]
        rfl
      have hmark : ¬(c = a ∧ d = b) := by
        rintro ⟨rfl, rfl⟩
        exact h ⟨[], ds, congrArg (c :: ·) hds.symm⟩
      have hbody := ih fun hi => h (List.infix_cons hi)
      rw [hall] at hbody
      rw [List.cons_append, hall, splitAtMark, if_neg hmark, hbody]
      rfl

theorem splitAtMark_append (h : a ∉ body) (rest : List Char) :
    splitAtMark a b (body ++ a :: b :: rest) = some (body, rest) := by
  refine splitAtMark_eq (fun hi => ?_) rest
  rcases List.infix_concat_iff.1 hi with hs | hi
  · obtain hnil | ⟨t, ht, hs⟩ := List.suffix_concat_iff.1 hs
    · cases hnil
    · obtain ⟨rfl, -⟩ := List.append_inj' (show [a] ++ [b] = t ++ [a] from ht) rfl
      exact h (hs.subset (List.mem_singleton_self a))
  · exact h (hi.subset List.mem_cons_self)

theorem not_opens_of_run {run last : List Char} (hrun : ∀ c ∈ run, c ≠ '\x7b') (hlast : last.length ≤ 1)
    (x : Char) : ¬['\x7b', x] <:+: run ++ last := by
  induction run with
  | nil =>
      intro hi
      have := hi.length_le
      simp at this
      omega
  | cons c run ih =>
      intro hi
      obtain ⟨hc, hrun⟩ := List.forall_mem_cons.1 hrun
      rcases List.infix_cons_iff.1 hi with hp | hi
      · exact hc (List.cons_prefix_cons.1 hp).1.symm
      · exact ih hrun hi

theorem ne_brace_of_run {c : Char} (hc : c ≠ '\x7b') :
    ∀ x ∈ c :: cs.takeWhile (· ≠ '\x7b'), x ≠ '\x7b' := by
  refine List.forall_mem_cons.2 ⟨hc, fun x hx => ?_⟩
  simpa using List.mem_takeWhile_imp hx

/-- A text up to the next brace, and the rest. -/
theorem run_append_rest (c : Char) (cs : List Char) :
    (c :: cs.takeWhile (· ≠ '\x7b')) ++ cs.dropWhile (· ≠ '\x7b') = c :: cs := by
  rw [List.cons_append, List.takeWhile_append_dropWhile]

/-- A brace that ends the source is behind the text, not in front of it. -/
theorem ne_brace_of_last {c : Char} (h : ∀ d ds, c = '\x7b' → cs = d :: ds → False)
    (hrest : cs.dropWhile (· ≠ '\x7b') = ['\x7b']) : c ≠ '\x7b' := by
  intro hc
  cases cs with
  | nil => exact List.cons_ne_nil _ _ hrest.symm
  | cons d cs => exact h d cs hc rfl

def Closed : Region → Prop
  | .unclosedOutput _ => False
  | .unclosedTag _ => False
  | _ => True

theorem afterTag_false (cs : List Char) : afterTag false cs = cs := by
  unfold afterTag
  split <;> rfl

theorem tiles_scan (o : Nat) (cs : List Char) (h : ∀ r ∈ scan false o cs, r.Closed) :
    Tiles o cs (scan false o cs) := by
  fun_induction scan false o cs with
  | case1 => exact .nil
  | case2 => exact (h _ (List.mem_singleton_self _)).elim
  | case3 o cs body rest hsplit _ ih =>
      obtain ⟨rfl, hn⟩ := splitAtMark_spec hsplit
      exact .output hn (ih (List.forall_mem_cons.1 h).2)
  | case4 => exact (h _ (List.mem_singleton_self _)).elim
  | case5 o cs body rest hsplit _ _ next ih =>
      obtain ⟨rfl, hn⟩ := splitAtMark_spec hsplit
      have hnext : next = rest := afterTag_false rest
      rw [hnext, Nat.sub_self, Nat.add_zero] at ih h ⊢
      exact .tag hn (ih (List.forall_mem_cons.1 h).2)
  | case6 o c cs hbrace hpercent ih =>
      have htiles : Tiles o (['\x7b'] ++ c :: cs) (.text o ['\x7b'] :: scan false (o + 1) (c :: cs)) := by
        refine .text (List.cons_ne_nil _ _) ?_ ?_ (ih (List.forall_mem_cons.1 h).2)
        · intro hi
          cases hi.eq_of_length rfl
          exact hbrace rfl
        · intro hi
          cases hi.eq_of_length rfl
          exact hpercent rfl
      exact htiles
  | case7 o c cs h₁ h₂ h₃ rest _ hrest =>
      have hcs : c :: cs = (c :: cs.takeWhile (· ≠ '\x7b')) ++ ['\x7b'] := by
        rw [← hrest]
        exact (run_append_rest c cs).symm
      have hc : c ≠ '\x7b' := ne_brace_of_last h₃ hrest
      have hn : ∀ x, ¬['\x7b', x] <:+: c :: cs := by
        rw [hcs]
        exact not_opens_of_run (ne_brace_of_run hc) (Nat.le_refl _)
      have htiles : Tiles o (c :: cs ++ []) [.text o (c :: cs)] := by
        refine .text (List.cons_ne_nil _ _) ?_ ?_ .nil
        · simpa using hn '\x7b'
        · simpa using hn '%'
      rwa [List.append_nil] at htiles
  | case8 o c cs h₁ h₂ h₃ run rest _ hrest ih =>
      have hcs : c :: cs = run ++ rest := (run_append_rest c cs).symm
      have hn : ∀ x, ¬['\x7b', x] <:+: run ++ rest.take 1 := by
        by_cases hc : c = '\x7b'
        · cases cs with
          | nil => exact fun x hi => Nat.not_succ_le_self 1 hi.length_le
          | cons d cs => exact (h₃ d cs hc rfl).elim
        · exact not_opens_of_run (ne_brace_of_run hc) (List.length_take_le ..)
      rw [hcs]
      exact .text (List.cons_ne_nil _ _) (hn _) (hn _) (ih (List.forall_mem_cons.1 h).2)

/-- A literal text is the span of the source that begins at its offset. The induction is on the pieces,
with what stands before them apart. -/
theorem Tiles.span_text (h : Tiles o cs regions) {n : Nat} {s : List Char} (hs : .text n s ∈ regions)
    (before : List Char) (ho : Text.byteLength before = o) :
    s ≠ [] ∧ Text.span (before ++ cs) n (n + Text.byteLength s) = s := by
  induction h generalizing before with
  | nil => cases hs
  | @text o cs rest regions hne _ _ _ ih =>
      rcases List.mem_cons.1 hs with he | hs
      · cases he
        subst ho
        exact ⟨hne, Text.span_append before _ rest⟩
      · have h := ih hs (before ++ cs) (by rw [Text.byteLength_append, ho])
        rwa [List.append_assoc] at h
  | @output o body rest regions _ _ ih =>
      rcases List.mem_cons.1 hs with he | hs
      · cases he
      · have h := ih hs (before ++ '\x7b' :: '\x7b' :: body ++ ['\x7d', '\x7d']) ?_
        · simpa using h
        · rw [Text.byteLength_marked rfl rfl rfl rfl, ho]
  | @tag o body rest regions _ _ ih =>
      rcases List.mem_cons.1 hs with he | hs
      · cases he
      · have h := ih hs (before ++ '\x7b' :: '%' :: body ++ ['%', '\x7d']) ?_
        · simpa using h
        · rw [Text.byteLength_marked rfl rfl rfl rfl, ho]

def isTag : Region → Bool
  | .tag _ _ => true
  | _ => false

inductive Yields : Region → Node → Prop
  | text {o : Nat} {cs : List Char} : Yields (.text o cs) (.text (String.ofList cs) o)
  | output {o : Nat} {cs : List Char} {tokens : List Token} {e : Expr} :
      Token.scan o cs = .ok tokens → Expr.ofTokens tokens (o + Text.byteLength cs) = .ok e →
        Yields (.output o cs) (.output e)

end Region

namespace Instruction

variable {r : Region} {i : Instruction}

theorem Says.leaves_eq {o : Nat} {ts : List Token} (h : i.Says o ts) : i.leaves = [] := by
  cases h <;> rfl

theorem leaves_of_tag (h : ofRegion r = .ok i) (hr : r.isTag) : i.leaves = [] := by
  cases r with
  | tag o cs =>
      rcases says_of_ofTag h with rfl | ⟨keyword, ts, -, hs⟩
      · rfl
      · exact hs.leaves_eq
  | text | output | unclosedOutput | unclosedTag => cases hr

theorem leaves_of_leaf (h : ofRegion r = .ok i) (hr : r.isTag = false) :
    ∃ n, i.leaves = [n] ∧ r.Yields n := by
  cases r with
  | text o cs =>
      obtain rfl := Except.ok.inj h
      exact ⟨_, rfl, .text⟩
  | output o cs =>
      obtain ⟨tokens, ht, h⟩ := Except.of_bind_ok h
      obtain ⟨e, he, h⟩ := Except.of_bind_ok h
      obtain rfl := Except.ok.inj h
      exact ⟨_, rfl, .output ht he⟩
  | tag => cases hr
  | unclosedOutput | unclosedTag => cases h

theorem closed_of_ofRegion (h : ofRegion r = .ok i) : r.Closed := by
  cases r with
  | unclosedOutput | unclosedTag => cases h
  | text | output | tag => trivial

end Instruction

namespace Region

variable {regions : List Region} {is : List Instruction}

theorem closed_of_mapM (h : regions.mapM Instruction.ofRegion = .ok is) : ∀ r ∈ regions, r.Closed := by
  induction regions generalizing is with
  | nil => exact List.forall_mem_nil _
  | cons r regions ih =>
      obtain ⟨i, is, hr, hrs, rfl⟩ := Except.of_mapM_cons h
      exact List.forall_mem_cons.2 ⟨Instruction.closed_of_ofRegion hr, ih hrs⟩

theorem yields_of_mapM (h : regions.mapM Instruction.ofRegion = .ok is) :
    List.Forall₂ Yields (regions.filter (!·.isTag)) (is.flatMap Instruction.leaves) := by
  induction regions generalizing is with
  | nil =>
      obtain rfl := Except.ok.inj h
      exact .nil
  | cons r regions ih =>
      obtain ⟨i, is, hr, hrs, rfl⟩ := Except.of_mapM_cons h
      rw [List.flatMap_cons]
      by_cases ht : r.isTag
      · rw [Instruction.leaves_of_tag hr ht, List.filter_cons_of_neg (by simp [ht])]
        exact ih hrs
      · rw [Bool.not_eq_true] at ht
        obtain ⟨n, hn, hy⟩ := Instruction.leaves_of_leaf hr ht
        rw [hn, List.filter_cons_of_pos (by simp [ht])]
        exact .cons hy (ih hrs)

theorem exists_text_of_yields {rs : List Region} {ns : List Node} (h : List.Forall₂ Yields rs ns)
    {s : String} {n : Nat} (hs : .text s n ∈ ns) : .text n s.toList ∈ rs := by
  induction h with
  | nil => cases hs
  | cons hy _ ih =>
      rcases List.mem_cons.1 hs with rfl | hs
      · cases hy
        simp
      · exact List.mem_cons_of_mem _ (ih hs)

end Region

/-- The regions of a source that has nodes cover it, one behind the other. Each literal text and each
output region gives one node, and these nodes stand in the tree in the order of their regions, whatever
blocks they are in. A text is never empty, and it is the span of the source that begins at its offset. -/
theorem parseNodes_tiles {source : String} {ns : List Node}
    (h : parseNodes ParserOptions.plain.skipNewline source = .ok ns) :
    let regions := Region.scan false 0 source.toList
    Region.Tiles 0 source.toList regions ∧
      List.Forall₂ Region.Yields (regions.filter (!·.isTag)) ((Node.walkAll ns).filter (!·.isTag)) ∧
        ∀ s n, .text s n ∈ Node.walkAll ns →
          s ≠ "" ∧ Text.span source.toList n (n + Text.byteLength s.toList) = s.toList := by
  intro regions
  obtain ⟨is, his, hd⟩ := exists_derives_of_parseNodes h
  have htiles : Region.Tiles 0 source.toList regions := Region.tiles_scan _ _ (Region.closed_of_mapM his)
  have hyields : List.Forall₂ Region.Yields (regions.filter (!·.isTag))
      ((Node.walkAll ns).filter (!·.isTag)) := by
    have hy := Region.yields_of_mapM his
    rwa [← hd.leaves_eq] at hy
  refine ⟨htiles, hyields, fun s n hs => ?_⟩
  have hregion : .text n s.toList ∈ regions :=
    (List.mem_filter.1 (Region.exists_text_of_yields hyields (List.mem_filter.2 ⟨hs, rfl⟩))).1
  obtain ⟨hne, hspan⟩ := htiles.span_text hregion [] rfl
  exact ⟨fun he => hne (by rw [he]; rfl), hspan⟩

def scatteredSource : String :=
  "é\x7bx\x7b% for x in y %\x7dü\x7b\x7b x \x7d\x7d\x7b% if x %\x7da\x7b% endif %\x7d\x7b% endfor %\x7d\x7b"

def scatteredNodes : List Node :=
  [.text "é" 0, .text "\x7b" 2, .text "x" 3,
    .loop "x" (.variable "y" 16)
      [.text "ü" 20, .output (.variable "x" 25), .branch [(.variable "x" 35, [.text "a" 39])] 32] 7,
    .text "\x7b" 63]

theorem parseNodes_tiles_scattered :
    parseNodes ParserOptions.plain.skipNewline scatteredSource = .ok scatteredNodes ∧
      Region.Tiles 0 scatteredSource.toList (Region.scan false 0 scatteredSource.toList) ∧
        Text.span scatteredSource.toList 20 22 = ['ü'] := by
  have h : parseNodes ParserOptions.plain.skipNewline scatteredSource = .ok scatteredNodes := by cbv
  obtain ⟨htiles, -, htext⟩ := parseNodes_tiles h
  refine ⟨h, htiles, (htext "ü" 20 ?_).2⟩
  simp [scatteredNodes, Node.walkAll, Node.walk]

end Stencil
