import Stencil.Proofs.Expr.Text
import Stencil.Proofs.Expr.Unplaced
import Stencil.Proofs.Node.Flat
import Stencil.Proofs.Render.Step
import Stencil.Proofs.Text.LineEnds

namespace Stencil

/-- The source with a text in place of each output. An output ends at the first mark that closes it. No tag opens
in the source, and a brace that opens no output is copied like any other character. -/
inductive Replaced (shows : List Char → String → Prop) : List Char → List Char → Prop
  | nil : Replaced shows [] []
  | output {body rest out : List Char} {s : String} :
      ¬['\x7d', '\x7d'] <:+: body ++ ['\x7d'] → shows body s → Replaced shows rest out →
        Replaced shows ('\x7b' :: '\x7b' :: (body ++ '\x7d' :: '\x7d' :: rest)) (s.toList ++ out)
  | copy {c : Char} {rest out : List Char} :
      ¬['\x7b', '\x7b'] <+: c :: rest → ¬['\x7b', '%'] <+: c :: rest → Replaced shows rest out →
        Replaced shows (c :: rest) (c :: out)

/-- What a text between the marks of an output comes to, read by itself, where only the data are known. -/
def Renderer.Shows (r : Renderer) (data : Dict Value) (cs : List Char) (s : String) : Prop :=
  ∃ e v, Expr.ofText 0 cs = .ok e ∧ e.eval ⟨(r.start data).scope, r.engine.filters⟩ = .ok v ∧
    r.hooks.stringify v = s

theorem Renderer.Shows.unique {r : Renderer} {data : Dict Value} {cs : List Char} {s s' : String}
    (h : r.Shows data cs s) (h' : r.Shows data cs s') : s = s' := by
  obtain ⟨e, v, he, hv, rfl⟩ := h
  obtain ⟨e', v', he', hv', rfl⟩ := h'
  obtain rfl := Except.ok.inj (he.symm.trans he')
  rw [Except.ok.inj (hv.symm.trans hv')]

namespace Replaced

variable {shows : List Char → String → Prop} {cs body rest out out' : List Char} {c : Char}

theorem of_output (h : Replaced shows ('\x7b' :: '\x7b' :: (body ++ '\x7d' :: '\x7d' :: rest)) out)
    (hbody : ¬['\x7d', '\x7d'] <:+: body ++ ['\x7d']) :
    ∃ s out', shows body s ∧ Replaced shows rest out' ∧ out = s.toList ++ out' := by
  generalize hcs : '\x7b' :: '\x7b' :: (body ++ '\x7d' :: '\x7d' :: rest) = cs at h
  cases h with
  | nil => cases hcs
  | @output body' rest' out s hbody' hs h =>
      have hsplit := Region.splitAtMark_eq hbody rest
      rw [(List.cons.inj (List.cons.inj hcs).2).2, Region.splitAtMark_eq hbody'] at hsplit
      cases hsplit
      exact ⟨s, out, hs, h, rfl⟩
  | copy hopens _ _ => exact (hopens (hcs ▸ ⟨_, rfl⟩)).elim

theorem of_copy (h : Replaced shows (c :: rest) out) (hopens : ¬['\x7b', '\x7b'] <+: c :: rest) :
    ∃ out', Replaced shows rest out' ∧ out = c :: out' := by
  generalize hcs : c :: rest = cs at h
  cases h with
  | nil => cases hcs
  | output => exact (hopens (hcs ▸ ⟨_, rfl⟩)).elim
  | copy _ _ h =>
      cases hcs
      exact ⟨_, h, rfl⟩

theorem unique (h : Replaced shows cs out) (h' : Replaced shows cs out')
    (hshows : ∀ cs s s', shows cs s → shows cs s' → s = s') : out = out' := by
  induction h generalizing out' with
  | nil =>
      cases h'
      rfl
  | output hbody hs _ ih =>
      obtain ⟨s', out', hs', hrest', rfl⟩ := h'.of_output hbody
      rw [hshows _ _ _ hs hs', ih hrest']
  | copy hopens _ _ ih =>
      obtain ⟨out', hrest', rfl⟩ := h'.of_copy hopens
      rw [ih hrest']

theorem infix_of_opens {a b : Char} (h : [a, b] <+: c :: (cs ++ rest)) :
    [a, b] <:+: (c :: cs) ++ rest.take 1 := by
  obtain ⟨rfl, ds, hds⟩ := List.cons_prefix_cons.1 h
  cases cs with
  | cons d cs =>
      obtain ⟨rfl, -⟩ := List.cons.inj hds
      exact ⟨[], cs ++ rest.take 1, rfl⟩
  | nil =>
      rw [List.nil_append] at hds
      rw [← hds]
      exact List.infix_refl _

theorem text (houtput : ¬['\x7b', '\x7b'] <:+: cs ++ rest.take 1) (htag : ¬['\x7b', '%'] <:+: cs ++ rest.take 1)
    (h : Replaced shows rest out) : Replaced shows (cs ++ rest) (cs ++ out) := by
  induction cs with
  | nil => exact h
  | cons c cs ih =>
      refine .copy (mt infix_of_opens houtput) (mt infix_of_opens htag) (ih ?_ ?_)
      · exact fun hi => houtput (List.infix_cons hi)
      · exact fun hi => htag (List.infix_cons hi)

theorem self (houtput : ¬['\x7b', '\x7b'] <:+: cs) (htag : ¬['\x7b', '%'] <:+: cs) : Replaced shows cs cs := by
  have h := @text shows cs [] [] (by simpa using houtput) (by simpa using htag) .nil
  rwa [List.append_nil] at h

end Replaced

namespace Region

variable {o : Nat} {cs : List Char} {regions : List Region} {ns : List Node} {r : Region} {n : Node}

theorem isTag_of_yields (h : List.Forall₂ Yields regions ns) : ∀ n ∈ ns, n.isTag = false := by
  induction h with
  | nil => exact List.forall_mem_nil _
  | cons hy _ ih =>
      refine List.forall_mem_cons.2 ⟨?_, ih⟩
      cases hy <;> rfl

theorem scan_of_tagless (skip : Bool) (h : ∀ r ∈ scan false o cs, r.isTag = false) :
    scan skip o cs = scan false o cs := by
  fun_induction scan false o cs with
  | case1 => rw [scan]
  | case2 o cs hsplit => simp [hsplit]
  | case3 o cs body rest hsplit _ ih => rw [scan_output hsplit, ih (List.forall_mem_cons.1 h).2]
  | case4 o cs hsplit => simp [hsplit]
  | case5 => cases (List.forall_mem_cons.1 h).1
  | case6 o c cs hbrace hpercent ih => rw [scan_brace hbrace hpercent, ih (List.forall_mem_cons.1 h).2]
  | case7 o c cs _ _ hrun rest _ hrest => rw [scan_run (ne_brace_of_last hrun hrest), if_pos hrest]
  | case8 o c cs _ _ hrun run rest _ hrest ih => rw [scan_text hrun hrest, ih (List.forall_mem_cons.1 h).2]

theorem eq_text_of_unmarked {skip : Bool} (houtput : ¬['\x7b', '\x7b'] <:+: cs) (htag : ¬['\x7b', '%'] <:+: cs) :
    ∀ r ∈ scan skip o cs, ∃ n s, r = .text n s := by
  have hrest {c : Char} {cs : List Char} (x : Char) (h : ¬['\x7b', x] <:+: c :: cs) : ¬['\x7b', x] <:+: cs :=
    fun hi => h (List.infix_cons hi)
  have hdrop {c : Char} {cs : List Char} (x : Char) (h : ¬['\x7b', x] <:+: c :: cs) :
      ¬['\x7b', x] <:+: cs.dropWhile (· ≠ '\x7b') :=
    fun hi => hrest x h (hi.trans (List.dropWhile_suffix _).isInfix)
  fun_induction scan skip o cs with
  | case1 => exact List.forall_mem_nil _
  | case2 o cs | case3 o cs => exact (houtput ⟨[], _, rfl⟩).elim
  | case4 o cs | case5 o cs => exact (htag ⟨[], _, rfl⟩).elim
  | case6 o c cs _ _ ih => exact List.forall_mem_cons.2 ⟨⟨_, _, rfl⟩, ih (hrest _ houtput) (hrest _ htag)⟩
  | case7 => exact List.forall_mem_singleton.2 ⟨_, _, rfl⟩
  | case8 o c cs _ _ _ run rest _ _ ih =>
      exact List.forall_mem_cons.2 ⟨⟨_, _, rfl⟩, ih (hdrop _ houtput) (hdrop _ htag)⟩

theorem isTag_of_text (h : ∀ r ∈ regions, ∃ n s, r = .text n s) : ∀ r ∈ regions, r.isTag = false := by
  intro r hr
  obtain ⟨n, s, rfl⟩ := h r hr
  rfl

theorem exists_yields_of_text (h : ∀ r ∈ regions, ∃ n s, r = .text n s) :
    ∃ ns, List.Forall₂ Yields regions ns ∧ ∀ e, .output e ∉ ns := by
  induction regions with
  | nil => exact ⟨[], .nil, fun _ => List.not_mem_nil⟩
  | cons r regions ih =>
      obtain ⟨⟨n, s, rfl⟩, hrest⟩ := List.forall_mem_cons.1 h
      obtain ⟨ns, hns, houtput⟩ := ih hrest
      refine ⟨.text (String.ofList s) n :: ns, .cons .text hns, fun e he => ?_⟩
      rcases List.mem_cons.1 he with he | he
      · cases he
      · exact houtput e he

end Region

namespace Template

variable {options : ParserOptions} {path : Option String} {text : String} {ns : List Node} {t : Template}

/-- What becomes of a source without tags does not depend on the options. -/
theorem parse_of_yields (options : ParserOptions) (path : Option String)
    (htagless : ∀ region ∈ Region.scan false 0 (Text.withUnixLines text).toList, region.isTag = false)
    (hy : List.Forall₂ Region.Yields (Region.scan false 0 (Text.withUnixLines text).toList) ns) :
    parse options path text = .ok ⟨Text.withUnixLines text, path, ns⟩ := by
  have hplaces := hy.imp fun _ _ => Region.Yields.places
  rw [← Region.scan_of_tagless options.skipNewline htagless] at hplaces
  exact parse_of_places path hplaces (Node.stripAll_of_tagless (Region.isTag_of_yields hy))

theorem yields_of_parse (ht : parse options path text = .ok t)
    (htagless : ∀ region ∈ Region.scan false 0 (Text.withUnixLines text).toList, region.isTag = false) :
    Region.Tiles 0 (Text.withUnixLines text).toList (Region.scan false 0 (Text.withUnixLines text).toList) ∧
      List.Forall₂ Region.Yields (Region.scan false 0 (Text.withUnixLines text).toList) t.nodes := by
  obtain ⟨ns, hparse⟩ := exists_parseNodes_of_parse ht
  obtain ⟨is, his, -⟩ := exists_derives_of_parseNodes hparse
  rw [Region.scan_of_tagless options.skipNewline htagless] at his
  have hyields := Region.yields_of_mapM his
  rw [List.filter_eq_self.2 fun region hr => by rw [htagless region hr]; rfl] at hyields
  obtain rfl := Except.ok.inj (ht.symm.trans (parse_of_yields options path htagless hyields))
  exact ⟨Region.tiles_scan _ _ (Region.closed_of_mapM his), hyields⟩

theorem exists_parse_of_text (options : ParserOptions) (path : Option String)
    (h : ∀ r ∈ Region.scan false 0 (Text.withUnixLines text).toList, ∃ n s, r = .text n s) :
    ∃ t, parse options path text = .ok t ∧ ∀ e, .output e ∉ t.nodes := by
  obtain ⟨ns, hyields, houtput⟩ := Region.exists_yields_of_text h
  exact ⟨_, parse_of_yields options path (Region.isTag_of_text h) hyields, houtput⟩

end Template

namespace Renderer

variable {r : Renderer} {data : Dict Value} {cs : List Char} {o : Nat} {regions : List Region} {ns : List Node}

theorem Shows.of_scan {ts : List Token} {e : Expr} {v : Value} {n : Nat} (hts : Token.scan o cs = .ok ts)
    (he : Expr.ofTokens ts n = .ok e) (hv : e.eval ⟨(r.start data).scope, r.engine.filters⟩ = .ok v) :
    r.Shows data cs (r.hooks.stringify v) := by
  have htext : Expr.ofText o cs = .ok e := Expr.ofText_of_sentence hts (Expr.ofTokens_ok_iff.1 he)
  obtain ⟨us, f, hus, hf, hunplaced⟩ :=
    Expr.ofText_elsewhere htext (List.forall_mem_nil _) (List.forall_mem_nil _) 0
  rw [List.nil_append, List.append_nil] at hus
  have hmatches := Expr.eval_matches ⟨(r.start data).scope, r.engine.filters⟩ hunplaced
  rcases hmatches.cases with ⟨w, hfw, hew⟩ | ⟨x, y, -, hey, -⟩
  · obtain rfl := Except.ok.inj (hv.symm.trans hew)
    exact ⟨f, _, Expr.ofText_of_sentence hus hf, hfw, rfl⟩
  · cases hv.symm.trans hey

theorem processAll_of_writes {includer : Includer} {n : Node} {s : String} {out : List Char} {st : RenderState}
    (hst : st.scope = (r.start data).scope) (hn : n.process r.engine includer st = .ok () (st.write s))
    (hns : Node.processAll r.engine includer ns (st.write s) = .ok () ((st.write s).write (String.ofList out))) :
    Node.processAll r.engine includer (n :: ns) st = .ok () (st.write (String.ofList (s.toList ++ out))) := by
  have hsignals : (st.write s).scope.signals.isNone := by
    rw [RenderState.write, hst]
    rfl
  have hwritten : (st.write s).write (String.ofList out) = st.write (String.ofList (s.toList ++ out)) := by
    rw [RenderState.write, RenderState.write, RenderState.write, String.append_assoc, String.ofList_append,
      String.ofList_toList]
  simp [hn, hsignals, hns, hwritten]

/-- The regions are copied or shown one after the other. -/
theorem exists_replaced (h : Region.Tiles o cs regions) (hy : List.Forall₂ Region.Yields regions ns)
    (hv : ∀ e, .output e ∈ ns → ∃ v, e.eval ⟨(r.start data).scope, r.engine.filters⟩ = .ok v) :
    ∃ out, Replaced (r.Shows data) cs out ∧ ∀ includer st, st.scope = (r.start data).scope →
      Node.processAll r.engine includer ns st = .ok () (st.write (String.ofList out)) := by
  induction h generalizing ns with
  | nil =>
      cases hy
      refine ⟨[], .nil, fun includer st _ => ?_⟩
      simp [RenderState.write]
  | @text o cs rest regions _ houtput htag _ ih =>
      obtain ⟨n, ns, hn, hrest, rfl⟩ := List.forall₂_cons_left_iff.1 hy
      obtain ⟨out, hout, hrun⟩ := ih hrest fun e he => hv e (List.mem_cons_of_mem _ he)
      cases hn
      refine ⟨cs ++ out, .text houtput htag hout, fun includer st hst => ?_⟩
      have hwrites := Node.process_text r.engine includer st (String.ofList cs) o
      have hall := processAll_of_writes hst hwrites (hrun includer _ hst)
      rwa [String.toList_ofList] at hall
  | @output o body rest regions hbody _ ih =>
      obtain ⟨n, ns, hn, hrest, rfl⟩ := List.forall₂_cons_left_iff.1 hy
      obtain ⟨out, hout, hrun⟩ := ih hrest fun e he => hv e (List.mem_cons_of_mem _ he)
      cases hn with
      | @output _ _ ts e hts he =>
          obtain ⟨v, hev⟩ := hv e List.mem_cons_self
          refine ⟨_, .output hbody (.of_scan hts he hev) hout, fun includer st hst => ?_⟩
          refine processAll_of_writes hst ?_ (hrun includer _ hst)
          rw [Node.process_output, hst, hev]
          rfl
  | tag =>
      obtain ⟨n, ns, hn, -, rfl⟩ := List.forall₂_cons_left_iff.1 hy
      cases hn

theorem render_of_replaced {options : ParserOptions} {path : Option String} {text : String} {t : Template}
    (ht : Template.parse options path text = .ok t)
    (htagless : ∀ region ∈ Region.scan false 0 (Text.withUnixLines text).toList, region.isTag = false)
    (hv : ∀ e, .output e ∈ t.nodes → ∃ v, e.eval ⟨(r.start data).scope, r.engine.filters⟩ = .ok v) :
    Replaced (r.Shows data) (Text.withUnixLines text).toList (r.render t data).1.toList ∧
      (r.render t data).2.errors = [] ∧ (r.render t data).2.globals? = some data := by
  obtain ⟨htiles, hyields⟩ := Template.yields_of_parse ht htagless
  obtain ⟨out, hout, hrun⟩ := exists_replaced htiles hyields hv
  obtain ⟨houtput, herrors, hscope⟩ := render_of_ok (hrun _ (r.start data) rfl) rfl
  refine ⟨?_, herrors, ?_⟩
  · rw [houtput, RenderState.write, start, String.empty_append, String.toList_ofList]
    exact hout
  · rw [globals?, hscope]
    rfl

end Renderer

/-- A template is parsed from a source without tags, and its outputs have values. The render is the source with
the value of each output shown in its place, and no other text is. It records no error and leaves the data as they
are. A source in which neither an output nor a tag opens is always parsed, and rendered as it is. -/
theorem render_untagged (options : ParserOptions) (path : Option String) (text : String) :
    (∀ t, Template.parse options path text = .ok t →
      (∀ region ∈ Region.scan false 0 (Text.withUnixLines text).toList, region.isTag = false) →
      ∀ (r : Renderer) (data : Dict Value),
        (∀ e, .output e ∈ t.nodes → ∃ v, e.eval ⟨(r.start data).scope, r.engine.filters⟩ = .ok v) →
        (∀ out : String, Replaced (r.Shows data) (Text.withUnixLines text).toList out.toList ↔
          out = (r.render t data).1) ∧
        (r.render t data).2.errors = [] ∧ (r.render t data).2.globals? = some data) ∧
    (¬['\x7b', '\x7b'] <:+: text.toList → ¬['\x7b', '%'] <:+: text.toList →
      ∃ t, Template.parse options path text = .ok t ∧ ∀ (r : Renderer) (data : Dict Value),
        (r.render t data).1 = Text.withUnixLines text ∧
        (r.render t data).2.errors = [] ∧ (r.render t data).2.globals? = some data) := by
  constructor
  · intro t ht htagless r data hv
    obtain ⟨hreplaced, herrors, hglobals⟩ := Renderer.render_of_replaced ht htagless hv
    refine ⟨fun out => ⟨fun hout => ?_, fun hout => hout ▸ hreplaced⟩, herrors, hglobals⟩
    exact String.toList_injective (hout.unique hreplaced fun _ _ _ => Renderer.Shows.unique)
  · intro houtput htag
    have hunmarked {x : Char} (hx : x ≠ '\n') (h : ¬['\x7b', x] <:+: text.toList) :
        ¬['\x7b', x] <:+: (Text.withUnixLines text).toList := by
      rw [Text.withUnixLines, String.toList_ofList]
      exact mt (Text.infix_of_joinLineEnds hx) h
    have houtput := hunmarked (by decide) houtput
    have htag := hunmarked (by decide) htag
    have htext : ∀ region ∈ Region.scan false 0 (Text.withUnixLines text).toList, ∃ n s, region = .text n s :=
      Region.eq_text_of_unmarked houtput htag
    obtain ⟨t, ht, hnone⟩ := Template.exists_parse_of_text options path htext
    refine ⟨t, ht, fun r data => ?_⟩
    obtain ⟨hreplaced, herrors, hglobals⟩ := @Renderer.render_of_replaced r data _ _ _ _ ht
      (Region.isTag_of_text htext) fun e he => (hnone e he).elim
    refine ⟨String.toList_injective ?_, herrors, hglobals⟩
    exact hreplaced.unique (.self houtput htag) fun _ _ _ => Renderer.Shows.unique

def looseSource : String :=
  "é\x7b\r\n\x7b\x7b n + 1 \x7d\x7d\x7d%\x7b"

def looseNodes : List Node :=
  [.text "é" 0, .text "\x7b" 2, .text "\n" 3, .output (.binary .add (.variable "n" 7) (.literal (.int 1) 11) 9),
    .text "\x7d%\x7b" 15]

theorem render_untagged_loose :
    Template.parse ⟨true, true⟩ none looseSource = .ok ⟨Text.withUnixLines looseSource, none, looseNodes⟩ ∧
      ((Renderer.new Hooks.standard).render ⟨Text.withUnixLines looseSource, none, looseNodes⟩ [("n", .int 41)]).1 =
        "é\x7b\n42\x7d%\x7b" := by
  have ht : Template.parse ⟨true, true⟩ none looseSource =
      .ok ⟨Text.withUnixLines looseSource, none, looseNodes⟩ := by cbv
  have hregions : Region.scan false 0 (Text.withUnixLines looseSource).toList =
      [.text 0 ['é'], .text 2 ['\x7b'], .text 3 ['\n'], .output 6 [' ', 'n', ' ', '+', ' ', '1', ' '],
        .text 15 ['\x7d', '%', '\x7b']] := by cbv
  have htagless : ∀ region ∈ Region.scan false 0 (Text.withUnixLines looseSource).toList, region.isTag = false := by
    rw [hregions]
    decide
  have hvalues (e : Expr) (he : .output e ∈ looseNodes) : ∃ v, e.eval
      ⟨((Renderer.new Hooks.standard).start [("n", .int 41)]).scope, (Renderer.new Hooks.standard).engine.filters⟩ =
        .ok v := by
    obtain rfl : e = .binary .add (.variable "n" 7) (.literal (.int 1) 11) 9 := by simpa [looseNodes] using he
    exact ⟨.int 42, by cbv⟩
  have hshows : (Renderer.new Hooks.standard).Shows [("n", .int 41)] [' ', 'n', ' ', '+', ' ', '1', ' '] "42" :=
    ⟨_, .int 42, by cbv, by cbv, by cbv⟩
  have hsource : (Text.withUnixLines looseSource).toList = ['é', '\x7b', '\n'] ++
      '\x7b' :: '\x7b' :: ([' ', 'n', ' ', '+', ' ', '1', ' '] ++ '\x7d' :: '\x7d' :: ['\x7d', '%', '\x7b']) := by
    decide
  have hreplaced : Replaced ((Renderer.new Hooks.standard).Shows [("n", .int 41)])
      (Text.withUnixLines looseSource).toList "é\x7b\n42\x7d%\x7b".toList := by
    rw [hsource]
    exact .text (by decide) (by decide) (.output (by decide) hshows (.self (by decide) (by decide)))
  have hshown := ((render_untagged ⟨true, true⟩ none looseSource).1 _ ht htagless _ _ hvalues).1
  exact ⟨ht, ((hshown _).1 hreplaced).symm⟩

end Stencil
