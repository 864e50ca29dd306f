import Stencil.Proofs.Dict
import Stencil.Proofs.Expr.Derived
import Stencil.Proofs.Expr.Text
import Stencil.Proofs.Expr.Unplaced
import Stencil.Proofs.Node.Flat
import Stencil.Proofs.Node.Selector
import Stencil.Proofs.Render.Exact

namespace Stencil

def storedSource (name expr : String) : String :=
  "\x7b% assign " ++ name ++ " = " ++ expr ++ " %\x7d\x7b\x7b " ++ name ++ " \x7d\x7d"

def storedBody (name cs : List Char) : List Char :=
  " assign ".toList ++ (name ++ (" =".toList ++ (' ' :: (cs ++ [' ']))))

def shownSource (expr : String) : String :=
  "\x7b\x7b " ++ expr ++ " \x7d\x7d"

namespace Region

variable {a b : Char} {cs front : List Char}

theorem not_marked_append (hf : a ∉ front) (h : ¬[a, b] <:+: cs) : ¬[a, b] <:+: front ++ cs := by
  induction front with
  | nil => exact h
  | cons c front ih =>
      obtain ⟨hc, hfront⟩ := List.ne_and_not_mem_of_not_mem_cons hf
      intro hi
      rcases List.infix_cons_iff.1 hi with hp | hi
      · exact hc (List.cons_prefix_cons.1 hp).1
      · exact ih hfront hi

theorem not_marked_blank (ha : a ≠ ' ') (hb : b ≠ ' ') (h : ¬[a, b] <:+: cs) : ¬[a, b] <:+: (cs ++ [' ']) ++ [a] := by
  have hlast {ds : List Char} {c : Char} (hs : [a, b] <:+ ds ++ [c]) : b = c ∧ [a] <:+ ds := by
    obtain hnil | ⟨t, ht, hs⟩ := List.suffix_concat_iff.1 hs
    · cases hnil
    · obtain ⟨rfl, hbc⟩ := List.append_inj' (show [a] ++ [b] = t ++ [c] from ht) rfl
      exact ⟨(List.cons.inj hbc).1, hs⟩
  intro hi
  rcases List.infix_concat_iff.1 hi with hs | hi
  · obtain ⟨-, hs⟩ := hlast hs
    obtain hnil | ⟨t, ht, -⟩ := List.suffix_concat_iff.1 hs
    · cases hnil
    · exact ha (List.cons.inj (List.append_inj' (show [] ++ [a] = t ++ [' '] from ht) rfl).2).1
  · rcases List.infix_concat_iff.1 hi with hs | hi
    · exact hb (hlast hs).1
    · exact h hi

variable {name cs : List Char} {ts : List Token} {e : Expr} {n : Nat}

theorem startsBlank_cons (cs : List Char) : Token.StartsBlank (' ' :: cs) := by
  rintro c ⟨⟩
  rfl

theorem places_variable (h : Token.Spells .identifier name) (n : Nat) :
    Places (.output n (' ' :: (name ++ [' ']))) (.output (.variable (String.ofList name) (n + 1))) := by
  have hscan : Token.scan n (' ' :: (name ++ [' '])) = .ok [⟨.identifier, String.ofList name, n + 1⟩] := by
    rw [Token.scan_space n rfl, Token.scan_token (.before_blank h (startsBlank_cons [])), Token.scan_space _ rfl,
      Token.scan_nil]
    rfl
  exact (Yields.output hscan (Expr.ofTokens_ok_iff.2 (Expr.Primary.variable rfl).sentence)).places

theorem places_shown (h : Expr.ofText 0 cs = .ok e) (n : Nat) :
    ∃ f, Places (.output n (' ' :: (cs ++ [' ']))) (.output f) ∧ f.unplaced = e.unplaced := by
  have hblank : ∀ c ∈ [' '], Token.isSpace c := List.forall_mem_singleton.2 rfl
  obtain ⟨ts, f, hts, hf, hunplaced⟩ := Expr.ofText_elsewhere h hblank hblank n
  exact ⟨f, (Yields.output hts (Expr.ofTokens_ok_iff.2 hf)).places, hunplaced⟩

theorem scan_assignment (h : Token.Spells .identifier name) {rest : List Char} (hrest : Token.StartsBlank rest)
    (hts : Token.scan (n + 8 + Text.byteLength name + 2) rest = .ok ts) :
    Token.scan n (" assign ".toList ++ (name ++ (" =".toList ++ rest))) =
      .ok (⟨.identifier, "assign", n + 1⟩ :: ⟨.identifier, String.ofList name, n + 8⟩ ::
        ⟨.operator, "=", n + 8 + Text.byteLength name + 1⟩ :: ts) := by
  have hkeyword : Token.Spells .identifier "assign".toList := .name rfl (List.all_eq_true.1 rfl) (by decide)
  have hsign : Token.Spells .operator ['='] := .symbol (by decide)
  have hsplit : " assign ".toList ++ (name ++ (" =".toList ++ rest)) =
      ' ' :: ("assign".toList ++ (' ' :: (name ++ (' ' :: (['='] ++ rest))))) := rfl
  rw [hsplit, Token.scan_space n rfl, Token.scan_token (.before_blank hkeyword (startsBlank_cons _)),
    Token.scan_space _ rfl, Token.scan_token (.before_blank h (startsBlank_cons _)), Token.scan_space _ rfl,
    Token.scan_token (.before_blank hsign hrest)]
  show (((Token.scan (n + 8 + Text.byteLength name + 2) rest).map _).map _).map _ = _
  rw [hts]
  rfl

theorem places_stored (hname : Token.Spells .identifier name) (h : Expr.ofText 0 cs = .ok e) (n : Nat) :
    ∃ f, Places (.tag n (storedBody name cs)) (.assign (String.ofList name) f .here (n + 1)) ∧
      f.unplaced = e.unplaced := by
  have hblank : ∀ c ∈ [' '], Token.isSpace c := List.forall_mem_singleton.2 rfl
  obtain ⟨ts, f, hts, hf, hunplaced⟩ :=
    Expr.ofText_elsewhere h hblank hblank (n + 8 + Text.byteLength name + 2)
  have htokens : Token.scan n (storedBody name cs) = _ := scan_assignment hname (startsBlank_cons (cs ++ [' '])) hts
  refine ⟨f, ?_, hunplaced⟩
  rw [Places, Instruction.ofRegion, Instruction.ofTag_assign htokens rfl rfl rfl,
    Instruction.splitSelector_of_knit hf.knit, Expr.ofTokens_ok_iff.2 hf]
  rfl

end Region

section

variable {name expr : String} {e : Expr}

theorem Token.Spells.isWordPart {cs : List Char} (h : Spells .identifier cs) : ∀ c ∈ cs, isWordPart c := by
  cases h with
  | name hw hparts => exact List.forall_mem_cons.2 ⟨isWordPart_of_isWordStart hw, hparts⟩

theorem Token.Spells.not_mem {cs : List Char} {c : Char} (h : Spells .identifier cs)
    (hc : Token.isWordPart c = false) : c ∉ cs := by
  intro hm
  rw [h.isWordPart c hm] at hc
  cases hc

theorem storedBody_append (name cs rest : List Char) :
    ("\x7b% assign ".toList ++ (name ++ " = ".toList)) ++ (cs ++ (' ' :: rest)) =
      '\x7b' :: '%' :: (storedBody name cs ++ rest) := by
  have hopen : "\x7b% assign ".toList = '\x7b' :: '%' :: " assign ".toList := rfl
  have hsign : " = ".toList = " =".toList ++ [' '] := rfl
  unfold storedBody
  rw [hopen, hsign]
  simp only [List.append_assoc, List.cons_append, List.nil_append]

theorem toList_storedSource (h : Token.Spells .identifier name.toList) (expr : String) :
    (Text.withUnixLines (storedSource name expr)).toList =
      '\x7b' :: '%' :: (storedBody name.toList (Text.joinLineEnds expr.toList) ++
        '%' :: '\x7d' :: '\x7b' :: '\x7b' :: (' ' :: (name.toList ++ [' ']) ++ ['\x7d', '\x7d'])) := by
  have hreturn : '\r' ∉ name.toList := h.not_mem (by decide)
  have hfront : '\r' ∉ "\x7b% assign ".toList ++ (name.toList ++ " = ".toList) := by
    simp only [List.mem_append, not_or]
    exact ⟨by decide, hreturn, by decide⟩
  have hback : '\r' ∉ " %\x7d\x7b\x7b ".toList ++ (name.toList ++ " \x7d\x7d".toList) := by
    simp only [List.mem_append, not_or]
    exact ⟨by decide, hreturn, by decide⟩
  have hsource : (storedSource name expr).toList =
      ("\x7b% assign ".toList ++ (name.toList ++ " = ".toList)) ++
        (expr.toList ++ (" %\x7d\x7b\x7b ".toList ++ (name.toList ++ " \x7d\x7d".toList))) := by
    simp only [storedSource, String.toList_append, List.append_assoc]
  rw [Text.withUnixLines, String.toList_ofList, hsource, Text.joinLineEnds_between hfront hback (by simp)]
  refine (storedBody_append ..).trans ?_
  rw [List.cons_append, List.append_assoc]
  rfl

theorem toList_shownSource (expr : String) :
    (Text.withUnixLines (shownSource expr)).toList = '\x7b' :: '\x7b' ::
      (' ' :: (Text.joinLineEnds expr.toList ++ [' ']) ++ ['\x7d', '\x7d']) := by
  have hsource : (shownSource expr).toList =
      "\x7b\x7b ".toList ++ (expr.toList ++ " \x7d\x7d".toList) := by
    simp only [shownSource, String.toList_append, List.append_assoc]
  rw [Text.withUnixLines, String.toList_ofList, hsource, Text.joinLineEnds_between (by decide) (by decide) (by decide),
    List.cons_append, List.append_assoc]
  rfl

theorem not_marked_storedBody {name cs : List Char} (h : Token.Spells .identifier name)
    (hmark : ¬['%', '\x7d'] <:+: cs) : ¬['%', '\x7d'] <:+: storedBody name cs ++ ['%'] := by
  have hbody : storedBody name cs ++ ['%'] =
      (" assign ".toList ++ (name ++ " = ".toList)) ++ ((cs ++ [' ']) ++ ['%']) := by
    have hsign : " = ".toList = " =".toList ++ [' '] := rfl
    unfold storedBody
    rw [hsign]
    simp only [List.append_assoc, List.cons_append, List.nil_append]
  have hfront : '%' ∉ " assign ".toList ++ (name ++ " = ".toList) := by
    simp only [List.mem_append, not_or]
    exact ⟨by decide, h.not_mem (by decide), by decide⟩
  rw [hbody]
  exact Region.not_marked_append hfront (Region.not_marked_blank (by decide) (by decide) hmark)

theorem parse_storedSource (hname : Token.Spells .identifier name.toList)
    (he : Expr.ofText 0 (Text.joinLineEnds expr.toList) = .ok e) (hmark : ¬['%', '\x7d'] <:+: expr.toList)
    (options : ParserOptions) (path : Option String) :
    ∃ f n, Template.parse options path (storedSource name expr) = .ok
        ⟨Text.withUnixLines (storedSource name expr), path,
          [.assign name f .here 3, .output (.variable name n)]⟩ ∧ f.unplaced = e.unplaced := by
  obtain ⟨f, hf, hunplaced⟩ := Region.places_stored hname he 2
  have hbody : ¬['%', '\x7d'] <:+: storedBody name.toList (Text.joinLineEnds expr.toList) ++ ['%'] :=
    not_marked_storedBody hname (mt (Text.infix_of_joinLineEnds (by decide)) hmark)
  have hvariable : '\x7d' ∉ ' ' :: (name.toList ++ [' ']) := by
    simpa using hname.not_mem (by decide)
  have hafter (skip : Bool) (rest : List Char) : Region.afterTag skip ('\x7b' :: rest) = '\x7b' :: rest := rfl
  have hshown := Region.places_variable hname
  rw [String.ofList_toList] at hf hshown
  have hplaces : ∃ n, List.Forall₂ Region.Places
      (Region.scan options.skipNewline 0 (Text.withUnixLines (storedSource name expr)).toList)
      [.assign name f .here 3, .output (.variable name n)] := by
    rw [toList_storedSource hname, Region.scan_tag (Region.splitAtMark_eq hbody _), hafter,
      Region.scan_output (Region.splitAtMark_append hvariable []), Region.scan]
    exact ⟨_, .cons hf (.cons (hshown _) .nil)⟩
  obtain ⟨n, hplaces⟩ := hplaces
  exact ⟨f, n, Template.parse_of_places path hplaces rfl, hunplaced⟩

theorem parse_shownSource (he : Expr.ofText 0 (Text.joinLineEnds expr.toList) = .ok e)
    (hmark : ¬['\x7d', '\x7d'] <:+: expr.toList) (options : ParserOptions) (path : Option String) :
    ∃ f, Template.parse options path (shownSource expr) = .ok
        ⟨Text.withUnixLines (shownSource expr), path, [.output f]⟩ ∧ f.unplaced = e.unplaced := by
  obtain ⟨f, hf, hunplaced⟩ := Region.places_shown he 2
  have hbody : ¬['\x7d', '\x7d'] <:+: ' ' :: (Text.joinLineEnds expr.toList ++ [' ']) ++ ['\x7d'] := by
    refine @Region.not_marked_append _ _ _ [' '] (by decide) (Region.not_marked_blank (by decide) (by decide) ?_)
    exact mt (Text.infix_of_joinLineEnds (by decide)) hmark
  refine ⟨f, Template.parse_of_places path ?_ rfl, hunplaced⟩
  rw [toList_shownSource, Region.scan_output (Region.splitAtMark_eq hbody []), Region.scan]
  exact .cons hf .nil

namespace Renderer

variable {r : Renderer} {t : Template} {data : Dict Value} {n m : Nat}

theorem exists_stored (r : Renderer) (data : Dict Value) (name : String) (v : Value) :
    ∃ st, Rendering.updateScope (·.assign .here name v) (r.start data) = .ok () st ∧
      st.scope.lookup name = some v ∧ st.scope.signals = .none ∧ st.output = "" := by
  refine ⟨_, rfl, ?_, rfl, rfl⟩
  have hframe : (Scope.bind name v ⟨.file, []⟩).bindings.get? name = some v := Dict.get?_insert_self [] name v
  show List.findSome? _ [Scope.bind name v ⟨.file, []⟩, ⟨.globals, data⟩] = some v
  rw [List.findSome?_cons, hframe]

theorem render_stored_ok (ht : t.nodes = [.assign name e .here n, .output (.variable name m)]) {v : Value}
    (he : e.eval ⟨(r.start data).scope, r.engine.filters⟩ = .ok v) :
    (r.render t data).1 = r.hooks.stringify v ∧ (r.render t data).2.errors = [] := by
  obtain ⟨st, hassign, hlookup, hsignals, houtput⟩ := exists_stored r data name v
  have hvariable : (Expr.variable name m).eval ⟨st.scope, r.engine.filters⟩ = .ok v := by
    rw [Expr.eval, hlookup]
    rfl
  have hall : Node.processAll r.engine (r.engine.includer r.includeLimit) t.nodes (r.start data) =
      .ok () (st.write (r.hooks.stringify v)) := by
    rw [ht, Node.processAll_cons, Node.process_assign, he]
    dsimp only
    rw [hassign]
    dsimp only
    rw [hsignals, if_pos (show Signals.none.isNone from rfl), Node.processAll_cons, Node.process_output, hvariable]
    exact ite_self _
  have hdiscard : (st.write (r.hooks.stringify v)).scope.signals.discard = false := by
    rw [RenderState.write, hsignals]
    rfl
  obtain ⟨hshown, herrors, -⟩ := render_of_ok hall hdiscard
  refine ⟨hshown.trans ?_, herrors⟩
  rw [RenderState.write, houtput, String.empty_append]

theorem render_stored_error (ht : t.nodes = [.assign name e .here n, .output (.variable name m)]) {x : EvalError}
    (he : e.eval ⟨(r.start data).scope, r.engine.filters⟩ = .error x) : (r.render t data).2.errors = [x] := by
  refine @errors_of_failed r t data (r.start data) x ?_
  simp [ht, he]

end Renderer

/-- An expression without closing marks in it can be stored in a variable that is then shown, or be shown at
once. Both sources are parsed, whatever the options. For every renderer and all data both renders give the same
output and no error, or both record one error, and the errors have the same message. -/
theorem stored_shown_alike (hname : Token.Spells .identifier name.toList)
    (he : ∃ ts e, tokenize expr 0 (Text.byteLength expr.toList) = .ok ts ∧
      Expr.ofTokens ts (Text.byteLength expr.toList) = .ok e)
    (houtput : ¬['\x7d', '\x7d'] <:+: expr.toList) (htag : ¬['%', '\x7d'] <:+: expr.toList)
    (options options' : ParserOptions) (path path' : Option String) :
    ∃ stored shown, Template.parse options path (storedSource name expr) = .ok stored ∧
      Template.parse options' path' (shownSource expr) = .ok shown ∧
      ∀ (r : Renderer) (data : Dict Value),
        ((r.render stored data).2.errors = [] ∧ (r.render shown data).2.errors = [] ∧
          (r.render stored data).1 = (r.render shown data).1) ∨
        ∃ x y, (r.render stored data).2.errors = [x] ∧ (r.render shown data).2.errors = [y] ∧
          x.message = y.message := by
  obtain ⟨ts, e, hts, he⟩ := he
  have htext : Expr.ofText 0 expr.toList = .ok e := by
    rw [tokenize, Text.span_all] at hts
    rw [Expr.ofText, hts]
    exact Expr.ofTokens_ok_of_ok he
  obtain ⟨e, he⟩ := Expr.ofText_joinLineEnds htext 0
  obtain ⟨f, n, hstored, hf⟩ := parse_storedSource hname he htag options path
  obtain ⟨g, hshown, hg⟩ := parse_shownSource he houtput options' path'
  refine ⟨_, _, hstored, hshown, fun r data => ?_⟩
  have hmatches : Evaluated.Matches (f.eval ⟨(r.start data).scope, r.engine.filters⟩)
      (g.eval ⟨(r.start data).scope, r.engine.filters⟩) := Expr.eval_matches _ (hf.trans hg.symm)
  rcases hmatches.cases with ⟨v, hfv, hgv⟩ | ⟨x, y, hfx, hgy, hmessage⟩
  · obtain ⟨hs, hserrors⟩ := Renderer.render_stored_ok (t := ⟨_, path, _⟩) rfl hfv
    obtain ⟨ho, hoerrors⟩ := Renderer.render_output_ok (t := ⟨_, path', _⟩) rfl hgv
    exact .inl ⟨hserrors, hoerrors, hs.trans ho.symm⟩
  · exact .inr ⟨x, y, Renderer.render_stored_error rfl hfx, Renderer.render_output_error rfl hgy, hmessage⟩

/-- A string over two lines, and nothing that can be added to it. -/
theorem stored_shown_alike_lines : ∃ stored shown x y,
    Template.parse .plain none "\x7b% assign x = 'a\r\nb' + y %\x7d\x7b\x7b x \x7d\x7d" = .ok stored ∧
      Template.parse .plain none "\x7b\x7b 'a\r\nb' + y \x7d\x7d" = .ok shown ∧
      ((Renderer.new Hooks.standard).render stored []).2.errors = [x] ∧
      ((Renderer.new Hooks.standard).render shown []).2.errors = [y] ∧ x.message = y.message := by
  have hexpr : ∃ ts e, tokenize "'a\r\nb' + y" 0 (Text.byteLength "'a\r\nb' + y".toList) = .ok ts ∧
      Expr.ofTokens ts (Text.byteLength "'a\r\nb' + y".toList) = .ok e := ⟨_, _, by cbv, by cbv⟩
  have hname : Token.Spells .identifier "x".toList := .name rfl (List.forall_mem_nil _) (by decide)
  obtain ⟨stored, shown, hstored, hshown, hrender⟩ :=
    stored_shown_alike hname hexpr (by decide) (by decide) .plain .plain none none
  have hsource : storedSource "x" "'a\r\nb' + y" =
    "\x7b% assign x = 'a\r\nb' + y %\x7d\x7b\x7b x \x7d\x7d" := by decide
  have hsource' : shownSource "'a\r\nb' + y" = "\x7b\x7b 'a\r\nb' + y \x7d\x7d" := by decide
  rw [hsource] at hstored
  rw [hsource'] at hshown
  have hnodes : Template.parse .plain none "\x7b\x7b 'a\r\nb' + y \x7d\x7d" = .ok
      ⟨"\x7b\x7b 'a\nb' + y \x7d\x7d", none,
        [.output (.binary .add (.literal (.string "a\nb") 3) (.variable "y" 11) 9)]⟩ := by cbv
  obtain rfl := Except.ok.inj (hshown.symm.trans hnodes)
  rcases hrender (.new Hooks.standard) [] with ⟨-, hnone, -⟩ | ⟨x, y, hx, hy, hmessage⟩
  · have hfails : ∃ z, Expr.eval
        ⟨((Renderer.new Hooks.standard).start []).scope, (Renderer.new Hooks.standard).engine.filters⟩
        (.binary .add (.literal (.string "a\nb") 3) (.variable "y" 11) 9) = .error z := ⟨_, by cbv⟩
    obtain ⟨z, hz⟩ := hfails
    cases hnone.symm.trans (Renderer.render_output_error rfl hz)
  · exact ⟨stored, _, x, y, hstored, hnodes, hx, hy, hmessage⟩

end

end Stencil
