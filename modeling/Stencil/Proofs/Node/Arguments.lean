import Mathlib
import Stencil.Proofs.Expr.Neighbours
import Stencil.Proofs.Node.Spelling

namespace Stencil

open Token (Balanced Whole StartsNoName startsNoName_append startsNoName_cons startsNoName_nil)

namespace Expr

variable {ts before : List Token} {many : Bool}

/-- The first comma outside brackets. What stands before it is a phrase by itself, what stands behind it begins
with no name, and where nothing stands behind it the phrase is the same with and without the comma. -/
inductive Cut {α : Type} (P : List Token → α → Prop) (ts : List Token) (a : α) : Prop
  | intro {front rest : List Token} {comma : Token} {b : α} : ts = front ++ comma :: rest →
      comma.kind = .comma → Whole front → P front b → StartsNoName rest → (rest = [] → b = a) → Cut P ts a

theorem Cut.prepend {α : Type} {P Q : List Token → α → Prop} {a : α} (h : Cut P ts a) (hw : Whole before)
    (hq : ∀ front b, P front b → Q (before ++ front) b) : Cut Q (before ++ ts) a := by
  obtain ⟨rfl, hc, hfront, hp, hn, hlast⟩ := h
  exact .intro (List.append_assoc _ _ _).symm hc (hw.append hfront) (hq _ _ hp) hn hlast

theorem Constant.startsNoName {v : Value} (h : Constant ts v) : StartsNoName ts := by
  cases h with
  | literal hl =>
      cases hl with
      | boolean hk | integer hk | string hk | nil hk => exact startsNoName_cons hk (by decide)
      | negative hs hd => exact startsNoName_cons (Token.kind_of_isOperator hs) (by decide)
  | emptyArray ho hc => exact startsNoName_cons ho (by decide)
  | array ho hc hi => exact startsNoName_cons ho (by decide)

theorem Arguments.startsNoName {vs : List Value} (h : Arguments many ts vs) : StartsNoName ts := by
  cases h with
  | nil => exact startsNoName_nil
  | one h => exact h.startsNoName
  | more _ h hc => exact startsNoName_append h.startsNoName (startsNoName_cons hc (by decide))

theorem Arguments.of_nil {vs : List Value} (h : Arguments many [] vs) : vs = [] := by
  generalize hts : ([] : List Token) = ts at h
  cases h with
  | nil => rfl
  | one h =>
      obtain ⟨t, more, rfl, -⟩ := h.exists_cons
      cases hts
  | more => exact absurd hts.symm (List.append_ne_nil_of_right_ne_nil _ (List.cons_ne_nil _ _))

theorem Filters.of_nil {e e' : Expr} (h : Filters many e [] e') : e = e' := by
  cases h
  rfl

theorem Arguments.whole_or_cut {vs : List Value} (h : Arguments many ts vs) :
    Whole ts ∨ Cut (Arguments many) ts vs := by
  cases h with
  | nil => exact .inl .nil
  | one h => exact .inl h.whole
  | more _ h hc hr =>
      refine .inr (.intro rfl hc h.whole (.one h) hr.startsNoName ?_)
      rintro rfl
      rw [hr.of_nil]

theorem Filters.whole_or_cut {e e' : Expr} (h : Filters many e ts e') :
    Whole ts ∨ Cut (Filters many e) ts e' := by
  induction h with
  | nil => exact .inl .nil
  | @bare e e' bar name rest hb hn hr ih =>
      have hfront : Whole [bar, name] := .plain hb (by decide) (.plain hn (by decide) .nil)
      exact ih.imp hfront.append fun hcut => hcut.prepend hfront fun _ _ hf => .bare hb hn hf
  | @applied e e' bar name colon ts rest vs hb hn hc ha hr ih =>
      have hfront : Whole [bar, name, colon] :=
        .plain hb (by decide) (.plain hn (by decide) (.plain hc (by decide) .nil))
      rcases ha.whole_or_cut with hw | ⟨rfl, hcomma, hfront', ha', hn', hlast⟩
      · have hfront := hfront.append hw
        exact ih.imp hfront.append fun hcut => hcut.prepend hfront fun _ _ hf => .applied hb hn hc ha hf
      · have happlied : Filters many e (bar :: name :: colon :: (_ ++ [])) _ := .applied hb hn hc ha' .nil
        rw [List.append_nil] at happlied
        refine .inr (.intro (by simp) hcomma (hfront.append hfront') happlied
          (startsNoName_append hn' hr.startsPipe.startsNoName) fun hnil => ?_)
        obtain ⟨hrest, rfl⟩ := List.append_eq_nil_iff.1 hnil
        rw [hlast hrest, hr.of_nil]

/-- Only the constants of a filter bring a comma outside brackets into an expression. -/
theorem Sentence.whole_or_cut {e : Expr} (h : Sentence many ts e) :
    Whole ts ∨ Cut (Sentence many) ts e := by
  cases h with
  | @chain _ ts more rest _ _ _ hf hc hr =>
      have hfront := hf.whole.append hc.whole
      rw [← List.append_assoc]
      refine hr.whole_or_cut.imp hfront.append fun hcut => hcut.prepend hfront fun front b hb => ?_
      rw [List.append_assoc]
      exact .chain hf hc hb

theorem Sentence.of_comma {front : List Token} {comma : Token} {e : Expr}
    (h : Sentence many (front ++ [comma]) e) (hw : Whole front) (hc : comma.kind = .comma) :
    Sentence many front e := by
  have hsplit : Token.splitAtDepth .comma 0 (front ++ [comma]) = front :: Token.splitAtDepth .comma 0 [] :=
    Token.splitAtDepth_cons hw hc
  rcases h.whole_or_cut with hwhole | ⟨heq, hc', hfront, he, -, hlast⟩
  · rw [Token.splitAtDepth_of_whole hwhole] at hsplit
    exact absurd (List.cons.inj hsplit).2.symm (Token.splitAtDepth_ne_nil _ _ _)
  · rw [heq, Token.splitAtDepth_cons hfront hc'] at hsplit
    obtain ⟨rfl, -⟩ := List.cons.inj hsplit
    obtain ⟨-, rfl⟩ := List.cons.inj (List.append_cancel_left heq)
    rw [← hlast rfl]
    exact he

end Expr

namespace Instruction

variable {ts front rest names parts : List Token} {t key sign : Token} {name : String} {offset stop : Nat}
  {e : Expr}

inductive EndsValue : List Token → Prop
  | nil : EndsValue []
  | comma {t : Token} {rest : List Token} : t.kind = .comma → EndsValue (t :: rest)
  | argument {key sign : Token} {rest : List Token} :
      key.kind = .identifier → sign.isOperator "=" → EndsValue (key :: sign :: rest)

theorem EndsValue.not_startsWithSign (h : EndsValue ts) : ¬startsWithSign ts := by
  cases h with
  | nil => decide
  | comma hk | argument hk => exact Token.not_isOperator hk (by decide) _

theorem takeValue_of_endsValue (h : EndsValue ts) : takeValue false 0 ts = ([], ts) := by
  cases h with
  | nil => rfl
  | comma hc => exact if_pos ⟨rfl, .inl hc⟩
  | argument hk hs => exact if_pos ⟨rfl, .inr ⟨by decide, hk, hs⟩⟩

theorem takeValue_cons (isFirst : Bool) (depth : Nat)
    (h : ¬(depth = 0 ∧ (t.kind = .comma ∨ !isFirst ∧ t.kind = .identifier ∧ startsWithSign ts))) :
    takeValue isFirst depth (t :: ts) =
      (takeValue false (Token.depthAfter depth t) ts).map (t :: ·) id :=
  if_neg h

@[simp]
theorem takeValue_inside (isFirst : Bool) (depth : Nat) (t : Token) (ts : List Token) :
    takeValue isFirst (depth + 1) (t :: ts) =
      (takeValue false (Token.depthAfter (depth + 1) t) ts).map (t :: ·) id :=
  takeValue_cons _ _ fun h => absurd h.1 (Nat.succ_ne_zero depth)

theorem takeValue_balanced (h : Balanced ts) (depth : Nat) (rest : List Token) :
    takeValue false (depth + 1) (ts ++ rest) = (takeValue false (depth + 1) rest).map (ts ++ ·) id := by
  induction h generalizing depth rest with
  | nil => rfl
  | cons hl hr _ ih =>
      rw [List.cons_append, takeValue_inside, Token.depthAfter_plain _ hl hr, ih]
      rfl
  | group ho hc _ _ ih_inner ih =>
      rw [List.cons_append, List.append_assoc, List.cons_append, takeValue_inside,
        Token.depthAfter_opening _ ho, ih_inner, takeValue_inside, Token.depthAfter_closing _ hc,
        Nat.add_sub_cancel, ih]
      simp [Prod.map]

theorem takeValue_whole {isFirst : Bool} (h : Whole front) (hs : ∀ t ∈ front, ¬t.isOperator "=")
    (hr : EndsValue rest) (hne : isFirst → front ≠ []) :
    takeValue isFirst 0 (front ++ rest) = (front, rest) := by
  induction h generalizing isFirst with
  | nil =>
      cases isFirst with
      | true => exact absurd rfl (hne rfl)
      | false => exact takeValue_of_endsValue hr
  | @cons t ts hl hrb hc _ ih =>
      have hsign : ¬startsWithSign (ts ++ rest) := by
        cases ts with
        | nil => exact hr.not_startsWithSign
        | cons u us => exact hs u (by simp)
      have hts : takeValue false 0 (ts ++ rest) = (ts, rest) :=
        ih (fun u hu => hs u (List.mem_cons_of_mem _ hu)) nofun
      rw [List.cons_append, takeValue_cons _ _ (by simp [hc, hsign]), Token.depthAfter_plain _ hl hrb, hts]
      rfl
  | @group opening closing inner ts ho hc hi _ ih =>
      have hopen : ¬(opening.kind = .comma ∨ !isFirst ∧ opening.kind = .identifier ∧
          startsWithSign (inner ++ closing :: (ts ++ rest))) := by
        simp [ho]
      have hts : takeValue false 0 (ts ++ rest) = (ts, rest) :=
        ih (fun u hu => hs u (by simp [hu])) nofun
      rw [List.cons_append, List.append_assoc, List.cons_append, takeValue_cons _ _ (fun h => hopen h.2),
        Token.depthAfter_opening _ ho, takeValue_balanced hi, takeValue_inside, Token.depthAfter_closing _ hc,
        Nat.add_sub_cancel, hts]
      simp [Prod.map]

theorem embedArguments_cons (hk : key.kind = .identifier) (hs : sign.isOperator "=")
    (he : Expr.Sentence true front e) (hw : Whole front) (hr : EndsValue rest) :
    embedArguments (key :: sign :: (front ++ rest)) stop =
      (embedArguments (dropComma rest) stop).map ((key.text, e) :: ·) := by
  have htake := takeValue_whole hw he.knit.signless hr fun _ : true = true => he.ne_nil
  rw [embedArguments]
  dsimp only [bind, Except.bind]
  rw [if_neg (not_not_intro hk), if_neg (by simpa using hs), htake]
  dsimp only
  rw [Expr.ofTokens_ok_iff.2 he]
  cases embedArguments (dropComma rest) stop <;> rfl

theorem embedArguments_of_kind_ne (h : t.kind ≠ .identifier) :
    embedArguments (t :: ts) stop = .error (ParseFault.expectedArgumentName.at t.offset) := by
  rw [embedArguments.eq_def]
  exact if_pos h

inductive TemplateName : List Token → String → Prop
  | quoted {t : Token} : t.kind = .string → TemplateName [t] t.unquoted
  | dotted {t : Token} {parts : List (Token × Token)} : t.kind = .identifier →
      (∀ p ∈ parts, p.1.kind = .dot ∧ p.2.kind = .identifier) →
        TemplateName (t :: parts.flatMap fun p => [p.1, p.2])
          (".".intercalate (t.text :: parts.map (·.2.text)))

theorem dotted_of_head (h : ∀ t ∈ rest.head?, t.kind ≠ .dot) : dotted name rest = (name, rest) := by
  match rest with
  | [] | [_] => rfl
  | t :: u :: rest => exact if_neg fun hk => h t rfl hk.1

/-- The induction is on the parts, with the name so far. -/
theorem dotted_flatMap {parts : List (Token × Token)}
    (hp : ∀ p ∈ parts, p.1.kind = .dot ∧ p.2.kind = .identifier) (hr : ∀ t ∈ rest.head?, t.kind ≠ .dot) :
    dotted name (parts.flatMap (fun p => [p.1, p.2]) ++ rest) =
      (".".intercalate (name :: parts.map (·.2.text)), rest) := by
  induction parts generalizing name with
  | nil => exact dotted_of_head hr
  | cons p parts ih =>
      obtain ⟨hfirst, hparts⟩ := List.forall_mem_cons.1 hp
      exact (if_pos hfirst).trans (ih hparts)

theorem embed_templateName (h : TemplateName names name) (hr : ∀ t ∈ rest.head?, t.kind ≠ .dot) :
    embed offset (names ++ rest) stop = embedWith name offset rest stop := by
  cases h with
  | quoted hk => exact if_pos hk
  | @dotted t parts hk hp =>
      have hs : t.kind ≠ .string := by
        rw [hk]
        decide
      rw [List.cons_append, embed]
      dsimp only
      rw [if_neg hs, if_pos hk, dotted_flatMap hp hr]

structure Argument where
  key : Token
  sign : Token
  value : List Token
  comma : Option Token
  expression : Expr
  isName : key.kind = .identifier
  isSign : sign.isOperator "="
  isComma : ∀ t ∈ comma, t.kind = .comma
  isExpression : ∃ stop, Expr.ofTokens value stop = .ok expression

namespace Argument

variable {a : Argument} {args : List Argument}

def tokens (a : Argument) : List Token :=
  a.key :: a.sign :: (a.value ++ a.comma.toList)

def binding (a : Argument) : String × Expr :=
  (a.key.text, a.expression)

/-- The value has no comma outside brackets, apart from one at its end that no comma between two arguments
follows. -/
def Intact (a : Argument) : Prop :=
  ∃ front, Whole front ∧ (a.value = front ∨ a.comma = none ∧ ∃ t, t.kind = .comma ∧ a.value = front ++ [t])

theorem sentence (a : Argument) : Expr.Sentence true a.value a.expression := by
  obtain ⟨stop, h⟩ := a.isExpression
  exact Expr.ofTokens_ok_iff.1 h

theorem endsValue_flatMap (args : List Argument) : EndsValue (args.flatMap tokens) := by
  cases args with
  | nil => exact .nil
  | cons a args => exact .argument a.isName a.isSign

theorem dropComma_flatMap (args : List Argument) : dropComma (args.flatMap tokens) = args.flatMap tokens := by
  cases args with
  | nil => rfl
  | cons a args =>
      refine if_neg ?_
      rw [a.isName]
      decide

/-- Where the value is cut. Behind the comma that ends it stands no name. -/
theorem embed_cut (h : Expr.Cut (Expr.Sentence true) a.value a.expression) (hi : ¬a.Intact)
    (rest : List Token) (stop : Nat) : ∃ t ∈ a.tokens,
      embedArguments (a.tokens ++ rest) stop = .error (ParseFault.expectedArgumentName.at t.offset) := by
  obtain ⟨hv, hc, hw, he, hn, -⟩ := h
  rename_i front behind comma e
  have hstray : ∃ t ∈ a.tokens, t.kind ≠ .identifier ∧
      ∃ us, behind ++ (a.comma.toList ++ rest) = t :: us := by
    cases behind with
    | cons t behind => exact ⟨t, by simp [tokens, hv], hn t rfl, _, rfl⟩
    | nil =>
        cases hcomma : a.comma with
        | none => exact absurd ⟨front, hw, .inr ⟨hcomma, comma, hc, hv⟩⟩ hi
        | some t =>
            refine ⟨t, by simp [tokens, hcomma], ?_, rest, rfl⟩
            rw [a.isComma t hcomma]
            decide
  obtain ⟨t, ht, hk, us, hus⟩ := hstray
  refine ⟨t, ht, ?_⟩
  have htokens : a.tokens ++ rest =
      a.key :: a.sign :: (front ++ comma :: (behind ++ (a.comma.toList ++ rest))) := by
    simp [tokens, hv]
  rw [htokens, embedArguments_cons a.isName a.isSign he hw (.comma hc), dropComma, if_pos hc, hus,
    embedArguments_of_kind_ne hk]
  rfl

theorem embed_intact (h : a.Intact) (args : List Argument) (stop : Nat) :
    embedArguments (a.tokens ++ args.flatMap tokens) stop =
      (embedArguments (args.flatMap tokens) stop).map (a.binding :: ·) := by
  obtain ⟨front, hw, hv | ⟨hnone, t, ht, hv⟩⟩ := h
  · have he := a.sentence
    rw [hv] at he
    have htokens : a.tokens ++ args.flatMap tokens =
        a.key :: a.sign :: (front ++ (a.comma.toList ++ args.flatMap tokens)) := by
      rw [tokens, hv, List.cons_append, List.cons_append, List.append_assoc]
    rw [htokens]
    cases hcomma : a.comma with
    | none =>
        rw [Option.toList_none, List.nil_append,
          embedArguments_cons a.isName a.isSign he hw (endsValue_flatMap args), dropComma_flatMap]
        rfl
    | some t =>
        have ht := a.isComma t hcomma
        rw [Option.toList_some, List.singleton_append,
          embedArguments_cons a.isName a.isSign he hw (.comma ht), dropComma, if_pos ht]
        rfl
  · have he := a.sentence
    rw [hv] at he
    have htokens : a.tokens ++ args.flatMap tokens =
        a.key :: a.sign :: (front ++ (t :: args.flatMap tokens)) := by
      rw [tokens, hv, hnone]
      simp
    rw [htokens, embedArguments_cons a.isName a.isSign (he.of_comma hw ht) hw (.comma ht), dropComma, if_pos ht]
    rfl

theorem cut_of_not_intact (h : ¬a.Intact) : Expr.Cut (Expr.Sentence true) a.value a.expression :=
  a.sentence.whole_or_cut.resolve_left fun hw => h ⟨a.value, hw, .inl rfl⟩

theorem embedArguments_ok (h : ∀ a ∈ args, a.Intact) (stop : Nat) :
    embedArguments (args.flatMap tokens) stop = .ok (args.map binding) := by
  induction args with
  | nil => rw [List.flatMap_nil, embedArguments]; rfl
  | cons a args ih =>
      obtain ⟨ha, hargs⟩ := List.forall_mem_cons.1 h
      rw [List.flatMap_cons, embed_intact ha, ih hargs]
      rfl

theorem embedArguments_error (h : ∃ a ∈ args, ¬a.Intact) (stop : Nat) : ∃ a ∈ args, ¬a.Intact ∧ ∃ t ∈ a.tokens,
    embedArguments (args.flatMap tokens) stop = .error (ParseFault.expectedArgumentName.at t.offset) := by
  induction args with
  | nil =>
      obtain ⟨a, ha, -⟩ := h
      cases ha
  | cons a args ih =>
      by_cases ha : a.Intact
      · obtain ⟨b, hb, hcut⟩ := h
        have hb : b ∈ args := (List.mem_cons.1 hb).resolve_left fun heq => hcut (heq ▸ ha)
        obtain ⟨b, hb, hcut, t, ht, herror⟩ := ih ⟨b, hb, hcut⟩
        refine ⟨b, List.mem_cons_of_mem _ hb, hcut, t, ht, ?_⟩
        rw [List.flatMap_cons, embed_intact ha, herror]
        rfl
      · obtain ⟨t, ht, herror⟩ := embed_cut (cut_of_not_intact ha) ha (args.flatMap tokens) stop
        exact ⟨a, List.mem_cons_self, ha, t, ht, herror⟩

end Argument

variable {keyword word : Token} {cs : List Char} {args : List Argument}

theorem embedWith_cons (hw : word.isWord "with") (hne : ts ≠ []) :
    embedWith name offset (word :: ts) stop =
      (embedArguments ts stop).map fun arguments => .place (.embed name arguments offset) := by
  rw [embedWith]
  dsimp only [bind, Except.bind]
  rw [if_neg (by simpa using hw), if_neg (by simpa using hne)]
  cases embedArguments ts stop <;> rfl

theorem ofTag_embed (h : Token.scan offset cs = .ok (keyword :: (names ++ word :: ts)))
    (hk : keyword.isWord "include") (hn : TemplateName names name) (hw : word.isWord "with") (hne : ts ≠ []) :
    ofTag offset cs = (embedArguments ts (offset + Text.byteLength cs)).map fun arguments =>
      .place (.embed name arguments keyword.offset) := by
  rw [Token.isWord_iff] at hk
  have hkeyword (stop : Nat) : ofKeyword keyword (names ++ word :: ts) stop =
      embed keyword.offset (names ++ word :: ts) stop := by
    rw [ofKeyword, hk.2]
    rfl
  have hdot : ∀ t ∈ (word :: ts).head?, t.kind ≠ .dot := by
    rintro t ⟨⟩
    rw [(Token.isWord_iff.1 hw).1]
    decide
  rw [ofTag_of_scan h hk.1 (by rw [hk.2]; decide), hkeyword, embed_templateName hn hdot, embedWith_cons hw hne]

/-- Behind the name of the template and the word `with`, arguments are read as they are written, each with its
own expression, if no value has a comma outside brackets before its end. A value that has one is cut there, and
the tag is refused at what stands behind the comma. -/
theorem arguments_read_or_cut
    (h : Token.scan offset cs = .ok (keyword :: (names ++ word :: args.flatMap Argument.tokens)))
    (hk : keyword.isWord "include") (hn : TemplateName names name) (hw : word.isWord "with") (hne : args ≠ []) :
    ((∀ a ∈ args, a.Intact) →
      ofTag offset cs = .ok (.place (.embed name (args.map Argument.binding) keyword.offset))) ∧
    ((∃ a ∈ args, ¬a.Intact) → ∃ a ∈ args, ¬a.Intact ∧ ∃ t ∈ a.tokens,
      ofTag offset cs = .error (ParseFault.expectedArgumentName.at t.offset)) := by
  have htokens : args.flatMap Argument.tokens ≠ [] := by
    obtain ⟨a, args, rfl⟩ := List.exists_cons_of_ne_nil hne
    exact List.cons_ne_nil _ _
  have htag := ofTag_embed h hk hn hw htokens
  refine ⟨fun hintact => ?_, fun hcut => ?_⟩
  · rw [htag, Argument.embedArguments_ok hintact]
    rfl
  · obtain ⟨a, ha, hcut, t, ht, herror⟩ :=
      Argument.embedArguments_error hcut (offset + Text.byteLength cs)
    refine ⟨a, ha, hcut, t, ht, ?_⟩
    rw [htag, herror]
    rfl

/-- One argument with a filter and a comma behind it, and one without. -/
theorem arguments_read_or_cut_pair :
    ofTag 2 " include p.q with x = v | f: 1, y = 2 ".toList = .ok (.place (.embed "p.q"
      [("x", .pipe (.variable "v" 24) "f" [.int 1] 28), ("y", .literal (.int 2) 38)] 3)) := by
  have hscan : Token.scan 2 " include p.q with x = v | f: 1, y = 2 ".toList = .ok
      [⟨.identifier, "include", 3⟩, ⟨.identifier, "p", 11⟩, ⟨.dot, ".", 12⟩, ⟨.identifier, "q", 13⟩,
        ⟨.identifier, "with", 15⟩, ⟨.identifier, "x", 20⟩, ⟨.operator, "=", 22⟩, ⟨.identifier, "v", 24⟩,
        ⟨.pipe, "|", 26⟩, ⟨.identifier, "f", 28⟩, ⟨.colon, ":", 29⟩, ⟨.integer, "1", 31⟩, ⟨.comma, ",", 32⟩,
        ⟨.identifier, "y", 34⟩, ⟨.operator, "=", 36⟩, ⟨.integer, "2", 38⟩] := by cbv
  have hname : TemplateName [⟨.identifier, "p", 11⟩, ⟨.dot, ".", 12⟩, ⟨.identifier, "q", 13⟩] "p.q" :=
    @TemplateName.dotted _ [(⟨.dot, ".", 12⟩, ⟨.identifier, "q", 13⟩)] rfl (by simp)
  have hread := @arguments_read_or_cut _ _ _ _ _ _
    [⟨⟨.identifier, "x", 20⟩, ⟨.operator, "=", 22⟩, [⟨.identifier, "v", 24⟩, ⟨.pipe, "|", 26⟩,
        ⟨.identifier, "f", 28⟩, ⟨.colon, ":", 29⟩, ⟨.integer, "1", 31⟩], some ⟨.comma, ",", 32⟩,
      .pipe (.variable "v" 24) "f" [.int 1] 28, rfl, by decide, by simp, 40, by cbv⟩,
    ⟨⟨.identifier, "y", 34⟩, ⟨.operator, "=", 36⟩, [⟨.integer, "2", 38⟩], none,
      .literal (.int 2) 38, rfl, by decide, by simp, 40, by cbv⟩]
    hscan rfl hname rfl (List.cons_ne_nil _ _)
  have hfilter : Whole [⟨.identifier, "v", 24⟩, ⟨.pipe, "|", 26⟩, ⟨.identifier, "f", 28⟩, ⟨.colon, ":", 29⟩,
      ⟨.integer, "1", 31⟩] :=
    .plain rfl (by decide) (.plain rfl (by decide) (.plain rfl (by decide) (.plain rfl (by decide)
      (.plain rfl (by decide) .nil))))
  have hnumber : Whole [⟨.integer, "2", 38⟩] := .plain rfl (by decide) .nil
  exact hread.1 (List.forall_mem_cons.2 ⟨⟨_, hfilter, .inl rfl⟩, List.forall_mem_singleton.2
    ⟨_, hnumber, .inl rfl⟩⟩)

/-- The second constant of a filter is refused, though with it the value is an expression. -/
theorem second_constant_refused : ∃ keyword name word key sign ts e,
    Token.scan 2 " include t with a = x | f: 1, 2 ".toList = .ok (keyword :: name :: word :: key :: sign :: ts) ∧
    Expr.ofTokens ts 34 = .ok e ∧ e = .pipe (.variable "x" 22) "f" [.int 1, .int 2] 26 ∧
    ofTag 2 " include t with a = x | f: 1, 2 ".toList = .error (ParseFault.expectedArgumentName.at 32) :=
  ⟨_, _, _, _, _, _, _, by cbv, by cbv, rfl, by cbv⟩

end Instruction

end Stencil
