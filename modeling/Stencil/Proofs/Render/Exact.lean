import Stencil.Proofs.Expr.Formula
import Stencil.Proofs.Node.Flat
import Stencil.Proofs.Render.Step

namespace Stencil

theorem intText_eq_toString (n : Int) : intText n = toString n := by
  cases n <;> rfl

theorem Blanks.brace_not_mem {cs : List Char} (h : Blanks cs) : '\x7d' ∉ cs :=
  fun hm => absurd (h _ hm) (by decide)

theorem Numeral.brace_not_mem (m : Numeral) : '\x7d' ∉ m.text := by
  have hdigits : '\x7d' ∉ m.digits := fun hm => absurd (m.isDigit _ hm) (by decide)
  rw [text]
  cases hs : m.sign with
  | none => exact hdigits
  | some gap =>
      have hgap := (m.blanks gap hs).brace_not_mem
      simp [hgap, hdigits]

theorem Calculation.Link.brace_not_mem (k : Link) : '\x7d' ∉ k.text := by
  have hsign : '\x7d' ≠ k.op.sign := by cases k.op <;> decide
  simp [text, k.blanks_before.brace_not_mem, k.blanks_after.brace_not_mem, k.numeral.brace_not_mem, hsign]

namespace Formula

theorem brace_not_mem (f : Formula) : '\x7d' ∉ f.text := by
  have hlinks : '\x7d' ∉ Calculation.textOf f.links := by
    rw [Calculation.textOf, List.mem_flatMap]
    rintro ⟨k, -, hk⟩
    exact k.brace_not_mem hk
  simp [text, f.blanks_lead.brace_not_mem, f.blanks_trail.brace_not_mem, f.first.brace_not_mem, hlinks]

def source (f : Formula) : String :=
  String.ofList ('\x7b' :: '\x7b' :: (f.text ++ ['\x7d', '\x7d']))

def steps (f : Formula) : List Calculation.Step :=
  Calculation.steps f.first.value (f.terms 2)

def value (f : Formula) : Int :=
  Calculation.value f.first.value (f.terms 2)

def tree (f : Formula) : Expr :=
  Operation.fold (.literal (.int (Int64.ofInt f.first.value)) (f.place 2))
    ((f.terms 2).map Calculation.Term.operation)

theorem parse_source (f : Formula) (hfirst : Fits f.first.value)
    (hlinks : ∀ k ∈ f.links, Fits k.numeral.value) (options : ParserOptions) (path : Option String)
    {text : String} (htext : Text.withUnixLines text = f.source) :
    Template.parse options path text = .ok ⟨f.source, path, [.output f.tree]⟩ := by
  have hscan : Region.scan options.skipNewline 0 f.source.toList = [.output 2 f.text] := by
    rw [source, String.toList_ofList, Region.scan_output (Region.splitAtMark_append f.brace_not_mem []),
      Region.scan]
  have hplaces : List.Forall₂ Region.Places
      (Region.scan options.skipNewline 0 (Text.withUnixLines text).toList) [.output f.tree] := by
    rw [htext, hscan]
    exact .cons (Region.Yields.output (f.scan_text 2) (f.ofTokens_tokens hfirst hlinks _ _)).places .nil
  rw [Template.parse_of_places path hplaces rfl, htext]

theorem computes_tree (f : Formula) (env : Environment) (hfirst : Fits f.first.value)
    (hlinks : ∀ k ∈ f.links, Fits k.numeral.value) : Calculation.Computes env f.tree f.steps f.value :=
  Calculation.computes_fold hfirst (Calculation.fits_of_mem_terms hlinks _) _

end Formula

namespace Renderer

variable {r : Renderer} {t : Template} {data : Dict Value} {e : Expr}

theorem render_output_ok (ht : t.nodes = [.output e]) {v : Value}
    (he : e.eval ⟨(r.start data).scope, r.engine.filters⟩ = .ok v) :
    (r.render t data).1 = r.hooks.stringify v ∧ (r.render t data).2.errors = [] := by
  have hall : Node.processAll r.engine (r.engine.includer r.includeLimit) t.nodes (r.start data) =
      .ok () ((r.start data).write (r.hooks.stringify v)) := by
    rw [ht, Node.processAll_cons, Node.process_output, he]
    rfl
  obtain ⟨houtput, herrors, -⟩ := render_of_ok hall rfl
  exact ⟨houtput.trans String.empty_append, herrors⟩

theorem render_output_error (ht : t.nodes = [.output e]) {x : EvalError}
    (he : e.eval ⟨(r.start data).scope, r.engine.filters⟩ = .error x) :
    (r.render t data).2.errors = [x] := by
  refine @errors_of_failed r t data (r.start data) x ?_
  simp [ht, he]

end Renderer

/-- A template that shows the value of a formula is parsed. If no operator fails, a render shows the decimal
text of the exact value. Otherwise it records one error, of the first operator that fails in the order in which
operators are applied, and where this operator stands. -/
theorem Formula.render_exact (f : Formula) (hfirst : Fits f.first.value)
    (hlinks : ∀ k ∈ f.links, Fits k.numeral.value) (options : ParserOptions) (path : Option String)
    {text : String} (htext : Text.withUnixLines text = f.source) :
    ∃ t, Template.parse options path text = .ok t ∧ t.source = f.source ∧
      ∀ (r : Renderer) (data : Dict Value), r.hooks = Hooks.standard →
        ((∀ s ∈ f.steps, s.failure? = none) →
          (r.render t data).1 = toString f.value ∧ (r.render t data).2.errors = []) ∧
        ∀ before s after x, f.steps = before ++ s :: after → (∀ u ∈ before, u.failure? = none) →
          s.failure? = some x → (r.render t data).2.errors = [x] := by
  refine ⟨_, f.parse_source hfirst hlinks options path htext, rfl, fun r data hr => ?_⟩
  have hcomputes := f.computes_tree ⟨(r.start data).scope, r.engine.filters⟩ hfirst hlinks
  have heval := hcomputes.eval_eq
  constructor
  · intro hsteps
    have hnone : Calculation.failure? f.steps = none := List.findSome?_eq_none_iff.2 hsteps
    rw [Calculation.outcome, hnone] at heval
    obtain ⟨houtput, herrors⟩ :=
      Renderer.render_output_ok (t := ⟨f.source, path, [.output f.tree]⟩) rfl heval
    have hshow (n : Int64) : Hooks.standard.stringify (.int n) = intText n.toInt := rfl
    rw [houtput, hr, hshow, toInt_ofInt_of_fits (hcomputes.fits hnone), intText_eq_toString]
    exact ⟨rfl, herrors⟩
  · intro before s after x hsteps hbefore hs
    have hsome : Calculation.failure? f.steps = some x :=
      List.findSome?_eq_some_iff.2 ⟨before, s, after, hsteps, hs, hbefore⟩
    rw [Calculation.outcome, hsome] at heval
    exact Renderer.render_output_error (t := ⟨f.source, path, [.output f.tree]⟩) rfl heval

def leastFormula : Formula where
  lead := []
  first := { sign := some [], digits := "9223372036854775808".toList }
  links :=
    [{ before := [], op := .add, after := [], numeral := { sign := none, digits := ['7'] } },
      { before := [], op := .multiply, after := [], numeral := { sign := some [], digits := ['3'] } },
      { before := [' '], op := .divide, after := [' '], numeral := { sign := some [], digits := ['2'] } }]
  trail := []

def refusedFormula : Formula where
  lead := [' ']
  first := { sign := none, digits := ['7'] }
  links :=
    [{ before := [' '], op := .subtract, after := [' '],
        numeral := { sign := some [], digits := "9223372036854775808".toList } },
      { before := [' '], op := .divide, after := [' '], numeral := { sign := some [], digits := ['1'] } },
      { before := [' '], op := .add, after := [' '], numeral := { sign := none, digits := ['1'] } },
      { before := [], op := .divide, after := [], numeral := { sign := none, digits := ['0'] } }]
  trail := [' ']

/-- Only the quotient of the least number fits no more, and the sum behind it is not looked at. -/
theorem Formula.render_exact_limits :
    (∃ t, Template.parse .plain none "\x7b\x7b-9223372036854775808+7*-3 / -2\x7d\x7d" = .ok t ∧
      ((Renderer.new Hooks.standard).render t []).1 = "-9223372036854775798") ∧
      ∃ t, Template.parse .plain none "\x7b\x7b 7 - -9223372036854775808 / -1 + 1/0 \x7d\x7d" = .ok t ∧
        ((Renderer.new Hooks.standard).render t []).2.errors = [EvalFault.overflow.at 28] := by
  have hleast : ∀ k ∈ leastFormula.links, Fits k.numeral.value := by decide
  have hrefused : ∀ k ∈ refusedFormula.links, Fits k.numeral.value := by decide
  have hsteps : leastFormula.steps =
      [⟨.multiply, 24, 7, -3⟩, ⟨.divide, 28, -21, -2⟩, ⟨.add, 22, -9223372036854775808, 10⟩] := by cbv
  have hvalue : toString leastFormula.value = "-9223372036854775798" := by cbv
  have hrefusal : refusedFormula.steps =
      [] ++ ⟨.divide, 28, -9223372036854775808, -1⟩ ::
        [⟨.subtract, 5, 7, 9223372036854775808⟩, ⟨.divide, 36, 1, 0⟩,
          ⟨.add, 33, -9223372036854775801, 0⟩] := by cbv
  constructor
  · have htext : Text.withUnixLines "\x7b\x7b-9223372036854775808+7*-3 / -2\x7d\x7d" = leastFormula.source := by
      decide
    obtain ⟨t, ht, -, hrender⟩ := leastFormula.render_exact (by decide) hleast .plain none htext
    refine ⟨t, ht, ?_⟩
    rw [((hrender (.new Hooks.standard) [] rfl).1 (by rw [hsteps]; decide)).1, hvalue]
  · have htext : Text.withUnixLines "\x7b\x7b 7 - -9223372036854775808 / -1 + 1/0 \x7d\x7d" =
        refusedFormula.source := by
      decide
    obtain ⟨t, ht, -, hrender⟩ := refusedFormula.render_exact (by decide) hrefused .plain none htext
    exact ⟨t, ht, (hrender (.new Hooks.standard) [] rfl).2 _ _ _ _ hrefusal (by decide) (by decide)⟩

end Stencil
