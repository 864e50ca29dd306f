import Stencil.Proofs.Token.Balanced
import Stencil.Expr.Reader

namespace Stencil.Expr

inductive Literal : List Token → Value → Prop
  | boolean {t : Token} : t.kind = .boolean → Literal [t] (.bool (t.text = "true"))
  | integer {t : Token} {n : Int64} :
      t.kind = .integer → integer? (ofDigits t.text.toList) = some n → Literal [t] (.int n)
  | negative {sign digits : Token} {n : Int64} : sign.isOperator "-" → digits.kind = .integer →
      integer? (-(ofDigits digits.text.toList : Int)) = some n → Literal [sign, digits] (.int n)
  | string {t : Token} : t.kind = .string → Literal [t] (.string t.unquoted)
  | nil {t : Token} : t.kind = .nil → Literal [t] .null

mutual

inductive Constant : List Token → Value → Prop
  | literal {ts : List Token} {v : Value} : Literal ts v → Constant ts v
  | emptyArray {opening closing : Token} :
      opening.kind = .leftBracket → closing.kind = .rightBracket → Constant [opening, closing] (.array [])
  | array {opening closing : Token} {inner : List Token} {vs : List Value} :
      opening.kind = .leftBracket → closing.kind = .rightBracket → Constants inner vs →
        Constant (opening :: (inner ++ [closing])) (.array vs)

inductive Constants : List Token → List Value → Prop
  | one {ts : List Token} {v : Value} : Constant ts v → Constants ts [v]
  | more {ts rest : List Token} {comma : Token} {v : Value} {vs : List Value} :
      Constant ts v → comma.kind = .comma → Constants rest vs → Constants (ts ++ comma :: rest) (v :: vs)

end

inductive Arguments (many : Bool) : List Token → List Value → Prop
  | nil : Arguments many [] []
  | one {ts : List Token} {v : Value} : Constant ts v → Arguments many ts [v]
  | more {ts rest : List Token} {comma : Token} {v : Value} {vs : List Value} : many = true →
      Constant ts v → comma.kind = .comma → Arguments many rest vs →
        Arguments many (ts ++ comma :: rest) (v :: vs)

inductive Filters (many : Bool) : Expr → List Token → Expr → Prop
  | nil {e : Expr} : Filters many e [] e
  | bare {e e' : Expr} {bar name : Token} {rest : List Token} :
      bar.kind = .pipe → name.kind = .identifier →
        Filters many (.pipe e name.text [] name.offset) rest e' →
          Filters many e (bar :: name :: rest) e'
  | applied {e e' : Expr} {bar name colon : Token} {ts rest : List Token} {vs : List Value} :
      bar.kind = .pipe → name.kind = .identifier → colon.kind = .colon → Arguments many ts vs →
        Filters many (.pipe e name.text vs name.offset) rest e' →
          Filters many e (bar :: name :: colon :: (ts ++ rest)) e'

mutual

/-- A chain of operands, then filters. Where a comma would end the expression, filters have no `many`
arguments. -/
inductive Sentence : Bool → List Token → Expr → Prop
  | chain {many : Bool} {ts more rest : List Token} {first e : Expr} {chain : List Operation} :
      Operand ts first → Operations more chain → Filters many (Operation.fold first chain) rest e →
        Sentence many (ts ++ (more ++ rest)) e

inductive Operations : List Token → List Operation → Prop
  | nil : Operations [] []
  | cons {t : Token} {op : BinaryOp} {ts more : List Token} {right : Expr} {chain : List Operation} :
      t.kind = .operator → BinaryOp.ofSymbol? t.text = some op → Operand ts right →
        Operations more chain → Operations (t :: (ts ++ more)) (⟨op, t.offset, right⟩ :: chain)

inductive Operand : List Token → Expr → Prop
  | negation {t : Token} {ts : List Token} {e : Expr} :
      t.isOperator "not" ∨ t.isOperator "!" → Operand ts e → Operand (t :: ts) (.negation e t.offset)
  | primary {ts more : List Token} {e e' : Expr} :
      Primary ts e → Accesses e more e' → Operand (ts ++ more) e'

inductive Primary : List Token → Expr → Prop
  | variable {t : Token} : t.kind = .identifier → Primary [t] (.variable t.text t.offset)
  | literal {t : Token} {ts : List Token} {v : Value} :
      Literal (t :: ts) v → Primary (t :: ts) (.literal v t.offset)
  | emptyArray {opening closing : Token} : opening.kind = .leftBracket → closing.kind = .rightBracket →
      Primary [opening, closing] (.array [] opening.offset)
  | array {opening closing : Token} {inner : List Token} {es : List Expr} :
      opening.kind = .leftBracket → closing.kind = .rightBracket → Items inner es →
        Primary (opening :: (inner ++ [closing])) (.array es opening.offset)

inductive Accesses : Expr → List Token → Expr → Prop
  | nil {e : Expr} : Accesses e [] e
  | member {e e' : Expr} {dot name : Token} {rest : List Token} :
      dot.kind = .dot → name.kind = .identifier → Accesses (.member e name.text name.offset) rest e' →
        Accesses e (dot :: name :: rest) e'
  | index {e e' key : Expr} {opening closing : Token} {inner rest : List Token} :
      opening.kind = .leftBracket → closing.kind = .rightBracket → Sentence true inner key →
        Accesses (.index e key opening.offset) rest e' →
          Accesses e (opening :: (inner ++ closing :: rest)) e'

inductive Items : List Token → List Expr → Prop
  | one {ts : List Token} {e : Expr} : Sentence false ts e → Items ts [e]
  | more {ts rest : List Token} {comma : Token} {e : Expr} {es : List Expr} :
      Sentence false ts e → comma.kind = .comma → Items rest es → Items (ts ++ comma :: rest) (e :: es)

end

end Stencil.Expr
