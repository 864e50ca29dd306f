import Stencil.Proofs.Expr.Completeness
import Stencil.Proofs.Expr.Fold

namespace Stencil

def quoteFor (s : String) : Char :=
  if '"' ∈ s.toList then '\'' else '"'

def quoted (s : String) : String :=
  String.ofList (quoteFor s :: (s.toList ++ [quoteFor s]))

namespace Value

mutual

/-- Only the data that a template can write is written. -/
def tokens (offset : Nat) : Value → List Token
  | null => [⟨.nil, "nil", offset⟩]
  | bool b => [⟨.boolean, if b then "true" else "false", offset⟩]
  | int n =>
      if n.toInt < 0 then [⟨.operator, "-", offset⟩, ⟨.integer, Nat.repr n.toInt.natAbs, 0⟩]
      else [⟨.integer, Nat.repr n.toInt.natAbs, offset⟩]
  | string s => [⟨.string, quoted s, offset⟩]
  | array items => ⟨.leftBracket, "[", offset⟩ :: (tokensAll items ++ [⟨.rightBracket, "]", 0⟩])
  | _ => []

def tokensAll : List Value → List Token
  | [] => []
  | [v] => v.tokens 0
  | v :: w :: rest => v.tokens 0 ++ ⟨.comma, ",", 0⟩ :: tokensAll (w :: rest)

end

theorem tokensAll_cons {v : Value} {vs : List Value} (h : vs ≠ []) :
    tokensAll (v :: vs) = v.tokens 0 ++ ⟨.comma, ",", 0⟩ :: tokensAll vs := by
  cases vs with
  | nil => exact absurd rfl h
  | cons w rest => rw [tokensAll]

def argumentTokens (vs : List Value) : List Token :=
  if vs.isEmpty then [] else ⟨.colon, ":", 0⟩ :: tokensAll vs

end Value

namespace Expr

mutual

def tokens : Expr → List Token
  | .literal v o => v.tokens o
  | .array items o => ⟨.leftBracket, "[", o⟩ :: (tokensAll items ++ [⟨.rightBracket, "]", 0⟩])
  | .variable name o => [⟨.identifier, name, o⟩]
  | .member e name o => e.tokens ++ [⟨.dot, ".", 0⟩, ⟨.identifier, name, o⟩]
  | .index e key o => e.tokens ++ ⟨.leftBracket, "[", o⟩ :: (key.tokens ++ [⟨.rightBracket, "]", 0⟩])
  | .binary op l r o => l.tokens ++ ⟨.operator, op.symbol, o⟩ :: r.tokens
  | .negation e o => ⟨.operator, "not", o⟩ :: e.tokens
  | .pipe e filter arguments o =>
      e.tokens ++ ⟨.pipe, "|", 0⟩ :: ⟨.identifier, filter, o⟩ :: Value.argumentTokens arguments

def tokensAll : List Expr → List Token
  | [] => []
  | [e] => e.tokens
  | e :: f :: rest => e.tokens ++ ⟨.comma, ",", 0⟩ :: tokensAll (f :: rest)

end

theorem tokensAll_cons {e : Expr} {es : List Expr} (h : es ≠ []) :
    tokensAll (e :: es) = e.tokens ++ ⟨.comma, ",", 0⟩ :: tokensAll es := by
  cases es with
  | nil => exact absurd rfl h
  | cons f rest => rw [tokensAll]

def printed (e : Expr) : String :=
  " ".intercalate (e.tokens.map Token.text)

end Expr

theorem BinaryOp.ofSymbol?_symbol (op : BinaryOp) : ofSymbol? op.symbol = some op := by
  cases op <;> rfl

namespace Operation

def tokens (chain : List Operation) : List Token :=
  chain.flatMap fun o => ⟨.operator, o.op.symbol, o.offset⟩ :: o.operand.tokens

/-- Folding a chain into a tree does not change how it is written. -/
theorem tokens_fold (first : Expr) (chain : List Operation) :
    (fold first chain).tokens = first.tokens ++ tokens chain := by
  induction first, chain using fold.induct with
  | case1 first chain h =>
      obtain rfl := eq_nil_of_splitLoosest h
      rw [fold_of_none h]
      exact (List.append_nil _).symm
  | case2 first chain before pivot after h hlen ih_before ih_after =>
      rw [fold_of_some h, Expr.tokens, ih_before, ih_after, eq_append_of_splitLoosest h]
      simp [tokens]

end Operation

end Stencil
