import Stencil.Expr.Basic
import Stencil.Filter
import Stencil.Scope

namespace Stencil

namespace Value

def isCountName (name : String) : Bool :=
  name = "size" || name = "length"

/-- A member of an array or a string is its size or null. -/
def member (v : Value) (name : String) (offset : Nat) : Evaluated Value :=
  if v.isArrayLike then
    match v.length? with
    | some n => .ok (if isCountName name then .int (countOf n) else .null)
    | none => .ok .null
  else if v.isMapLike then .ok (v.property name)
  else match v with
    | .string s => .ok (if isCountName name then .int (countOf s.length) else .null)
    | _ => .error (EvalFault.noMembers.at offset)

def index (v key : Value) (offset keyOffset : Nat) : Evaluated Value :=
  match key with
  | .int i => if v.isArrayLike then .ok (v.element i.toInt) else .error (EvalFault.notAnArray.at offset)
  | .string k => if v.isMapLike then .ok (v.property k) else .error (EvalFault.notAnObject.at offset)
  | _ => .error (EvalFault.badIndex.at keyOffset)

def fitting (n : Int) (offset : Nat) : Evaluated Value :=
  match integer? n with
  | some k => .ok (.int k)
  | none => .error (EvalFault.overflow.at offset)

inductive Arithmetic where
  | add
  | subtract
  | multiply
  | divide
deriving DecidableEq, Repr

/-- Exact, and division truncates toward zero. -/
def onIntegers (op : Arithmetic) (a b : Int) (offset : Nat) : Evaluated Value :=
  match op with
  | .add => fitting (a + b) offset
  | .subtract => fitting (a - b) offset
  | .multiply => fitting (a * b) offset
  | .divide =>
      if b = 0 then .error (EvalFault.divisionByZero.at offset) else fitting (a.tdiv b) offset

def onDoubles (op : Arithmetic) (a b : Float) (offset : Nat) : Evaluated Value :=
  match op with
  | .add => .ok (.double (a + b))
  | .subtract => .ok (.double (a - b))
  | .multiply => .ok (.double (a * b))
  | .divide =>
      if b == 0.0 then .error (EvalFault.divisionByZero.at offset) else .ok (.double (a / b))

/-- Integers stay integers, mixed numbers become doubles, and strings and arrays can be added. -/
def arithmetic (op : Arithmetic) (symbol : String) (a b : Value) (offset : Nat) : Evaluated Value :=
  match a, b, op with
  | .int m, .int n, _ => onIntegers op m.toInt n.toInt offset
  | .string s, .string t, .add => .ok (.string (s ++ t))
  | .array xs, .array ys, .add => .ok (.array (xs ++ ys))
  | _, _, _ =>
      match a.double?, b.double? with
      | some x, some y => onDoubles op x y offset
      | _, _ => .error ((EvalFault.unsupportedOperands symbol a.typeName b.typeName).at offset)

end Value

structure Environment where
  scope : Scope
  filters : FilterRegistry

namespace BinaryOp

inductive Meaning where
  | either
  | both
  | differing
  | ordering (holds : Ordering → Bool)
  | arithmetic (op : Value.Arithmetic)

def meaning : BinaryOp → Meaning
  | or => .either
  | and => .both
  | xor => .differing
  | equal => .ordering Ordering.isEq
  | unequal => .ordering Ordering.isNe
  | less => .ordering Ordering.isLT
  | atMost => .ordering Ordering.isLE
  | greater => .ordering Ordering.isGT
  | atLeast => .ordering Ordering.isGE
  | add => .arithmetic .add
  | subtract => .arithmetic .subtract
  | multiply => .arithmetic .multiply
  | divide => .arithmetic .divide

end BinaryOp

namespace Expr

mutual

def eval (env : Environment) : Expr → Evaluated Value
  | .literal v _ => .ok v
  | .array items _ => do return .array (← evalAll env items)
  | .variable name _ => .ok ((env.scope.lookup name).getD .null)
  | .member target name _ => do
      let v ← eval env target
      v.member name target.offset
  | .index target key _ => do
      let v ← eval env target
      let k ← eval env key
      v.index k target.offset key.offset
  | .binary op left right n =>
      match op.meaning with
      | .either => do
          if (← eval env left).isTruthy then return .bool true
          return .bool (← eval env right).isTruthy
      | .both => do
          if !(← eval env left).isTruthy then return .bool false
          return .bool (← eval env right).isTruthy
      | .differing => do
          let a ← eval env left
          let b ← eval env right
          return .bool (a.isTruthy != b.isTruthy)
      | .ordering holds => do
          let a ← eval env left
          let b ← eval env right
          return .bool (holds (a.compare b))
      | .arithmetic f => do
          let a ← eval env left
          let b ← eval env right
          Value.arithmetic f op.symbol a b n
  | .negation operand _ => do return .bool (!(← eval env operand).isTruthy)
  | .pipe target filter arguments n => do
      let v ← eval env target
      (env.filters.apply filter v arguments).mapError (·.withOffset n)

def evalAll (env : Environment) : List Expr → Evaluated (List Value)
  | [] => .ok []
  | e :: rest => do
      let v ← eval env e
      return v :: (← evalAll env rest)

end

end Expr

end Stencil
