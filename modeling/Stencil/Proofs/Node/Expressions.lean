import Stencil.Expr.Eval
import Stencil.Template

namespace Stencil

namespace Expr

mutual

def mentions : Expr → List String
  | literal _ _ => []
  | array items _ => mentionsAll items
  | «variable» name _ => [name]
  | member target _ _ => mentions target
  | index target key _ => mentions target ++ mentions key
  | binary _ left right _ => mentions left ++ mentions right
  | negation operand _ => mentions operand
  | pipe target _ _ _ => mentions target

def mentionsAll : List Expr → List String
  | [] => []
  | e :: rest => mentions e ++ mentionsAll rest

end

variable {s s' : Scope} {filters : FilterRegistry}

mutual

theorem eval_congr : (e : Expr) → (∀ name ∈ e.mentions, s'.lookup name = s.lookup name) →
    e.eval ⟨s', filters⟩ = e.eval ⟨s, filters⟩
  | .literal v n => by
      intro _
      rw [eval, eval]
  | .array items n => by
      intro h
      rw [eval, eval, evalAll_congr items h]
  | .variable name n => by
      intro h
      rw [eval, eval, h name List.mem_cons_self]
  | .member target name n => by
      intro h
      rw [eval, eval, eval_congr target h]
  | .index target key n => by
      intro h
      obtain ⟨htarget, hkey⟩ := List.forall_mem_append.1 h
      rw [eval, eval, eval_congr target htarget, eval_congr key hkey]
  | .binary op left right n => by
      intro h
      obtain ⟨hleft, hright⟩ := List.forall_mem_append.1 h
      rw [eval, eval, eval_congr left hleft, eval_congr right hright]
  | .negation operand n => by
      intro h
      rw [eval, eval, eval_congr operand h]
  | .pipe target filter arguments n => by
      intro h
      rw [eval, eval, eval_congr target h]

theorem evalAll_congr : (items : List Expr) → (∀ name ∈ mentionsAll items, s'.lookup name = s.lookup name) →
    evalAll ⟨s', filters⟩ items = evalAll ⟨s, filters⟩ items
  | [] => by
      intro _
      rw [evalAll, evalAll]
  | e :: rest => by
      intro h
      obtain ⟨he, hrest⟩ := List.forall_mem_append.1 h
      rw [evalAll, evalAll, eval_congr e he, evalAll_congr rest hrest]

end

end Expr

namespace Node

mutual

def expressions : Node → List Expr
  | text _ _ => []
  | output e => [e]
  | assign _ value _ _ => [value]
  | capture _ body _ => expressionsAll body
  | loop _ source body _ => source :: expressionsAll body
  | branch arms _ => expressionsArms arms
  | embed _ arguments _ => arguments.map Prod.snd
  | signal _ _ => []
  | comment _ => []
  | newline _ => []

def expressionsAll : List Node → List Expr
  | [] => []
  | n :: rest => expressions n ++ expressionsAll rest

def expressionsArms : List (Expr × List Node) → List Expr
  | [] => []
  | (condition, body) :: rest => condition :: (expressionsAll body ++ expressionsArms rest)

end

end Node

/-- The names of the variables that a template mentions, without the templates that it includes. -/
def Template.mentions (t : Template) : List String :=
  (Node.expressionsAll t.nodes).flatMap Expr.mentions

end Stencil
