import Stencil.Proofs.Node.Expressions
import Stencil.Proofs.Node.Walk

namespace Stencil

namespace Node

def isPlain : Node → Bool
  | assign _ _ _ _ => false
  | capture _ _ _ => false
  | embed _ _ _ => false
  | _ => true

variable {name : String} {part : List Node}

mutual

inductive Inlined (name : String) (part : List Node) : Node → Node → Prop
  | text (s : String) (k : Nat) : Inlined name part (text s k) (text s k)
  | output (e : Expr) : Inlined name part (output e) (output e)
  | assign (x : String) (value : Expr) (target : AssignTarget) (k : Nat) :
      Inlined name part (assign x value target k) (assign x value target k)
  | capture (x : String) {body body' : List Node} (h : InlinedAll name part body body') (k : Nat) :
      Inlined name part (capture x body k) (capture x body' k)
  | loop (x : String) (source : Expr) {body body' : List Node} (h : InlinedAll name part body body') (k : Nat) :
      Inlined name part (loop x source body k) (loop x source body' k)
  | branch {arms arms' : List (Expr × List Node)} (h : InlinedArms name part arms arms') (k : Nat) :
      Inlined name part (branch arms k) (branch arms' k)
  | embed (file : String) (arguments : List (String × Expr)) (k : Nat) :
      Inlined name part (embed file arguments k) (embed file arguments k)
  | signal (s : Signal) (k : Nat) : Inlined name part (signal s k) (signal s k)
  | comment (k : Nat) : Inlined name part (comment k) (comment k)
  | newline (k : Nat) : Inlined name part (newline k) (newline k)

inductive InlinedAll (name : String) (part : List Node) : List Node → List Node → Prop
  | nil : InlinedAll name part [] []
  | cons {n n' : Node} {rest rest' : List Node} (h : Inlined name part n n')
      (hr : InlinedAll name part rest rest') : InlinedAll name part (n :: rest) (n' :: rest')
  | inline (k : Nat) {rest rest' : List Node} (hr : InlinedAll name part rest rest') :
      InlinedAll name part (embed name [] k :: rest) (part ++ rest')

inductive InlinedArms (name : String) (part : List Node) :
    List (Expr × List Node) → List (Expr × List Node) → Prop
  | nil : InlinedArms name part [] []
  | cons (condition : Expr) {body body' : List Node} {rest rest' : List (Expr × List Node)}
      (h : InlinedAll name part body body') (hr : InlinedArms name part rest rest') :
      InlinedArms name part ((condition, body) :: rest) ((condition, body') :: rest')

end

mutual

theorem Inlined.refl : (n : Node) → Inlined name part n n
  | .text s k => .text s k
  | .output e => .output e
  | .assign x value target k => .assign x value target k
  | .capture x body k => .capture x (InlinedAll.refl body) k
  | .loop x source body k => .loop x source (InlinedAll.refl body) k
  | .branch arms k => .branch (InlinedArms.refl arms) k
  | .embed file arguments k => .embed file arguments k
  | .signal s k => .signal s k
  | .comment k => .comment k
  | .newline k => .newline k

theorem InlinedAll.refl : (ns : List Node) → InlinedAll name part ns ns
  | [] => .nil
  | n :: rest => .cons (Inlined.refl n) (InlinedAll.refl rest)

theorem InlinedArms.refl : (arms : List (Expr × List Node)) → InlinedArms name part arms arms
  | [] => .nil
  | (condition, body) :: rest => .cons condition (InlinedAll.refl body) (InlinedArms.refl rest)

end

end Node

namespace Template

/-- It leaves no trace but what it writes and the signals it raises, and does not look at its arguments. -/
structure SelfContained (t : Template) : Prop where
  plain : ∀ n ∈ Node.walkAll t.nodes, n.isPlain
  unnamed : "include" ∉ t.mentions

instance (t : Template) : Decidable t.SelfContained :=
  decidable_of_iff ((∀ n ∈ Node.walkAll t.nodes, n.isPlain) ∧ "include" ∉ t.mentions)
    ⟨fun h => ⟨h.1, h.2⟩, fun h => ⟨h.plain, h.unnamed⟩⟩

/-- The second template is the first with includes of the part written out, in whatever source it is found. -/
def InlinedTo (name : String) (part t t' : Template) : Prop :=
  Node.InlinedAll name part.nodes t.nodes t'.nodes

theorem InlinedTo.refl (name : String) (part t : Template) : InlinedTo name part t t :=
  Node.InlinedAll.refl t.nodes

end Template

end Stencil
