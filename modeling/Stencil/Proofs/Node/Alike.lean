import Stencil.Node.Basic

namespace Stencil.Node

variable {Texts : String → String → Prop} {captures : Prop}

mutual

inductive Alike (Texts : String → String → Prop) (captures : Prop) : Node → Node → Prop
  | text {s s' : String} (h : Texts s s') (k : Nat) : Alike Texts captures (text s k) (text s' k)
  | output (e : Expr) : Alike Texts captures (output e) (output e)
  | assign (name : String) (value : Expr) (target : AssignTarget) (k : Nat) :
      Alike Texts captures (assign name value target k) (assign name value target k)
  | capture (hc : captures) (name : String) {body body' : List Node} (h : AlikeAll Texts captures body body')
      (k : Nat) : Alike Texts captures (capture name body k) (capture name body' k)
  | loop (name : String) (source : Expr) {body body' : List Node} (h : AlikeAll Texts captures body body')
      (k : Nat) : Alike Texts captures (loop name source body k) (loop name source body' k)
  | branch {arms arms' : List (Expr × List Node)} (h : AlikeArms Texts captures arms arms') (k : Nat) :
      Alike Texts captures (branch arms k) (branch arms' k)
  | embed (name : String) (arguments : List (String × Expr)) (k : Nat) :
      Alike Texts captures (embed name arguments k) (embed name arguments k)
  | signal (s : Signal) (k : Nat) : Alike Texts captures (signal s k) (signal s k)
  | comment (k : Nat) : Alike Texts captures (comment k) (comment k)
  | newline (k : Nat) : Alike Texts captures (newline k) (newline k)

inductive AlikeAll (Texts : String → String → Prop) (captures : Prop) : List Node → List Node → Prop
  | nil : AlikeAll Texts captures [] []
  | cons {n n' : Node} {rest rest' : List Node} (h : Alike Texts captures n n')
      (hr : AlikeAll Texts captures rest rest') : AlikeAll Texts captures (n :: rest) (n' :: rest')

inductive AlikeArms (Texts : String → String → Prop) (captures : Prop) :
    List (Expr × List Node) → List (Expr × List Node) → Prop
  | nil : AlikeArms Texts captures [] []
  | cons (condition : Expr) {body body' : List Node} {rest rest' : List (Expr × List Node)}
      (h : AlikeAll Texts captures body body') (hr : AlikeArms Texts captures rest rest') :
      AlikeArms Texts captures ((condition, body) :: rest) ((condition, body') :: rest')

end

mutual

theorem Alike.refl (ht : ∀ s, Texts s s) (hc : captures) : (n : Node) → Alike Texts captures n n
  | .text s k => .text (ht s) k
  | .output e => .output e
  | .assign name value target k => .assign name value target k
  | .capture name body k => .capture hc name (AlikeAll.refl ht hc body) k
  | .loop name source body k => .loop name source (AlikeAll.refl ht hc body) k
  | .branch arms k => .branch (AlikeArms.refl ht hc arms) k
  | .embed name arguments k => .embed name arguments k
  | .signal s k => .signal s k
  | .comment k => .comment k
  | .newline k => .newline k

theorem AlikeAll.refl (ht : ∀ s, Texts s s) (hc : captures) : (ns : List Node) → AlikeAll Texts captures ns ns
  | [] => .nil
  | n :: rest => .cons (Alike.refl ht hc n) (AlikeAll.refl ht hc rest)

theorem AlikeArms.refl (ht : ∀ s, Texts s s) (hc : captures) :
    (arms : List (Expr × List Node)) → AlikeArms Texts captures arms arms
  | [] => .nil
  | (condition, body) :: rest => .cons condition (AlikeAll.refl ht hc body) (AlikeArms.refl ht hc rest)

end

end Stencil.Node
