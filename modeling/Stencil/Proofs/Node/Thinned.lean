import Stencil.Node.Basic
import Stencil.Proofs.Node.Alike
import Stencil.Proofs.Node.Walk

namespace Stencil

namespace Text

inductive Thins : List Char → List Char → Prop
  | nil : Thins [] []
  | keep (c : Char) {cs ds : List Char} (h : Thins cs ds) : Thins (c :: cs) (c :: ds)
  | drop {c : Char} (hc : Node.isLayout c) {cs ds : List Char} (h : Thins cs ds) : Thins (c :: cs) ds

namespace Thins

variable {cs ds es : List Char}

theorem refl : (cs : List Char) → Thins cs cs
  | [] => .nil
  | c :: cs => .keep c (refl cs)

theorem trans (h : Thins cs ds) (h' : Thins ds es) : Thins cs es := by
  induction h generalizing es with
  | nil => exact h'
  | keep c _ ih =>
      cases h' with
      | keep _ h' => exact .keep c (ih h')
      | drop hc h' => exact .drop hc (ih h')
  | drop hc _ ih => exact .drop hc (ih h')

theorem append {cs' ds' : List Char} (h : Thins cs ds) (h' : Thins cs' ds') :
    Thins (cs ++ cs') (ds ++ ds') := by
  induction h with
  | nil => exact h'
  | keep c _ ih => exact .keep c ih
  | drop hc _ ih => exact .drop hc ih

theorem reverse (h : Thins cs ds) : Thins cs.reverse ds.reverse := by
  induction h with
  | nil => exact .nil
  | keep c _ ih =>
      rw [List.reverse_cons, List.reverse_cons]
      exact ih.append (.refl [c])
  | @drop c hc cs ds _ ih =>
      rw [List.reverse_cons, ← List.append_nil ds.reverse]
      exact ih.append (.drop hc .nil)

theorem dropWhile {p : Char → Bool} (hp : ∀ c, p c → Node.isLayout c) (cs : List Char) :
    Thins cs (cs.dropWhile p) := by
  induction cs with
  | nil => exact .nil
  | cons c cs ih =>
      rw [List.dropWhile_cons]
      split
      next hc => exact .drop (hp c hc) ih
      next => exact .refl (c :: cs)

end Thins

def Thinned (s s' : String) : Prop :=
  Thins s.toList s'.toList

namespace Thinned

theorem refl (s : String) : Thinned s s :=
  Thins.refl s.toList

theorem append {s s' u u' : String} (h : Thinned s s') (h' : Thinned u u') : Thinned (s ++ u) (s' ++ u') := by
  rw [Thinned, String.toList_append, String.toList_append]
  exact Thins.append h h'

theorem stripText (s : String) (afterTag beforeTag : Bool) : Thinned s (Node.stripText s afterTag beforeTag) := by
  rw [Thinned, Node.stripText, String.toList_ofList]
  have hfront : Thins s.toList (if afterTag then s.toList.dropWhile Node.isLayout else s.toList) := by
    split
    · exact .dropWhile (fun _ h => h) s.toList
    · exact .refl _
  generalize (if afterTag then s.toList.dropWhile Node.isLayout else s.toList) = cs at hfront ⊢
  refine hfront.trans ?_
  split
  · have hindent : ∀ c, Node.isIndent c → Node.isLayout c := by
      intro c h
      rw [Node.isLayout, ← Node.isIndent, h, Bool.true_or]
    have hback := (Thins.dropWhile hindent cs.reverse).reverse
    rwa [List.reverse_reverse] at hback
  · exact .refl cs

end Thinned

end Text

namespace Node

def isCapture : Node → Bool
  | capture _ _ _ => true
  | _ => false

variable {captures : Prop}

mutual

theorem alike_strip (afterTag beforeTag : Bool) : (n : Node) → (∀ m ∈ walk n, m.isCapture → captures) →
    Alike Text.Thinned captures n (strip afterTag beforeTag n)
  | .text s k, _ => .text (.stripText s afterTag beforeTag) k
  | .output e, _ => .output e
  | .assign name value target k, _ => .assign name value target k
  | .capture name body k, h =>
      .capture (h _ (mem_walk _) rfl) name
        (alikeAll_stripAll true true body fun m hm => h m (List.mem_cons_of_mem _ hm)) k
  | .loop name source body k, h =>
      .loop name source (alikeAll_stripAll true true body fun m hm => h m (List.mem_cons_of_mem _ hm)) k
  | .branch arms k, h => .branch (alikeArms_stripArms arms fun m hm => h m (List.mem_cons_of_mem _ hm)) k
  | .embed name arguments k, _ => .embed name arguments k
  | .signal s k, _ => .signal s k
  | .comment k, _ => .comment k
  | .newline k, _ => .newline k

theorem alikeAll_stripAll (afterTag endsAtTag : Bool) : (ns : List Node) →
    (∀ m ∈ walkAll ns, m.isCapture → captures) → AlikeAll Text.Thinned captures ns (stripAll afterTag endsAtTag ns)
  | [], _ => .nil
  | n :: rest, h =>
      .cons (alike_strip afterTag _ n fun m hm => h m (List.mem_append_left _ hm))
        (alikeAll_stripAll n.isTag endsAtTag rest fun m hm => h m (List.mem_append_right _ hm))

theorem alikeArms_stripArms : (arms : List (Expr × List Node)) → (∀ m ∈ walkArms arms, m.isCapture → captures) →
    AlikeArms Text.Thinned captures arms (stripArms arms)
  | [], _ => .nil
  | (condition, body) :: rest, h =>
      .cons condition (alikeAll_stripAll true true body fun m hm => h m (List.mem_append_left _ hm))
        (alikeArms_stripArms rest fun m hm => h m (List.mem_append_right _ hm))

end

end Node

end Stencil
