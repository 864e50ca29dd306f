import Stencil.Proofs.Filter.Lists
import Stencil.Proofs.Value.Opened

namespace Stencil

def EvalFault.untyped : EvalFault → EvalFault
  | unsupportedOperands symbol _ _ => unsupportedOperands symbol "" ""
  | filterNeedsArray filter _ => filterNeedsArray filter ""
  | fieldNotString _ => fieldNotString ""
  | fault => fault

def EvalError.untyped (e : EvalError) : EvalError :=
  { e with fault := e.fault.untyped }

inductive Evaluated.Like {α : Type} (R : α → α → Prop) : Evaluated α → Evaluated α → Prop
  | ok {a a' : α} (h : R a a') : Like R (.ok a) (.ok a')
  | error {e e' : EvalError} (h : e'.untyped = e.untyped) : Like R (.error e) (.error e')

namespace Evaluated.Like

variable {α β : Type} {R : α → α → Prop} {S : β → β → Prop}

theorem refl (h : ∀ a, R a a) (x : Evaluated α) : Like R x x := by
  cases x with
  | ok a => exact .ok (h a)
  | error e => exact .error rfl

theorem bind {x x' : Evaluated α} {f f' : α → Evaluated β} (h : Like R x x')
    (hf : ∀ a a', R a a' → Like S (f a) (f' a')) : Like S (x >>= f) (x' >>= f') := by
  cases h with
  | ok h => exact hf _ _ h
  | error h => exact .error h

theorem withOffset {x x' : Evaluated α} (h : Like R x x') (n : Nat) :
    @Like α R (x.mapError (·.withOffset n)) (x'.mapError (·.withOffset n)) := by
  cases h with
  | ok h => exact .ok h
  | error h =>
      refine .error ?_
      simp only [EvalError.untyped, EvalError.withOffset, EvalError.mk.injEq] at h ⊢
      exact ⟨h.1, trivial, h.2.2⟩

end Evaluated.Like

open Evaluated (Like)
open Value (Opened OpenedItems)

namespace Filter

variable {name : String} {least most : Nat} {v v' : Value} {arguments arguments' : List Value}

/-- The filter does not tell values from what they are when host objects are opened. -/
def KeepsOpened (f : Filter) : Prop :=
  ∀ v v' arguments arguments', Opened v v' → OpenedItems arguments arguments' →
    Like Opened (f v arguments) (f v' arguments')

theorem expectArray_like (name : String) (h : Opened v v') :
    Like OpenedItems (expectArray name v) (expectArray name v') := by
  have helements := h.elements?
  rw [expectArray, expectArray]
  generalize v.elements? = items, v'.elements? = items' at helements
  cases helements with
  | none => exact .error rfl
  | some h => exact .ok h

namespace KeepsOpened

theorem of_counted {f : Filter} (hf : f.KeepsOpened) :
    KeepsOpened (fun v arguments => do
      expectArguments name least most arguments
      f v arguments) := by
  intro v v' arguments arguments' h ha
  have hcount : expectArguments name least most arguments' = expectArguments name least most arguments := by
    rw [expectArguments, expectArguments, ha.length_eq]
  dsimp only
  rw [hcount]
  exact .bind (.refl (fun _ => rfl) _) fun _ _ _ => hf _ _ _ _ h ha

theorem onList {f : List Value → List Value → Evaluated Value}
    (hf : ∀ items items' arguments arguments', OpenedItems items items' → OpenedItems arguments arguments' →
      Like Opened (f items arguments) (f items' arguments')) :
    KeepsOpened (onList name least most f) := by
  refine of_counted fun v v' arguments arguments' h ha => ?_
  rw [h.isNull_eq]
  split
  · exact .ok (.same _)
  · exact .bind (expectArray_like name h) fun items items' hi => hf _ _ _ _ hi ha

theorem join : KeepsOpened join := by
  refine onList fun items items' arguments arguments' hi ha => .ok ?_
  rw [hi.map_display]
  cases ha with
  | nil => exact .same _
  | cons h =>
      dsimp only
      rw [h.display_eq]
      exact .same _

theorem concat : KeepsOpened concat :=
  onList fun _ _ _ _ hi ha => .bind (expectArray_like "concat" ha.headD) fun _ _ hm => .ok (.array (hi.append hm))

theorem first : KeepsOpened first :=
  onList fun _ _ _ _ hi _ => .ok hi.headD

theorem last : KeepsOpened last :=
  onList fun _ _ _ _ hi _ => .ok hi.getLastD

theorem push : KeepsOpened push :=
  onList fun _ _ _ _ hi ha => .ok (.array (hi.append ha))

theorem pop : KeepsOpened pop :=
  onList fun _ _ _ _ hi _ => .ok (.array hi.dropLast)

theorem map : KeepsOpened map := by
  refine of_counted fun v v' arguments arguments' h ha => ?_
  rw [h.isNull_eq]
  split
  · exact .ok (.same _)
  have hfield : Opened (arguments.headD .null) (arguments'.headD .null) := ha.headD
  generalize arguments.headD .null = field, arguments'.headD .null = field' at hfield
  cases hfield with
  | same field =>
      split
      · exact .bind (expectArray_like "map" h) fun _ _ hi => .ok (.array (hi.map_property _))
      · exact .error rfl
  | _ => exact .error rfl

theorem size : KeepsOpened size := by
  refine of_counted fun v v' arguments arguments' h ha => ?_
  rw [h.length?_eq]
  split <;> exact .ok (.same _)

end KeepsOpened

end Filter

theorem ListFunction.keepsOpened : (l : ListFunction) → l.filter.KeepsOpened
  | join => .join
  | concat => .concat
  | first => .first
  | last => .last
  | map => .map
  | push => .push
  | pop => .pop
  | size => .size

namespace FilterRegistry

def KeepsOpened (r : FilterRegistry) : Prop :=
  ∀ name f, r.filters.get? name = some f → f.KeepsOpened

theorem keepsOpened_builtins : builtins.KeepsOpened := by
  intro name f h
  obtain ⟨l, _, rfl⟩ := ListFunction.builtins_eq_some_iff.1 h
  exact l.keepsOpened

theorem apply_like {r : FilterRegistry} (hr : r.KeepsOpened) (name : String) {v v' : Value}
    {arguments arguments' : List Value} (h : Opened v v') (ha : OpenedItems arguments arguments') :
    Like Opened (r.apply name v arguments) (r.apply name v' arguments') := by
  rw [apply, apply]
  split
  next f hf => exact hr name f hf _ _ _ _ h ha
  next => exact .error rfl

end FilterRegistry

end Stencil
