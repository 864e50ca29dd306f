import Stencil.Proofs.Filter.Opened
import Stencil.Render.Process

namespace Stencil

open Evaluated (Like)
open Value (Opened OpenedItems)

namespace Value

variable {v v' key key' : Value}

theorem member_like (h : Opened v v') (name : String) (offset : Nat) :
    Like Opened (v.member name offset) (v'.member name offset) := by
  rw [member.eq_def, member.eq_def, h.isArrayLike_eq, h.isMapLike_eq, h.length?_eq]
  split
  · exact .refl .same _
  split
  · exact .ok (h.property name)
  next ha hm =>
  cases h with
  | same => exact .refl .same _
  | array | map => simp [isArrayLike, isMapLike] at ha hm
  | host => exact .error rfl
  | elements hk => exact absurd hk ha
  | properties hk hk' => exact absurd (by simp_all [isMapLike]) hm

theorem index_like (h : Opened v v') (hk : Opened key key') (offset keyOffset : Nat) :
    Like Opened (v.index key offset keyOffset) (v'.index key' offset keyOffset) := by
  cases hk with
  | same key =>
      cases key with
      | int i =>
          rw [index, index, h.isArrayLike_eq]
          split
          · exact .ok (h.element i.toInt)
          · exact .error rfl
      | string name =>
          rw [index, index, h.isMapLike_eq]
          split
          · exact .ok (h.property name)
          · exact .error rfl
      | _ => exact .error rfl
  | _ => exact .error rfl

end Value

namespace BinaryOp

def isArithmetic (op : BinaryOp) : Bool :=
  match op.meaning with
  | .arithmetic _ => true
  | _ => false

end BinaryOp

def Scope.Opened (s s' : Scope) : Prop :=
  ∀ name, Value.Opened ((s.lookup name).getD .null) ((s'.lookup name).getD .null)

namespace Expr

mutual

def calculates : Expr → Bool
  | literal _ _ => false
  | array items _ => calculatesAny items
  | «variable» _ _ => false
  | member target _ _ => calculates target
  | index target key _ => calculates target || calculates key
  | binary op left right _ => op.isArithmetic || calculates left || calculates right
  | negation operand _ => calculates operand
  | pipe target _ _ _ => calculates target

def calculatesAny : List Expr → Bool
  | [] => false
  | e :: rest => calculates e || calculatesAny rest

end

variable {s s' : Scope} {filters : FilterRegistry}

mutual

theorem eval_like (hs : s.Opened s') (hf : filters.KeepsOpened) : (e : Expr) → ¬e.calculates →
    Like Opened (e.eval ⟨s, filters⟩) (e.eval ⟨s', filters⟩)
  | .literal v n => by
      intro _
      rw [eval, eval]
      exact .ok (.same v)
  | .array items n => by
      intro h
      rw [eval, eval]
      exact .bind (evalAll_like hs hf items h) fun _ _ hi => .ok (.array hi)
  | .variable name n => by
      intro _
      rw [eval, eval]
      exact .ok (hs name)
  | .member target name n => by
      intro h
      rw [eval, eval]
      exact .bind (eval_like hs hf target h) fun _ _ hv => Value.member_like hv name _
  | .index target key n => by
      intro h
      simp only [calculates, Bool.or_eq_true, not_or] at h
      obtain ⟨htarget, hkey⟩ := h
      rw [eval, eval]
      exact .bind (eval_like hs hf target htarget) fun _ _ hv => .bind (eval_like hs hf key hkey) fun _ _ hk =>
        Value.index_like hv hk _ _
  | .binary op left right n => by
      intro h
      simp only [calculates, Bool.or_eq_true, not_or] at h
      obtain ⟨⟨hop, hleft⟩, hright⟩ := h
      have hl := eval_like hs hf left hleft
      have hr := eval_like hs hf right hright
      rw [BinaryOp.isArithmetic] at hop
      rw [eval, eval]
      cases hm : op.meaning with
      | either | both =>
          refine .bind hl fun a a' ha => ?_
          rw [ha.isTruthy_eq]
          split
          · exact .ok (.same _)
          · refine .bind hr fun b b' hb => .ok ?_
            rw [hb.isTruthy_eq]
            exact .same _
      | differing =>
          refine .bind hl fun a a' ha => .bind hr fun b b' hb => .ok ?_
          rw [ha.isTruthy_eq, hb.isTruthy_eq]
          exact .same _
      | ordering holds =>
          refine .bind hl fun a a' ha => .bind hr fun b b' hb => .ok ?_
          rw [ha.compare_eq hb]
          exact .same _
      | arithmetic f =>
          rw [hm] at hop
          exact absurd rfl hop
  | .negation operand n => by
      intro h
      rw [eval, eval]
      refine .bind (eval_like hs hf operand h) fun v v' hv => .ok ?_
      rw [hv.isTruthy_eq]
      exact .same _
  | .pipe target filter arguments n => by
      intro h
      rw [eval, eval]
      exact .bind (eval_like hs hf target h) fun _ _ hv =>
        .withOffset (FilterRegistry.apply_like hf filter hv (.refl arguments)) n

theorem evalAll_like (hs : s.Opened s') (hf : filters.KeepsOpened) : (items : List Expr) → ¬calculatesAny items →
    Like OpenedItems (evalAll ⟨s, filters⟩ items) (evalAll ⟨s', filters⟩ items)
  | [] => by
      intro _
      rw [evalAll, evalAll]
      exact .ok .nil
  | e :: rest => by
      intro h
      simp only [calculatesAny, Bool.or_eq_true, not_or] at h
      obtain ⟨he, hrest⟩ := h
      rw [evalAll, evalAll]
      exact .bind (eval_like hs hf e he) fun _ _ hv => .bind (evalAll_like hs hf rest hrest) fun _ _ hvs =>
        .ok (.cons hv hvs)

end

end Expr

theorem Scope.opened_push (s : Scope) (kind : FrameKind) (name : String) {v v' : Value} (h : v.Opened v') :
    (s.push kind [(name, v)]).Opened (s.push kind [(name, v')]) := by
  intro other
  simp only [lookup, push, List.findSome?_cons, Dict.get?, List.lookup_cons, List.lookup_nil]
  cases other == name with
  | true => exact h
  | false => exact .same _

namespace Value

variable {v v' : Value}

theorem Opened.rounds? (h : Opened v v') : Option.Rel OpenedItems v.rounds? v'.rounds? := by
  have helements := h.elements?
  rw [Value.rounds?, Value.rounds?, h.propertyNames?_eq]
  generalize v.elements? = items, v'.elements? = items' at helements
  cases helements with
  | some h => exact .some h
  | none =>
      cases v.propertyNames? with
      | none => exact .none
      | some names => exact .some (.refl _)

/-- Apart from arithmetic and the names of types, a template does not tell the values from each other. What it gets
out of them is the same but for host objects opened. -/
structure Indistinct (v v' : Value) : Prop where
  isNull : v'.isNull = v.isNull
  isTruthy : v'.isTruthy = v.isTruthy
  isArrayLike : v'.isArrayLike = v.isArrayLike
  isMapLike : v'.isMapLike = v.isMapLike
  length? : v'.length? = v.length?
  element : ∀ i : Int, Opened (v.element i) (v'.element i)
  property : ∀ name, Opened (v.property name) (v'.property name)
  rounds? : Option.Rel OpenedItems v.rounds? v'.rounds?
  compare_left : ∀ w : Value, v'.compare w = v.compare w
  compare_right : ∀ w : Value, w.compare v' = w.compare v
  display : v'.display = v.display
  jsonText : v'.jsonText = v.jsonText
  filter : ∀ name arguments arguments', OpenedItems arguments arguments' →
    Like Opened (FilterRegistry.builtins.apply name v arguments) (FilterRegistry.builtins.apply name v' arguments')
  expression : ∀ (e : Expr) (s : Scope) (kind : FrameKind) (name : String), ¬e.calculates →
    Like Opened (e.eval ⟨s.push kind [(name, v)], .builtins⟩) (e.eval ⟨s.push kind [(name, v')], .builtins⟩)

/-- An array-like host object does as the array of its elements does, and a map-like one as the map of its properties,
however deep they are in a value. -/
theorem indistinct_of_opened (h : Opened v v') : Indistinct v v' where
  isNull := h.isNull_eq
  isTruthy := h.isTruthy_eq
  isArrayLike := h.isArrayLike_eq
  isMapLike := h.isMapLike_eq
  length? := h.length?_eq
  element := h.element
  property := h.property
  rounds? := h.rounds?
  compare_left w := h.compare_eq (.same w)
  compare_right w := Opened.compare_eq (.same w) h
  display := h.display_eq
  jsonText := h.jsonText_eq
  filter name _ _ ha := FilterRegistry.apply_like FilterRegistry.keepsOpened_builtins name h ha
  expression e s kind name he :=
    Expr.eval_like (s.opened_push kind name h) FilterRegistry.keepsOpened_builtins e he

def route : Value :=
  .map [("stops", .host ⟨"route", true, false, 3⟩
    [.host ⟨"stop", false, true, 2⟩ [] ["town", "minutes"] [("town", .string "Brno"), ("minutes", .int 5)],
      .string "end"] [] [])]

def plainRoute : Value :=
  .map [("stops", .array [.map [("minutes", .int 5), ("town", .string "Brno")], .string "end", .null])]

theorem indistinct_of_opened_route : Opened route plainRoute ∧ Indistinct route plainRoute := by
  have hfields : (Value.host ⟨"stop", false, true, 2⟩ [] ["town", "minutes"]
      [("town", .string "Brno"), ("minutes", .int 5)]).fields = [("minutes", .int 5), ("town", .string "Brno")] := by
    cbv
  have hstop : Opened (.host ⟨"stop", false, true, 2⟩ [] ["town", "minutes"]
      [("town", .string "Brno"), ("minutes", .int 5)]) (.map [("minutes", .int 5), ("town", .string "Brno")]) := by
    refine .properties rfl rfl (by decide) rfl (fun name hn => ?_) ?_
    · have hne : name ≠ "town" ∧ name ≠ "minutes" := by simpa using hn
      simp [property, List.lookup_cons, beq_eq_false_iff_ne.2 hne.1, beq_eq_false_iff_ne.2 hne.2]
    · rw [hfields]
      exact .cons _ (.same _) (.cons _ (.same _) .nil)
  have hopened : Opened route plainRoute :=
    .map (.cons _ (.elements rfl rfl (.cons hstop (.refl _))) .nil)
  exact ⟨hopened, indistinct_of_opened hopened⟩

end Value

end Stencil
