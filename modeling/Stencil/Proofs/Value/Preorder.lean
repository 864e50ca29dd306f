import Mathlib.Order.Defs.LinearOrder
import Stencil.Proofs.Value.Shown

namespace Stencil

namespace Value

mutual

/-- An answer that a comparison may give. Of one value on both sides it may say that it is equal at
once, or it may go on. -/
inductive Answers : Value → Value → Ordering → Prop
  | same (v : Value) : Answers v v .eq
  | elements {v w : Value} {vs ws : List Value} {o : Ordering} :
      v.elements? = some vs → w.elements? = some ws → AnswersEach vs ws o →
        Answers v w ((Ord.compare vs.length ws.length).then o)
  | fields {v w : Value} {o : Ordering} :
      v.isMapLike → w.isMapLike → AnswersFields v.fields w.fields o →
        Answers v w ((Ord.compare v.fields.length w.fields.length).then o)
  | other {v w : Value} :
      ¬(v.isArrayLike ∧ w.isArrayLike) → ¬(v.isMapLike ∧ w.isMapLike) → Answers v w (v.compare w)

inductive AnswersEach : List Value → List Value → Ordering → Prop
  | left {ws : List Value} : AnswersEach [] ws .eq
  | right {vs : List Value} : AnswersEach vs [] .eq
  | cons {v w : Value} {vs ws : List Value} {o o' : Ordering} :
      Answers v w o → AnswersEach vs ws o' → AnswersEach (v :: vs) (w :: ws) (o.then o')

inductive AnswersFields : List (String × Value) → List (String × Value) → Ordering → Prop
  | left {gs : List (String × Value)} : AnswersFields [] gs .eq
  | right {fs : List (String × Value)} : AnswersFields fs [] .eq
  | cons {k l : String} {v w : Value} {fs gs : List (String × Value)} {o o' : Ordering} :
      Answers v w o → AnswersFields fs gs o' →
        AnswersFields ((k, v) :: fs) ((l, w) :: gs) (((Ord.compare k l).then o).then o')

end

def compareField (f g : String × Value) : Ordering :=
  (Ord.compare f.1 g.1).then (f.2.compare g.2)

theorem compareEach_map {α β : Type} (cmp : β → β → Ordering) (f : α → β) (xs ys : List α) :
    compareEach cmp (xs.map f) (ys.map f) = compareEach (fun x y => cmp (f x) (f y)) xs ys := by
  induction xs generalizing ys with
  | nil => rfl
  | cons x xs ih =>
      cases ys with
      | nil => rfl
      | cons y ys => exact congrArg ((cmp (f x) (f y)).then ·) (ih ys)

variable {v w : Value} {vs ws : List Value} {fs gs : List (String × Value)} {o : Ordering}

theorem compare_of_elements (hv : v.elements? = some vs) (hw : w.elements? = some ws) :
    v.compare w = (Ord.compare vs.length ws.length).then (compareEach compare vs ws) := by
  rw [compare, content_of_elements hv, content_of_elements hw, Content.compare_list, compareEach_map,
    List.length_map, List.length_map]
  rfl

theorem compare_of_isMapLike (hv : v.isMapLike) (hw : w.isMapLike) :
    v.compare w =
      (Ord.compare v.fields.length w.fields.length).then (compareEach compareField v.fields w.fields) := by
  rw [compare, content_of_isMapLike hv, content_of_isMapLike hw, Content.compare_record, compareEach_map,
    List.length_map, List.length_map]
  rfl

def rank (v : Value) : Nat :=
  match v with
  | null => 0
  | bool _ => 1
  | int _ => 2
  | double _ => 3
  | string _ => 4
  | v => if v.isArrayLike then 5 else if v.isMapLike then 6 else 7

theorem rank_content (v : Value) : v.content.rank = v.rank := by
  cases v with
  | host kind =>
      cases ha : kind.isArray <;> cases hm : kind.isMap <;>
        simp [content, Content.rank, rank, isArrayLike, isMapLike, ha, hm]
  | _ => rfl

@[simp]
theorem compare_null : null.compare null = .eq := rfl

@[simp]
theorem compare_bool (a b : Bool) : (bool a).compare (bool b) = Ord.compare a b := rfl

@[simp]
theorem compare_int (m n : Int64) : (int m).compare (int n) = Ord.compare m n := rfl

@[simp]
theorem compare_string (s t : String) : (string s).compare (string t) = Ord.compare s t := rfl

theorem compare_of_double {x y : Float} (hv : v.double? = some x) (hw : w.double? = some y)
    (hd : v = .double x ∨ w = .double y) : v.compare w = Content.compareDoubles x y := by
  rcases hd with rfl | rfl
  · cases w with
    | int | double =>
        obtain rfl := Option.some.inj hw
        rfl
    | _ => cases hw
  · cases v with
    | int | double =>
        obtain rfl := Option.some.inj hv
        rfl
    | _ => cases hv

theorem compare_of_rank_ne (hn : v.double? = none ∨ w.double? = none) (hr : v.rank ≠ w.rank) :
    v.compare w = Ord.compare v.rank w.rank := by
  rw [← rank_content, ← rank_content] at hr ⊢
  have hnumber (u : Value) : u.double? = none ↔ (∀ n, u.content ≠ .int n) ∧ ∀ x, u.content ≠ .double x := by
    cases u with
    | host kind => cases ha : kind.isArray <;> cases hm : kind.isMap <;> simp [double?, content, ha, hm]
    | _ => simp [double?, content]
  rw [hnumber, hnumber] at hn
  rw [compare]
  generalize v.content = x, w.content = y at hn hr ⊢
  cases x <;> cases y <;> simp_all [Content.compare, Content.rank]

theorem compare_of_opaque (hv : v.rank = 7) (hw : w.rank = 7) :
    v.compare w = Ord.compare v.typeName w.typeName := by
  have hsealed {u : Value} (hu : u.rank = 7) : u.content = .sealed u.typeName := by
    cases u with
    | host kind =>
        cases ha : kind.isArray <;> cases hm : kind.isMap <;>
          simp_all [rank, content, isArrayLike, isMapLike, typeName]
    | _ => cases hu
  rw [compare, hsealed hv, hsealed hw, Content.compare]

theorem DoubleFree.of_elements (h : v.DoubleFree) (hv : v.elements? = some vs) :
    ∀ x ∈ vs, x.DoubleFree := by
  obtain ⟨-, h, -⟩ := h
  exact h vs hv

theorem DoubleFree.of_fields (h : v.DoubleFree) (hv : v.isMapLike) : ∀ f ∈ v.fields, f.2.DoubleFree := by
  obtain ⟨-, -, h⟩ := h
  exact h hv

mutual

theorem Answers.eq {v w : Value} {o : Ordering} :
    Answers v w o → v.DoubleFree → w.DoubleFree → o = v.compare w
  | .same v => fun hv _ => hv.content.compare_self.symm
  | .elements hvs hws he => by
      have ih := he.eq
      intro hv hw
      rw [compare_of_elements hvs hws, ih (hv.of_elements hvs) (hw.of_elements hws)]
  | .fields hvm hwm hf => by
      have ih := hf.eq
      intro hv hw
      rw [compare_of_isMapLike hvm hwm, ih (hv.of_fields hvm) (hw.of_fields hwm)]
  | .other _ _ => fun _ _ => rfl

theorem AnswersEach.eq {vs ws : List Value} {o : Ordering} :
    AnswersEach vs ws o → (∀ v ∈ vs, v.DoubleFree) → (∀ w ∈ ws, w.DoubleFree) →
      o = compareEach compare vs ws
  | .left => fun _ _ => rfl
  | .right => fun _ _ => by cases vs <;> rfl
  | .cons ha he => by
      have ih := ha.eq
      have ih_rest := he.eq
      intro hvs hws
      obtain ⟨hv, hvs⟩ := List.forall_mem_cons.1 hvs
      obtain ⟨hw, hws⟩ := List.forall_mem_cons.1 hws
      rw [compareEach, ih hv hw, ih_rest hvs hws]

theorem AnswersFields.eq {fs gs : List (String × Value)} {o : Ordering} :
    AnswersFields fs gs o → (∀ f ∈ fs, f.2.DoubleFree) → (∀ g ∈ gs, g.2.DoubleFree) →
      o = compareEach compareField fs gs
  | .left => fun _ _ => rfl
  | .right => fun _ _ => by cases fs <;> rfl
  | .cons ha hf => by
      have ih := ha.eq
      have ih_rest := hf.eq
      intro hfs hgs
      obtain ⟨hv, hfs⟩ := List.forall_mem_cons.1 hfs
      obtain ⟨hw, hgs⟩ := List.forall_mem_cons.1 hgs
      rw [compareEach, ih hv hw, ih_rest hfs hgs, compareField]

end

theorem answersEach_of_forall (h : ∀ v ∈ vs, ∀ w ∈ ws, Answers v w (v.compare w)) :
    AnswersEach vs ws (compareEach compare vs ws) := by
  induction vs generalizing ws with
  | nil => exact .left
  | cons v vs ih =>
      cases ws with
      | nil => exact .right
      | cons w ws =>
          refine .cons (h v (by simp) w (by simp)) (ih ?_)
          intro v' hv w' hw
          exact h v' (by simp [hv]) w' (by simp [hw])

theorem answersFields_of_forall (h : ∀ f ∈ fs, ∀ g ∈ gs, Answers f.2 g.2 (f.2.compare g.2)) :
    AnswersFields fs gs (compareEach compareField fs gs) := by
  induction fs generalizing gs with
  | nil => exact .left
  | cons f fs ih =>
      cases gs with
      | nil => exact .right
      | cons g gs =>
          refine .cons (h f (by simp) g (by simp)) (ih ?_)
          intro f' hf g' hg
          exact h f' (by simp [hf]) g' (by simp [hg])

theorem DoubleFree.answers_compare (hv : v.DoubleFree) (w : Value) : Answers v w (v.compare w) := by
  induction hv generalizing w with
  | @intro v _ _ _ ihe ihf =>
      by_cases ha : v.isArrayLike ∧ w.isArrayLike
      · obtain ⟨vs, hvs⟩ := elements?_eq_some_iff.1 ha.1
        obtain ⟨ws, hws⟩ := elements?_eq_some_iff.1 ha.2
        rw [compare_of_elements hvs hws]
        exact .elements hvs hws (answersEach_of_forall fun x hx y _ => ihe vs hvs x hx y)
      by_cases hm : v.isMapLike ∧ w.isMapLike
      · rw [compare_of_isMapLike hm.1 hm.2]
        exact .fields hm.1 hm.2 (answersFields_of_forall fun f hf g _ => ihf hm.1 f hf g.2)
      · exact .other ha hm

/-- Values without doubles are totally preordered, host objects among them. Whether a comparison takes
notice of meeting one value on both sides changes no answer. Plain values are equal only if they are the
same. -/
theorem compare_preorder {a b c : Value} (ha : a.DoubleFree) (hb : b.DoubleFree) (hc : c.DoubleFree) :
    a.compare a = .eq ∧ b.compare a = (a.compare b).swap ∧
      (a.compare b ≠ .gt → b.compare c ≠ .gt → a.compare c ≠ .gt) ∧
        (a.compare b = .eq → b.compare c = .eq → a.compare c = .eq) ∧
          (∀ o, Answers a b o ↔ o = a.compare b) ∧
            (a.Plain → b.Plain → (a.compare b = .eq ↔ a = b)) := by
  have hself : a.compare a = .eq := ha.content.compare_self
  have hchain : Chain (a.compare b) (b.compare c) (a.compare c) := ha.content.chain hb.content hc.content
  refine ⟨hself, ha.content.compare_swap hb.content, hchain.ne_gt, hchain.eq_trans, fun o => ?_, ?_⟩
  · constructor
    · intro h
      exact h.eq ha hb
    · rintro rfl
      exact ha.answers_compare b
  · intro hpa hpb
    constructor
    · intro h
      exact hpa.eq_of_content hpb (ha.content.eq_of_compare hb.content h)
    · rintro rfl
      exact hself

def hostPair : Value :=
  .host ⟨"Pair", true, false, 2⟩ [.int 1] [] []

def plainPair : Value :=
  .array [.int 1, .null]

def laterPair : Value :=
  .array [.int 1, .map [("k", .bool true)]]

theorem doubleFree_hostPair : hostPair.DoubleFree := by
  refine ⟨nofun, fun vs hvs => ?_, nofun⟩
  obtain rfl := Option.some.inj hvs
  have hnull : Value.null.DoubleFree := Plain.null.doubleFree
  have hint : (Value.int 1).DoubleFree := (Plain.int 1).doubleFree
  simp [hostElements, List.range_succ, hint, hnull]

theorem plain_plainPair : plainPair.Plain :=
  .array (by simp [Plain.int, Plain.null])

theorem plain_laterPair : laterPair.Plain :=
  .array (by simp [Plain.int, Plain.map, Plain.bool])

theorem compare_preorder_hostPair :
    hostPair.compare plainPair = .eq ∧ plainPair.compare laterPair = .lt ∧
      hostPair.compare laterPair ≠ .gt ∧ ∀ o, Answers hostPair plainPair o ↔ o = .eq := by
  have heq : hostPair.compare plainPair = .eq := by cbv
  have hlt : plainPair.compare laterPair = .lt := by cbv
  obtain ⟨-, -, hle, -, hanswers, -⟩ :=
    compare_preorder doubleFree_hostPair plain_plainPair.doubleFree plain_laterPair.doubleFree
  refine ⟨heq, hlt, hle (by rw [heq]; decide) (by rw [hlt]; decide), ?_⟩
  rw [← heq]
  exact hanswers

end Value

end Stencil
