import Stencil.Proofs.Expr.Offsets
import Stencil.Proofs.Node.Tag

namespace Stencil

namespace Expr

mutual

def parts : Expr → List Expr
  | .literal v n => [.literal v n]
  | .array items n => .array items n :: partsAll items
  | .variable name n => [.variable name n]
  | .member target name n => .member target name n :: target.parts
  | .index target key n => .index target key n :: (target.parts ++ key.parts)
  | .binary op left right n => .binary op left right n :: (left.parts ++ right.parts)
  | .negation operand n => .negation operand n :: operand.parts
  | .pipe target filter arguments n => .pipe target filter arguments n :: target.parts

def partsAll : List Expr → List Expr
  | [] => []
  | e :: rest => e.parts ++ partsAll rest

end

theorem mem_parts (e : Expr) : e ∈ e.parts := by
  cases e <;> exact List.mem_cons_self

/-- The expression remembers where this token begins, and it is what the token says. -/
inductive MadeFrom (t : Token) : Expr → Prop
  | literal {ts : List Token} {v : Value} : Literal (t :: ts) v → MadeFrom t (.literal v t.offset)
  | array {items : List Expr} : t.kind = .leftBracket → MadeFrom t (.array items t.offset)
  | variable : t.kind = .identifier → MadeFrom t (.variable t.text t.offset)
  | member {target : Expr} : t.kind = .identifier → MadeFrom t (.member target t.text t.offset)
  | index {target key : Expr} : t.kind = .leftBracket → MadeFrom t (.index target key t.offset)
  | binary {op : BinaryOp} {left right : Expr} : t.kind = .operator → BinaryOp.ofSymbol? t.text = some op →
      MadeFrom t (.binary op left right t.offset)
  | negation {operand : Expr} : t.isOperator "not" ∨ t.isOperator "!" → MadeFrom t (.negation operand t.offset)
  | pipe {target : Expr} {arguments : List Value} : t.kind = .identifier →
      MadeFrom t (.pipe target t.text arguments t.offset)

theorem MadeFrom.offset_eq {t : Token} {e : Expr} (h : e.MadeFrom t) : e.offset = t.offset := by
  cases h <;> rfl

def AllRooted (T : Token → Prop) (es : List Expr) : Prop :=
  ∀ e ∈ es, ∃ t, T t ∧ e.MadeFrom t

def Rooted (T : Token → Prop) (e : Expr) : Prop :=
  AllRooted T e.parts

variable {T : Token → Prop} {t : Token} {e : Expr} {es fs : List Expr}

theorem AllRooted.nil : AllRooted T [] :=
  List.forall_mem_nil _

theorem AllRooted.cons (ht : T t) (he : e.MadeFrom t) (h : AllRooted T es) : AllRooted T (e :: es) :=
  List.forall_mem_cons.2 ⟨⟨t, ht, he⟩, h⟩

theorem AllRooted.append (he : AllRooted T es) (hf : AllRooted T fs) : AllRooted T (es ++ fs) :=
  List.forall_mem_append.2 ⟨he, hf⟩

end Expr

open Stencil.Expr (Rooted AllRooted)

variable {T : Token → Prop}

theorem Operation.rooted_fold {first : Expr} {chain : List Operation} (hf : first.Rooted T)
    (hc : ∀ o ∈ chain, o.operand.Rooted T ∧
      ∃ t, T t ∧ ∀ left right, (Expr.binary o.op left right o.offset).MadeFrom t) :
    (fold first chain).Rooted T := by
  induction first, chain using fold.induct with
  | case1 first chain h => rwa [fold_of_none h]
  | case2 first chain before pivot after h _ ih_before ih_after =>
      rw [eq_append_of_splitLoosest h] at hc
      obtain ⟨hbefore, hpivot, hafter⟩ := by simpa only [List.forall_mem_append, List.forall_mem_cons] using hc
      obtain ⟨hoperand, t, ht, hmade⟩ := hpivot
      rw [fold_of_some h, Rooted, Expr.parts]
      exact .cons ht (hmade _ _) (.append (ih_before hf hbefore) (ih_after hoperand hafter))

namespace Expr

theorem Filters.rooted {many : Bool} {e e' : Expr} {ts : List Token} (h : Filters many e ts e')
    (he : e.Rooted T) (hs : ∀ t ∈ ts, T t) : e'.Rooted T := by
  induction h with
  | nil => exact he
  | bare _ hname _ ih =>
      simp only [List.forall_mem_cons] at hs
      exact ih (.cons hs.2.1 (.pipe hname) he) hs.2.2
  | applied _ hname _ _ _ ih =>
      simp only [List.forall_mem_cons, List.forall_mem_append] at hs
      exact ih (.cons hs.2.1 (.pipe hname) he) hs.2.2.2.2

mutual

theorem Sentence.rooted {many : Bool} {ts : List Token} {e : Expr} : Sentence many ts e →
    (∀ t ∈ ts, T t) → e.Rooted T
  | .chain hf hc hr => by
      intro hs
      simp only [List.forall_mem_append] at hs
      exact hr.rooted (Operation.rooted_fold (hf.rooted hs.1) (hc.rooted hs.2.1)) hs.2.2

theorem Operations.rooted {ts : List Token} {chain : List Operation} : Operations ts chain →
    (∀ t ∈ ts, T t) → ∀ o ∈ chain, o.operand.Rooted T ∧
      ∃ t, T t ∧ ∀ left right, (Expr.binary o.op left right o.offset).MadeFrom t
  | .nil => fun _ => List.forall_mem_nil _
  | .cons hk hsymbol ho hr => by
      intro hs
      simp only [List.forall_mem_cons, List.forall_mem_append] at hs
      refine List.forall_mem_cons.2 ⟨⟨ho.rooted hs.2.1, _, hs.1, fun _ _ => ?_⟩, hr.rooted hs.2.2⟩
      exact .binary hk hsymbol

theorem Operand.rooted {ts : List Token} {e : Expr} : Operand ts e → (∀ t ∈ ts, T t) → e.Rooted T
  | .negation ht ho => by
      intro hs
      rw [List.forall_mem_cons] at hs
      exact .cons hs.1 (.negation ht) (ho.rooted hs.2)
  | .primary hp ha => by
      intro hs
      rw [List.forall_mem_append] at hs
      exact ha.rooted (hp.rooted hs.1) hs.2

theorem Primary.rooted {ts : List Token} {e : Expr} : Primary ts e → (∀ t ∈ ts, T t) → e.Rooted T
  | .variable ht => fun hs => .cons (List.forall_mem_cons.1 hs).1 (.variable ht) .nil
  | .literal hl => fun hs => .cons (List.forall_mem_cons.1 hs).1 (.literal hl) .nil
  | .emptyArray ho _ => fun hs => .cons (List.forall_mem_cons.1 hs).1 (.array ho) .nil
  | .array ho _ hi => by
      intro hs
      simp only [List.forall_mem_cons, List.forall_mem_append] at hs
      exact .cons hs.1 (.array ho) (hi.rooted hs.2.1)

theorem Accesses.rooted {e e' : Expr} {ts : List Token} : Accesses e ts e' →
    e.Rooted T → (∀ t ∈ ts, T t) → e'.Rooted T
  | .nil => fun he _ => he
  | .member _ hname hr => by
      intro he hs
      simp only [List.forall_mem_cons] at hs
      exact hr.rooted (.cons hs.2.1 (.member hname) he) hs.2.2
  | .index ho _ hk hr => by
      intro he hs
      simp only [List.forall_mem_cons, List.forall_mem_append] at hs
      exact hr.rooted (.cons hs.1 (.index ho) (.append he (hk.rooted hs.2.1))) hs.2.2.2

theorem Items.rooted {ts : List Token} {es : List Expr} : Items ts es →
    (∀ t ∈ ts, T t) → AllRooted T (partsAll es)
  | .one h => fun hs => .append (h.rooted hs) .nil
  | .more h _ hr => by
      intro hs
      simp only [List.forall_mem_cons, List.forall_mem_append] at hs
      exact .append (h.rooted hs.1) (hr.rooted hs.2.2)

end

theorem rooted_of_ofTokens {ts : List Token} {stop : Nat} {e : Expr} (h : ofTokens ts stop = .ok e)
    (hs : ∀ t ∈ ts, T t) : e.Rooted T :=
  (ofTokens_sound ts stop e h).rooted hs

theorem ReadFrom.rooted {ts : List Token} {e : Expr} (h : e.ReadFrom ts) (hs : ∀ t ∈ ts, T t) : e.Rooted T := by
  obtain ⟨us, stop, hus, he⟩ := h
  exact rooted_of_ofTokens he fun t ht => hs t (hus ht)

end Expr

end Stencil
