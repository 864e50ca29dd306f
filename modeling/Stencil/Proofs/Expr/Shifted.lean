import Stencil.Proofs.Expr.Placement
import Stencil.Proofs.Token.Scanned

namespace Stencil

namespace Token

def shifted (n : Nat) (t : Token) : Token :=
  { t with offset := t.offset + n }

variable {o m n : Nat} {cs rest : List Char} {ts : List Token}

theorem Scanned.shifted (h : Scanned o cs ts m rest) (n : Nat) :
    Scanned (o + n) cs (ts.map (Token.shifted n)) (m + n) rest := by
  induction h with
  | start => exact .start
  | space hc _ ih =>
      rw [Nat.add_right_comm] at ih
      exact .space hc ih
  | token hl _ ih =>
      rw [Nat.add_right_comm] at ih
      exact .token hl ih

theorem scan_shifted (h : scan o cs = .ok ts) (n : Nat) : scan (o + n) cs = .ok (ts.map (shifted n)) := by
  rw [scan_eq_ok_iff] at h ⊢
  rw [Nat.add_right_comm]
  exact h.shifted n

end Token

namespace Expr

mutual

def shifted (n : Nat) : Expr → Expr
  | .literal v k => .literal v (k + n)
  | .array items k => .array (shiftedAll n items) (k + n)
  | .variable name k => .variable name (k + n)
  | .member e name k => .member (e.shifted n) name (k + n)
  | .index e key k => .index (e.shifted n) (key.shifted n) (k + n)
  | .binary op l r k => .binary op (l.shifted n) (r.shifted n) (k + n)
  | .negation e k => .negation (e.shifted n) (k + n)
  | .pipe e filter arguments k => .pipe (e.shifted n) filter arguments (k + n)

def shiftedAll (n : Nat) : List Expr → List Expr
  | [] => []
  | e :: rest => e.shifted n :: shiftedAll n rest

end

theorem shiftedAll_eq {n : Nat} {es fs : List Expr} (h : List.Forall₂ (fun e f => f = e.shifted n) es fs) :
    fs = shiftedAll n es := by
  induction h with
  | nil => rfl
  | cons h _ ih => rw [shiftedAll, h, ih]

end Expr

def Rewording.shifted (n : Nat) : Rewording where
  token t u := u = t.shifted n
  value := Eq
  expr e f := f = e.shifted n
  kind_eq h := h ▸ rfl
  text_eq h _ := h ▸ rfl
  unquoted h := h ▸ rfl
  value_refl := Eq.refl
  value_array := array_of_eq
  literal ht hv := ht ▸ hv ▸ rfl
  array ht hes := ht ▸ Expr.shiftedAll_eq hes ▸ rfl
  «variable» ht := ht ▸ rfl
  member ht he := ht ▸ he ▸ rfl
  index ht he hk := ht ▸ he ▸ hk ▸ rfl
  binary ht hl hr := ht ▸ hl ▸ hr ▸ rfl
  negation ht he := ht ▸ he ▸ rfl
  pipe ht he hvs := by
    rw [List.forall₂_eq_eq_eq] at hvs
    rw [ht, he, ← hvs]
    rfl

theorem Token.forall₂_shifted {n : Nat} {ts us : List Token} :
    List.Forall₂ (fun t u => u = shifted n t) ts us ↔ us = ts.map (shifted n) := by
  rw [eq_comm, ← List.forall₂_eq_eq_eq, List.forall₂_map_left_iff]
  simp only [eq_comm]

theorem Expr.ofTokens_shifted {ts : List Token} {stop : Nat} {e : Expr} (h : ofTokens ts stop = .ok e)
    (n stop' : Nat) : ofTokens (ts.map (Token.shifted n)) stop' = .ok (e.shifted n) := by
  obtain ⟨f, hf, rfl⟩ := (Rewording.shifted n).read h (Token.forall₂_shifted.2 rfl) stop'
  exact hf

end Stencil
