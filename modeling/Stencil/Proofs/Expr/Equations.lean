import Stencil.Expr.Reader
import Stencil.Proofs.Token.Lexeme

namespace Stencil

theorem List.mapM_attach_eq {ε α β : Type} {xs : List α} {g : { x // x ∈ xs } → Except ε β}
    {f : α → Except ε β} (h : ∀ x hx, g ⟨x, hx⟩ = f x) : xs.attach.mapM g = xs.mapM f := by
  rw [List.mapM_subtype h, List.unattach_attach]

namespace Expr

variable {t : Token} {ts inner rest : List Token} {close : Token} {stop : Nat}

def unbounded {β : Type} {p : List Token → Prop} (x : Parsing (β × { rest : List Token // p rest })) :
    Parsing (β × List Token) :=
  x.map fun (b, rest) => (b, rest.1)

def onlyConstant (ts : List Token) (stop : Nat) : Parsing Value := do
  let (v, left) ← constant ts stop
  match left.1 with
  | [] => return v
  | extra :: _ => throw (ParseFault.expectedItemSeparator.at extra.offset)

theorem isOperator_eq_false {symbol : String} (h : t.kind ≠ .operator) : t.isOperator symbol = false := by
  simp [Token.isOperator, h]

theorem isLiteral_eq_false (h : t.kind = .operator ∨ t.kind = .leftBracket ∨ t.kind = .identifier) :
    isLiteral t = false := by
  rcases h with h | h | h <;> simp [isLiteral, h]

theorem constant_literal (ht : isLiteral t) :
    unbounded (constant (t :: ts) stop) = (literalValue t).map (·, ts) := by
  rw [constant, if_pos ht]
  cases literalValue t <;> rfl

theorem negative_digits {sign digits : Token} (hd : digits.kind = .integer) :
    negative sign (digits :: ts) stop =
      (integerOf (-(ofDigits digits.text.toList : Int)) sign.offset).map fun v => (v, ⟨ts, Nat.le_succ _⟩) := by
  rw [negative, if_pos hd]
  cases integerOf (-(ofDigits digits.text.toList : Int)) sign.offset <;> rfl

theorem constant_negative {digits : Token} (ht : t.isOperator "-") (hd : digits.kind = .integer) :
    unbounded (constant (t :: digits :: ts) stop) =
      (integerOf (-(ofDigits digits.text.toList : Int)) t.offset).map (·, ts) := by
  rw [constant, if_neg (by rw [isLiteral_eq_false (.inl (Token.kind_of_isOperator ht))]; decide), if_pos ht,
    negative_digits hd]
  cases integerOf (-(ofDigits digits.text.toList : Int)) t.offset <;> rfl

theorem constant_array (ho : t.kind = .leftBracket)
    (hb : Token.takeBracketed 0 ts = some (inner, close, rest)) :
    unbounded (constant (t :: ts) stop) =
      ((Token.splitTopLevel .comma inner).mapM (onlyConstant · close.offset)).map (.array ·, rest) := by
  rw [constant, if_neg (by rw [isLiteral_eq_false (.inr (.inl ho))]; decide),
    if_neg (by rw [isOperator_eq_false (by rw [ho]; decide)]; decide), if_pos ho]
  split
  next h => rw [hb] at h; cases h
  next inner' close' rest' h =>
    rw [hb] at h
    cases h
    dsimp only
    rw [List.mapM_attach_eq (f := (onlyConstant · close.offset)) (fun piece hp => rfl)]
    cases (Token.splitTopLevel .comma inner).mapM (onlyConstant · close.offset) <;> rfl

theorem operand_not (ht : t.isOperator "not" ∨ t.isOperator "!") :
    unbounded (operand (t :: ts) stop) =
      (unbounded (operand ts stop)).map fun (e, left) => (.negation e t.offset, left) := by
  rw [operand, if_pos (by simpa using ht)]
  cases operand ts stop <;> rfl

theorem operand_variable (ht : t.kind = .identifier) :
    unbounded (operand (t :: ts) stop) = unbounded (accesses (.variable t.text t.offset) ts) := by
  have hop {symbol : String} : ¬t.isOperator symbol = true := by
    rw [isOperator_eq_false (by rw [ht]; decide)]
    decide
  rw [operand, if_neg (by simp [hop]), if_neg (by simp [hop]), if_pos ht]
  cases accesses (.variable t.text t.offset) ts <;> rfl

theorem operand_literal (ht : isLiteral t) :
    unbounded (operand (t :: ts) stop) =
      literalValue t >>= fun v => unbounded (accesses (.literal v t.offset) ts) := by
  have hop {symbol : String} : ¬t.isOperator symbol = true := by
    intro hs
    rw [isLiteral_eq_false (.inl (Token.kind_of_isOperator hs))] at ht
    cases ht
  have hid : ¬t.kind = .identifier := by
    intro hk
    rw [isLiteral_eq_false (.inr (.inr hk))] at ht
    cases ht
  rw [operand, if_neg (by simp [hop]), if_neg (by simp [hop]), if_neg hid, if_pos ht]
  cases literalValue t with
  | error e => rfl
  | ok v =>
      dsimp only [bind, Except.bind]
      cases accesses (.literal v t.offset) ts <;> rfl

theorem operand_negative {digits : Token} (ht : t.isOperator "-") (hd : digits.kind = .integer) :
    unbounded (operand (t :: digits :: ts) stop) =
      integerOf (-(ofDigits digits.text.toList : Int)) t.offset >>= fun v =>
        unbounded (accesses (.literal v t.offset) ts) := by
  have hnot : ¬(t.isOperator "not" || t.isOperator "!") = true := by
    simp [Token.isOperator] at ht ⊢
    simp [ht]
  rw [operand, if_neg hnot, if_pos (by simp [ht, hd]), negative_digits hd]
  cases integerOf (-(ofDigits digits.text.toList : Int)) t.offset with
  | error e => rfl
  | ok v =>
      dsimp only [bind, Except.bind, Except.map]
      cases accesses (.literal v t.offset) ts <;> rfl

theorem operand_array (ho : t.kind = .leftBracket)
    (hb : Token.takeBracketed 0 ts = some (inner, close, rest)) :
    unbounded (operand (t :: ts) stop) =
      (Token.splitTopLevel .comma inner).mapM (ofTokens · close.offset) >>= fun items =>
        unbounded (accesses (.array items t.offset) rest) := by
  have hop {symbol : String} : ¬t.isOperator symbol = true := by
    rw [isOperator_eq_false (by rw [ho]; decide)]
    decide
  rw [operand, if_neg (by simp [hop]), if_neg (by simp [hop]), if_neg (by rw [ho]; decide),
    if_neg (by rw [isLiteral_eq_false (.inr (.inl ho))]; decide), if_pos ho]
  split
  next h => rw [hb] at h; cases h
  next inner' close' rest' h =>
    rw [hb] at h
    cases h
    dsimp only
    rw [List.mapM_attach_eq (f := (ofTokens · close.offset)) (fun piece hp => rfl)]
    cases (Token.splitTopLevel .comma inner).mapM (ofTokens · close.offset) with
    | error e => rfl
    | ok items =>
        dsimp only [bind, Except.bind]
        cases accesses (.array items t.offset) rest <;> rfl

theorem accesses_member {e : Expr} {name : Token} (hd : t.kind = .dot) (hn : name.kind = .identifier) :
    unbounded (accesses e (t :: name :: ts)) =
      unbounded (accesses (.member e name.text name.offset) ts) := by
  rw [accesses, if_pos hd]
  dsimp only
  rw [if_pos hn]
  cases accesses (.member e name.text name.offset) ts <;> rfl

theorem accesses_index {e : Expr} (ho : t.kind = .leftBracket) (hi : inner ≠ [])
    (hb : Token.takeBracketed 0 ts = some (inner, close, rest)) :
    unbounded (accesses e (t :: ts)) = ofTokens inner close.offset >>= fun key =>
      unbounded (accesses (.index e key t.offset) rest) := by
  rw [accesses.eq_def]
  dsimp only
  rw [if_neg (by rw [ho]; decide), if_pos ho]
  split
  next h => rw [hb] at h; cases h
  next inner' close' rest' h =>
    rw [hb] at h
    cases h
    rw [if_neg (by simpa using hi)]
    cases ofTokens inner close.offset with
    | error e => rfl
    | ok key =>
        dsimp only [bind, Except.bind]
        cases accesses (.index e key t.offset) rest <;> rfl

def StartsNoAccess (ts : List Token) : Prop :=
  ∀ t ∈ ts.head?, t.kind ≠ .dot ∧ t.kind ≠ .leftBracket

theorem accesses_stop {e : Expr} (h : StartsNoAccess ts) : unbounded (accesses e ts) = .ok (e, ts) := by
  cases ts with
  | nil =>
      rw [accesses]
      rfl
  | cons t ts =>
      obtain ⟨hd, hl⟩ := h t rfl
      rw [accesses.eq_def]
      dsimp only
      rw [if_neg hd, if_neg hl]
      rfl

def StartsPipe (ts : List Token) : Prop :=
  ∀ t ∈ ts.head?, t.kind = .pipe

theorem StartsPipe.noAccess (h : StartsPipe ts) : StartsNoAccess ts := by
  intro t ht
  rw [h t ht]
  decide

theorem operations_stop (h : StartsPipe ts) : unbounded (operations ts stop) = .ok ([], ts) := by
  cases ts with
  | nil =>
      rw [operations]
      rfl
  | cons t ts =>
      rw [operations, if_pos (h t rfl)]
      rfl

theorem binaryOperator_ok {op : BinaryOp} (ht : t.kind = .operator) (ho : BinaryOp.ofSymbol? t.text = some op) :
    binaryOperator t = .ok op := by
  rw [binaryOperator, if_neg (by rw [ht]; decide), ho]

theorem operations_cons {op : BinaryOp} (ht : t.kind = .operator) (ho : BinaryOp.ofSymbol? t.text = some op) :
    unbounded (operations (t :: ts) stop) = unbounded (operand ts stop) >>= fun (right, left) =>
      (unbounded (operations left stop)).map fun (chain, left) => (⟨op, t.offset, right⟩ :: chain, left) := by
  rw [operations, if_neg (by rw [ht]; decide), binaryOperator_ok ht ho]
  dsimp only [bind, Except.bind]
  cases operand ts stop with
  | error e => rfl
  | ok p =>
      obtain ⟨right, left, hleft⟩ := p
      dsimp only [unbounded, Except.map]
      cases operations left stop <;> rfl

theorem ofTokens_eq (h : ts ≠ []) : ofTokens ts stop =
    unbounded (operand ts stop) >>= fun (first, rest) =>
      unbounded (operations rest stop) >>= fun (chain, left) =>
        pipeline (Operation.fold first chain) left stop := by
  rw [ofTokens, if_neg (by simpa using h)]
  cases operand ts stop with
  | error e => rfl
  | ok p =>
      obtain ⟨first, rest, hrest⟩ := p
      dsimp only [bind, Except.bind, unbounded, Except.map]
      cases operations rest stop <;> rfl

theorem arguments_stop (h : StartsPipe ts) : unbounded (arguments ts stop) = .ok ([], ts) := by
  cases ts with
  | nil =>
      rw [arguments]
      rfl
  | cons t ts =>
      rw [arguments, if_pos (h t rfl)]
      rfl

theorem arguments_last {v : Value} (ht : t.kind ≠ .pipe)
    (hc : unbounded (constant (t :: ts) stop) = .ok (v, rest)) (h : StartsPipe rest) :
    unbounded (arguments (t :: ts) stop) = .ok ([v], rest) := by
  rw [arguments, if_neg ht]
  cases hv : constant (t :: ts) stop with
  | error e =>
      rw [hv] at hc
      cases hc
  | ok p =>
      obtain ⟨v', left, hleft⟩ := p
      rw [hv] at hc
      obtain ⟨rfl, rfl⟩ := Prod.mk.inj (Except.ok.inj hc)
      dsimp only [bind, Except.bind]
      cases left with
      | nil => rfl
      | cons separator more =>
          dsimp only
          rw [if_pos (h separator rfl)]
          rfl

theorem arguments_more {v : Value} {comma : Token} (ht : t.kind ≠ .pipe)
    (hc : unbounded (constant (t :: ts) stop) = .ok (v, comma :: rest)) (hcomma : comma.kind = .comma) :
    unbounded (arguments (t :: ts) stop) =
      (unbounded (arguments rest stop)).map fun (vs, left) => (v :: vs, left) := by
  rw [arguments, if_neg ht]
  cases hv : constant (t :: ts) stop with
  | error e =>
      rw [hv] at hc
      cases hc
  | ok p =>
      obtain ⟨v', left, hleft⟩ := p
      rw [hv] at hc
      obtain ⟨rfl, rfl⟩ := Prod.mk.inj (Except.ok.inj hc)
      dsimp only [bind, Except.bind]
      rw [if_neg (by rw [hcomma]; decide), if_pos hcomma]
      cases arguments rest stop <;> rfl

theorem pipeline_bare {e : Expr} {name : Token} (hb : t.kind = .pipe) (hn : name.kind = .identifier)
    (h : StartsPipe ts) :
    pipeline e (t :: name :: ts) stop = pipeline (.pipe e name.text [] name.offset) ts stop := by
  rw [pipeline.eq_def]
  dsimp only
  rw [if_neg (not_not_intro hb), if_neg (not_not_intro hn)]
  cases ts with
  | nil => rw [pipeline]
  | cons next ts => exact if_pos (h next rfl)

theorem pipeline_applied {e : Expr} {name colon : Token} (hb : t.kind = .pipe) (hn : name.kind = .identifier)
    (hc : colon.kind = .colon) :
    pipeline e (t :: name :: colon :: ts) stop = unbounded (arguments ts stop) >>= fun (vs, left) =>
      pipeline (.pipe e name.text vs name.offset) left stop := by
  rw [pipeline.eq_def]
  dsimp only
  rw [if_neg (not_not_intro hb), if_neg (not_not_intro hn), if_neg (by rw [hc]; decide), if_pos hc]
  cases arguments ts stop <;> rfl

end Expr

end Stencil
