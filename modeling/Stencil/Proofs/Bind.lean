
namespace Except

variable {ε α β : Type}

theorem of_map_ok {x : Except ε α} {f : α → β} {b : β} (h : x.map f = .ok b) : ∃ a, x = .ok a ∧ f a = b := by
  cases x with
  | error e => cases h
  | ok a => exact ⟨a, rfl, Except.ok.inj h⟩

theorem map_eq_error_iff {x : Except ε α} {f : α → β} {e : ε} : x.map f = .error e ↔ x = .error e := by
  cases x with
  | error e' => exact ⟨fun h => congrArg Except.error (Except.error.inj h), congrArg (Except.map f)⟩
  | ok a => exact ⟨nofun, nofun⟩

theorem mapError_eq_ok_iff {ε' : Type} {x : Except ε α} {f : ε → ε'} {a : α} :
    x.mapError f = .ok a ↔ x = .ok a := by
  cases x with
  | error e => exact ⟨nofun, nofun⟩
  | ok b => exact ⟨fun h => congrArg Except.ok (Except.ok.inj h), congrArg (Except.mapError f)⟩

theorem of_bind_ok {x : Except ε α} {f : α → Except ε β} {b : β} (h : (x >>= f) = .ok b) :
    ∃ a, x = .ok a ∧ f a = .ok b := by
  cases x with
  | error e => cases h
  | ok a => exact ⟨a, rfl, h⟩

theorem of_bind_error {x : Except ε α} {f : α → Except ε β} {e : ε} (h : (x >>= f) = .error e) :
    x = .error e ∨ ∃ a, x = .ok a ∧ f a = .error e := by
  cases x with
  | error e' =>
      obtain rfl : e' = e := Except.error.inj h
      exact .inl rfl
  | ok a => exact .inr ⟨a, rfl, h⟩

/-- What is made of two results that agree on what is looked at agrees if the steps made of such results do. -/
theorem map_bind_congr {γ δ : Type} {x y : Except ε α} {f g : α → Except ε β} {p : α → γ} {q : β → δ}
    (h : x.map p = y.map p) (hf : ∀ a b, p a = p b → (f a).map q = (g b).map q) :
    (x >>= f).map q = (y >>= g).map q := by
  cases x with
  | error e =>
      cases y with
      | error e' =>
          obtain rfl : e = e' := Except.error.inj h
          rfl
      | ok b => cases h
  | ok a =>
      cases y with
      | error e' => cases h
      | ok b => exact hf a b (Except.ok.inj h)

theorem of_bind_bind_error {γ : Type} {x : Except ε α} {y : Except ε β} {f : α → β → Except ε γ} {e : ε}
    (h : (x >>= fun a => y >>= f a) = .error e) :
    x = .error e ∨ y = .error e ∨ ∃ a b, f a b = .error e := by
  rcases of_bind_error h with h | ⟨a, _, h⟩
  · exact .inl h
  rcases of_bind_error h with h | ⟨b, _, h⟩
  · exact .inr (.inl h)
  · exact .inr (.inr ⟨a, b, h⟩)

theorem of_check_ok {c : Prop} [Decidable c] {e : ε} {f : α → Except ε β} {x : Except ε β} {b : β}
    (h : (if c then throw e >>= f else x) = .ok b) : ¬c ∧ x = .ok b := by
  split at h
  · cases h
  next hc => exact ⟨hc, h⟩

theorem of_mapM_cons {f : α → Except ε β} {a : α} {as : List α} {bs : List β}
    (h : (a :: as).mapM f = .ok bs) : ∃ b bs', f a = .ok b ∧ as.mapM f = .ok bs' ∧ bs = b :: bs' := by
  rw [List.mapM_cons] at h
  obtain ⟨b, hb, h⟩ := of_bind_ok h
  obtain ⟨bs', hbs, h⟩ := of_bind_ok h
  exact ⟨b, bs', hb, hbs, (Except.ok.inj h).symm⟩

theorem of_mapM_append {f : α → Except ε β} {as : List α} {bs bs' : List β}
    (h : as.mapM f = .ok (bs ++ bs')) :
    ∃ as₁ as₂, as = as₁ ++ as₂ ∧ as₁.mapM f = .ok bs ∧ as₂.mapM f = .ok bs' := by
  induction bs generalizing as with
  | nil => exact ⟨[], as, rfl, rfl, h⟩
  | cons b bs ih =>
      cases as with
      | nil => cases h
      | cons a as =>
          obtain ⟨b', bs₁, hb, has, he⟩ := of_mapM_cons h
          obtain ⟨rfl, rfl⟩ := List.cons.inj he
          obtain ⟨as₁, as₂, rfl, h₁, h₂⟩ := ih has
          refine ⟨a :: as₁, as₂, rfl, ?_, h₂⟩
          rw [List.mapM_cons, hb, h₁]
          rfl

theorem exists_of_mem_mapM {f : α → Except ε β} {as : List α} {bs : List β} {b : β}
    (h : as.mapM f = .ok bs) (hb : b ∈ bs) : ∃ a ∈ as, f a = .ok b := by
  induction as generalizing bs with
  | nil =>
      obtain rfl := Except.ok.inj h
      cases hb
  | cons a as ih =>
      obtain ⟨b', bs', hf, has, rfl⟩ := of_mapM_cons h
      rcases List.mem_cons.1 hb with rfl | hb
      · exact ⟨a, List.mem_cons_self, hf⟩
      · obtain ⟨a', ha, hf⟩ := ih has hb
        exact ⟨a', List.mem_cons_of_mem _ ha, hf⟩

theorem of_foldlM_error {f : β → α → Except ε β} {as : List α} {b : β} {e : ε}
    (h : as.foldlM f b = .error e) :
    ∃ before a after b', as = before ++ a :: after ∧ before.foldlM f b = .ok b' ∧ f b' a = .error e := by
  induction as generalizing b with
  | nil => cases h
  | cons a as ih =>
      rw [List.foldlM_cons] at h
      rcases of_bind_error h with ha | ⟨b₁, ha, h⟩
      · exact ⟨[], a, as, b, rfl, rfl, ha⟩
      · obtain ⟨before, x, after, b', rfl, hb, hx⟩ := ih h
        refine ⟨a :: before, x, after, b', rfl, ?_, hx⟩
        rw [List.foldlM_cons, ha]
        exact hb

end Except
