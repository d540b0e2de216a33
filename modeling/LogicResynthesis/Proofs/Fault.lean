import LogicResynthesis.Fault

/-!
# Computations that may fault

A sequence succeeds if each part does. Two computations are alike if they give
the same fault or related results; sequences of alike parts are alike.
-/

namespace LogicResynthesis

theorem bind_eq_ok {α β ε : Type} {x : Except ε α} {f : α → Except ε β} {b : β} :
    x >>= f = .ok b ↔ ∃ a, x = .ok a ∧ f a = .ok b := by
  constructor
  · intro h
    cases x with
    | error e => cases h
    | ok a => exact ⟨a, rfl, h⟩
  · rintro ⟨a, rfl, h⟩
    exact h

theorem map_eq_ok {α β ε : Type} {x : Except ε α} {f : α → β} {b : β} :
    x.map f = .ok b ↔ ∃ a, x = .ok a ∧ f a = b := by
  cases x <;> simp [Except.map]

theorem map_eq_error {α β ε : Type} {x : Except ε α} {f : α → β} {e : ε} :
    x.map f = .error e ↔ x = .error e := by
  cases x <;> simp [Except.map]

/-- If some reason for success or some reason for an error is always there, there are no others. -/
theorem ok_iff_error_iff {α ε : Type} {x : Except ε α} {success : Prop} {reason : ε → Prop}
    (hok : success → ∃ a, x = .ok a) (herror : ∀ e, reason e → x = .error e)
    (hcases : (∃ e, reason e) ∨ success) :
    ((∃ a, x = .ok a) ↔ success) ∧ ∀ e, x = .error e ↔ reason e := by
  rcases hcases with ⟨e, he⟩ | hs
  · have hx := herror e he
    constructor
    · constructor
      · rintro ⟨a, ha⟩
        cases hx.symm.trans ha
      · exact hok
    · intro e'
      constructor
      · intro hx'
        obtain rfl := Except.error.inj (hx.symm.trans hx')
        exact he
      · exact herror e'
  · obtain ⟨a, hx⟩ := hok hs
    constructor
    · exact ⟨fun _ => hs, hok⟩
    · intro e
      constructor
      · intro hx'
        cases hx.symm.trans hx'
      · exact herror e

/-- Both give the same fault, or results that `R` relates. -/
inductive Alike {α β : Type} (R : α → β → Prop) : Except Fault α → Except Fault β → Prop
  | error (f : Fault) : Alike R (.error f) (.error f)
  | ok {a : α} {b : β} (h : R a b) : Alike R (.ok a) (.ok b)

namespace Alike

variable {α β γ δ : Type} {R : α → β → Prop} {S : γ → δ → Prop} {x : Except Fault α}
  {y : Except Fault β}

theorem bind (h : Alike R x y) {f : α → Except Fault γ} {g : β → Except Fault δ}
    (hf : ∀ a b, R a b → Alike S (f a) (g b)) : Alike S (x >>= f) (y >>= g) := by
  cases h with
  | error e => exact .error e
  | ok hab => exact hf _ _ hab

theorem error_or_ok (h : Alike R x y) :
    (∃ f, x = .error f ∧ y = .error f) ∨ ∃ a b, x = .ok a ∧ y = .ok b ∧ R a b := by
  cases h with
  | error f => exact Or.inl ⟨f, rfl, rfl⟩
  | ok hab => exact Or.inr ⟨_, _, rfl, rfl, hab⟩

theorem exists_ok (h : Alike R x y) {a : α} (hx : x = .ok a) : ∃ b, y = .ok b ∧ R a b := by
  cases h with
  | error e => cases hx
  | ok hab =>
    obtain rfl := Except.ok.inj hx
    exact ⟨_, rfl, hab⟩

theorem refl {x : Except Fault α} : Alike Eq x x := by
  cases x with
  | error e => exact .error e
  | ok a => exact .ok rfl

theorem map_same {x : Except Fault α} {f : α → γ} {g : α → δ} (h : ∀ a, S (f a) (g a)) :
    Alike S (x.map f) (x.map g) := by
  cases x with
  | error e => exact .error e
  | ok a => exact .ok (h a)

theorem foldlM {ν : Type} {f : α → ν → Except Fault α} {g : β → ν → Except Fault β}
    (hf : ∀ a b n, R a b → Alike R (f a n) (g b n)) (ns : List ν) {a : α} {b : β} (h : R a b) :
    Alike R (ns.foldlM f a) (ns.foldlM g b) := by
  induction ns generalizing a b with
  | nil => exact .ok h
  | cons n ns ih =>
    rw [List.foldlM_cons, List.foldlM_cons]
    exact (hf a b n h).bind fun _ _ h' => ih h'

end Alike
end LogicResynthesis
