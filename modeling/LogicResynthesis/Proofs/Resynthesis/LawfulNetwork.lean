import LogicResynthesis.Proofs.Aig.Builder
import LogicResynthesis.Proofs.Xag.Semantics

/-!
# Networks whose gates compute what is asked for

In a lawful network signals have values for every assignment of the inputs. A
requested gate is answered with a signal of its value, without a fault, and the
network only grows. Netlist builders and XAGs are lawful.
-/

namespace LogicResynthesis

/-- The meaning of signals, and the laws of the gates. -/
class LawfulNetwork (σ : Type) [Network σ] where
  /-- The operations of the network lead to it. -/
  Reachable : σ → Prop
  /-- The signal exists. -/
  Has : σ → Signal → Prop
  /-- The value of a signal when input `i` has the value `a i`. -/
  value : σ → (Nat → Bool) → Signal → Bool
  /-- The second network has further nodes, and is otherwise the same. -/
  GrowsTo : σ → σ → Prop
  grows_refl : ∀ g, GrowsTo g g
  grows_trans : ∀ {g g' g''}, GrowsTo g g' → GrowsTo g' g'' → GrowsTo g g''
  has_of_grows : ∀ {g g' s}, GrowsTo g g' → Has g s → Has g' s
  value_of_grows : ∀ {g g' s}, GrowsTo g g' → Has g s → ∀ a, value g' a s = value g a s
  has_constant : ∀ {g}, Reachable g → ∀ v, Has g (.constant v)
  value_constant : ∀ {g}, Reachable g → ∀ a v, value g a (.constant v) = v
  has_complementIf : ∀ {g s}, Has g s → ∀ v, Has g (s.complementIf v)
  value_complementIf : ∀ g a s v, value g a (s.complementIf v) = (value g a s ^^ v)
  addAnd?_ok : ∀ {g x y}, Reachable g → Has g x → Has g y →
    ∃ s g', Network.addAnd? g x y = .ok (s, g') ∧ Reachable g' ∧ GrowsTo g g' ∧ Has g' s ∧
      ∀ a, value g' a s = (value g a x && value g a y)
  addXor?_ok : ∀ {g x y}, Reachable g → Has g x → Has g y →
    ∃ s g', Network.addXor? g x y = .ok (s, g') ∧ Reachable g' ∧ GrowsTo g g' ∧ Has g' s ∧
      ∀ a, value g' a s = (value g a x ^^ value g a y)

instance : LawfulNetwork Xag where
  Reachable := Xag.Reachable
  Has := Xag.Has
  value := Xag.value
  GrowsTo := Xag.GrowsTo
  grows_refl := Xag.GrowsTo.refl
  grows_trans := Xag.GrowsTo.trans
  has_of_grows h hs := h.has hs
  value_of_grows h hs := h.value_eq hs
  has_constant h := Xag.has_of_getElem? h.wellFormed.zero
  value_constant h a _ := Xag.value_of_zero a h.wellFormed.zero rfl
  has_complementIf h _ := h
  value_complementIf _ := Xag.value_complementIf
  addAnd?_ok h hx hy := by
    have hadd := Xag.addAnd_answers h.wellFormed hx hy
    exact ⟨_, _, rfl, .addAnd h hx hy, hadd.grows, hadd.has, hadd.value⟩
  addXor?_ok h hx hy := by
    have hadd := Xag.addXor_answers h.wellFormed hx hy
    exact ⟨_, _, rfl, .addXor h hx hy, hadd.grows, hadd.has, hadd.value⟩

instance : LawfulNetwork Aig.Builder where
  Reachable := Aig.Builder.Reachable
  Has := Aig.Builder.Has
  value := Aig.Builder.value
  GrowsTo := Aig.Builder.GrowsTo
  grows_refl := Aig.Builder.GrowsTo.refl
  grows_trans := Aig.Builder.GrowsTo.trans
  has_of_grows h hs := h.has hs
  value_of_grows h hs := h.value_eq hs
  has_constant h := Aig.Builder.has_constant h.wellFormed
  value_constant h := Aig.Builder.value_constant h.wellFormed
  has_complementIf := Aig.Builder.has_complementIf
  value_complementIf _ := Aig.Builder.value_complementIf
  addAnd?_ok h hx hy := by
    obtain ⟨s, b, hadd, -, hgrows, hs, hvalue⟩ := Aig.Builder.addAnd_answers h.wellFormed hx hy
    exact ⟨s, b, hadd, .addAnd h hx hy hadd, hgrows, hs, hvalue⟩
  addXor?_ok h hx hy := by
    obtain ⟨s, b, hadd, -, hgrows, hs, hvalue⟩ := Aig.Builder.addXor_answers h.wellFormed hx hy
    exact ⟨s, b, hadd, .addXor h hx hy hadd, hgrows, hs, hvalue⟩

end LogicResynthesis
