import Mathlib.Tactic

namespace SelfInverse

variable {G I : Type} {op : G → G → G} [AddCommGroup I] {C : I → G} {Z : G → G}

/-- Two steps of a recurrence over both neighbours: the terms in the middle cancel. -/
theorem double [hassoc : Std.Associative op] (hcancel : ∀ a b, op a (op a b) = b)
    (hZ : ∀ a b, Z (op a b) = op (Z a) (Z b)) {k : I}
    (h : ∀ i, C i = op (C (i - k)) (Z (C (i + k)))) (i : I) : C i = op (C (i - (k + k))) (Z (Z (C (i + (k + k))))) := by
  have hbefore := h (i - k)
  have hafter := h (i + k)
  rw [sub_sub, sub_add_cancel] at hbefore
  rw [add_assoc, add_sub_cancel_right] at hafter
  calc C i = op (C (i - k)) (Z (C (i + k))) := h i
    _ = op (op (C (i - (k + k))) (Z (C i))) (Z (op (C i) (Z (C (i + (k + k)))))) := by rw [← hbefore, ← hafter]
    _ = op (C (i - (k + k))) (op (Z (C i)) (op (Z (C i)) (Z (Z (C (i + (k + k))))))) := by
      rw [hZ, hassoc.assoc]
    _ = op (C (i - (k + k))) (Z (Z (C (i + (k + k))))) := by rw [hcancel]

theorem iterate_op (hZ : ∀ a b, Z (op a b) = op (Z a) (Z b)) (n : Nat) (a b : G) : Z^[n] (op a b) = op (Z^[n] a) (Z^[n] b) := by
  induction n generalizing a b with
  | zero => rfl
  | succ n ih => rw [Function.iterate_succ_apply, Function.iterate_succ_apply, Function.iterate_succ_apply, hZ, ih]

/-- A recurrence over the next neighbours holds of the neighbours at every distance that is a power of two. -/
theorem doublings (op : G → G → G) [Std.Associative op] (Z : G → G) (C : I → G) (hcancel : ∀ a b, op a (op a b) = b)
    (hZ : ∀ a b, Z (op a b) = op (Z a) (Z b)) {k : I}
    (h : ∀ i, C i = op (C (i - k)) (Z (C (i + k)))) (m : Nat) :
    ∀ i, C i = op (C (i - 2 ^ m • k)) (Z^[2 ^ m] (C (i + 2 ^ m • k))) := by
  induction m with
  | zero => simpa using h
  | succ m ih =>
    have hdouble := double hcancel (iterate_op hZ (2 ^ m)) ih
    simpa only [pow_succ, mul_two, add_nsmul, Function.iterate_add_apply] using hdouble

end SelfInverse
