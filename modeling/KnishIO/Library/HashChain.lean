import Mathlib.Tactic

namespace HashChain

section Collisions

variable {α β : Type}

/-- Two distinct members of a list have the same image. -/
def Collides (f : α → β) (xs : List α) : Prop := ∃ x ∈ xs, ∃ y ∈ xs, x ≠ y ∧ f x = f y

theorem Collides.mono {f : α → β} {xs ys : List α} (hsub : xs ⊆ ys) (h : Collides f xs) : Collides f ys := by
  obtain ⟨x, hx, y, hy, hne, heq⟩ := h
  exact ⟨x, hsub hx, y, hsub hy, hne, heq⟩

/-- Equal images of two members are either equal members or a collision. -/
theorem eq_or_collides {f : α → β} {xs : List α} {x y : α} (hx : x ∈ xs) (hy : y ∈ xs) (heq : f x = f y) :
    x = y ∨ Collides f xs := by
  by_cases hne : x = y
  · exact .inl hne
  · exact .inr ⟨x, hx, y, hy, hne, heq⟩

/-- Collisions of a function followed by an injective one are collisions of the function. -/
theorem Collides.of_injective {γ : Type} {f : α → β} {g : β → γ} (hg : Function.Injective g) {xs : List α}
    (h : Collides (fun x => g (f x)) xs) : Collides f xs := by
  obtain ⟨x, hx, y, hy, hne, heq⟩ := h
  exact ⟨x, hx, y, hy, hne, hg heq⟩

end Collisions

variable {α : Type} (h : α → α)

/-- The values that a walk of `n` steps hashes. -/
def trace (n : Nat) (x : α) : List α := (List.range n).map fun j => h^[j] x

theorem mem_trace {n j : Nat} (x : α) (hj : j < n) : h^[j] x ∈ trace h n x :=
  List.mem_map.mpr ⟨j, List.mem_range.mpr hj, rfl⟩

/-- Two walks of the same length that end together started together, or collide on the way. -/
theorem eq_or_collides_of_iterate {n : Nat} {x y : α} {seen : List α} (hend : h^[n] x = h^[n] y)
    (hx : trace h n x ⊆ seen) (hy : trace h n y ⊆ seen) : x = y ∨ Collides h seen := by
  induction n with
  | zero => exact .inl hend
  | succ n ih =>
    rw [Function.iterate_succ_apply', Function.iterate_succ_apply'] at hend
    have hxmem := hx (mem_trace h x (Nat.lt_succ_self n))
    have hymem := hy (mem_trace h y (Nat.lt_succ_self n))
    rcases eq_or_collides hxmem hymem hend with heq | hcollides
    · have shorter (z : α) : trace h n z ⊆ trace h (n + 1) z := by
        intro w hw
        obtain ⟨j, hj, rfl⟩ := List.mem_map.mp hw
        exact mem_trace h z (by have := List.mem_range.mp hj; omega)
      exact ih heq (fun w hw => hx (shorter x hw)) fun w hw => hy (shorter y hw)
    · exact .inr hcollides

/-- Walking a chain on from one of its later points stays on its trace. -/
theorem trace_iterate_subset (m n : Nat) (x : α) : trace h n (h^[m] x) ⊆ trace h (m + n) x := by
  intro w hw
  obtain ⟨j, hj, rfl⟩ := List.mem_map.mp hw
  rw [← Function.iterate_add_apply]
  exact mem_trace h x (by have := List.mem_range.mp hj; omega)

/-- Every chain walked by its own count. -/
def advance (counts : List Nat) (values : List α) : List α :=
  List.zipWith (fun n x => h^[n] x) counts values

@[simp] theorem advance_nil (values : List α) : advance h [] values = [] := rfl

@[simp] theorem advance_cons (n : Nat) (counts : List Nat) (x : α) (values : List α) :
    advance h (n :: counts) (x :: values) = h^[n] x :: advance h counts values := rfl

@[simp] theorem length_advance (counts : List Nat) (values : List α) :
    (advance h counts values).length = min counts.length values.length := by
  simp [advance]

theorem getElem?_advance (counts : List Nat) (values : List α) (i : Nat) :
    (advance h counts values)[i]? = counts[i]?.bind fun n => values[i]?.map fun x => h^[n] x := by
  rw [advance, List.getElem?_zipWith]
  cases counts[i]? <;> cases values[i]? <;> rfl

/-- Signer and verifier together walk every chain to its end. -/
theorem advance_advance {full : Nat} {first second : List Nat} {values : List α}
    (hlen : values.length ≤ first.length) (hcounts : List.Forall₂ (fun a b => a + b = full) first second) :
    advance h second (advance h first values) = values.map h^[full] := by
  induction hcounts generalizing values with
  | nil =>
    have : values = [] := List.eq_nil_of_length_eq_zero (by simpa using hlen)
    simp [this, advance]
  | cons hab _ ih =>
    cases values with
    | nil => rfl
    | cons x values =>
      rw [advance_cons, advance_cons, ih (by simpa using hlen), List.map_cons, ← Function.iterate_add_apply,
        Nat.add_comm, hab]

section Digits

/-- Of two digit vectors with the same sum, neither dominates the other. -/
theorem exists_lt_of_sum_eq {xs ys : List Int} (hlen : xs.length = ys.length) (hsum : xs.sum = ys.sum)
    (hne : xs ≠ ys) : ∃ (i : Nat) (hx : i < xs.length) (hy : i < ys.length), xs[i] < ys[i] := by
  by_contra hnone
  push Not at hnone
  have hle : ∀ (xs ys : List Int), xs.length = ys.length →
      (∀ (i : Nat) (hx : i < xs.length) (hy : i < ys.length), ys[i] ≤ xs[i]) →
      ys.sum ≤ xs.sum ∧ (xs.sum = ys.sum → xs = ys) := by
    intro xs
    induction xs with
    | nil =>
      intro ys hlen _
      obtain rfl : ys = [] := List.eq_nil_of_length_eq_zero hlen.symm
      simp
    | cons x xs ih =>
      intro ys hlen hdom
      obtain ⟨y, ys, rfl⟩ := List.exists_cons_of_length_eq_add_one hlen.symm
      have hhead : y ≤ x := hdom 0 (by simp) (by simp)
      obtain ⟨hsum, heq⟩ := ih ys (by simpa using hlen) fun i hx hy =>
        hdom (i + 1) (by simpa using hx) (by simpa using hy)
      refine ⟨by simp only [List.sum_cons]; omega, fun htotal => ?_⟩
      simp only [List.sum_cons] at htotal
      obtain rfl : x = y := by omega
      rw [heq (by omega)]
  exact hne ((hle xs ys hlen hnone).2 hsum)

end Digits

end HashChain
