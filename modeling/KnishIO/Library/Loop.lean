import Mathlib.Tactic

namespace Loop

variable {σ ι β : Type}

/-- What no step changes, the loop does not change. -/
theorem foldl_unchanged {step : σ → ι → σ} (read : σ → β) (hstep : ∀ s i, read (step s i) = read s) (places : List ι) (s : σ) :
    read (places.foldl step s) = read s := by
  induction places generalizing s with
  | nil => rfl
  | cons i places ih => rw [List.foldl_cons, ih, hstep]

/-- A loop that visits no place twice, and at each changes what is read there and nowhere else. -/
theorem foldl_once [DecidableEq ι] {step : σ → ι → σ} (read : σ → ι → β) (change : ι → β → β)
    (hhere : ∀ s i, read (step s i) i = change i (read s i)) (helsewhere : ∀ s i j, j ≠ i → read (step s i) j = read s j)
    {places : List ι} (hplaces : places.Nodup) (s : σ) (j : ι) :
    read (places.foldl step s) j = if j ∈ places then change j (read s j) else read s j := by
  induction places generalizing s with
  | nil => rfl
  | cons i places ih =>
    obtain ⟨hnew, hplaces⟩ := List.nodup_cons.mp hplaces
    rw [List.foldl_cons, ih hplaces]
    by_cases hji : j = i
    · subst hji
      rw [if_neg hnew, if_pos List.mem_cons_self, hhere]
    · rw [helsewhere s i j hji]
      simp only [List.mem_cons, hji, false_or]

end Loop
