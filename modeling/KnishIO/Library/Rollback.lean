import KnishIO.Library.Act

namespace Act

variable {ε σ α β : Type}

/-- Thrown exceptions leave a state of `R`; only those in `E` count. -/
def Restores (E : ε → Prop) (R : σ → Prop) (x : Act ε σ α) (s : σ) : Prop := ∀ e t, x.exec s = (.error e, t) → E e → R t

section Rules

variable {E : ε → Prop} {R : σ → Prop} {s : σ}

theorem restores_of_exec_ok {x : Act ε σ α} {a : α} {t : σ} (h : x.exec s = (.ok a, t)) : Restores E R x s := by
  intro e u hu
  cases h.symm.trans hu

theorem restores_iff_of_exec_error {x : Act ε σ α} {e : ε} {t : σ} (h : x.exec s = (.error e, t)) (he : E e) :
    Restores E R x s ↔ R t := by
  constructor
  · exact fun hrestores => hrestores e t h he
  · intro ht e' u hu _
    obtain ⟨-, rfl⟩ := Prod.mk.inj (h.symm.trans hu)
    exact ht

theorem restores_bind {x : Act ε σ α} {f : α → Act ε σ β} :
    Restores E R (x >>= f) s ↔ Restores E R x s ∧ ∀ a t, x.exec s = (.ok a, t) → Restores E R (f a) t := by
  unfold Restores
  rw [exec_bind]
  rcases hx : x.exec s with ⟨e | a, t⟩
  · simp
  · constructor
    · intro h
      refine ⟨by simp, fun a' t' ht => ?_⟩
      obtain ⟨ha, rfl⟩ := Prod.mk.inj ht
      obtain rfl := Except.ok.inj ha
      exact h
    · rintro ⟨-, h⟩
      exact h a t rfl

theorem restores_modify_bind {g : σ → σ} {f : PUnit → Act ε σ β} :
    Restores E R ((modify g : Act ε σ PUnit) >>= f) s ↔ Restores E R (f ⟨⟩) (g s) := Iff.rfl

theorem restores_ofExcept_bind {r : Except ε α} {f : α → Act ε σ β} :
    Restores E R (ofExcept r >>= f) s ↔ (∀ e, r = .error e → E e → R s) ∧ ∀ a, r = .ok a → Restores E R (f a) s := by
  rw [restores_bind]
  refine and_congr ?_ ?_
  · constructor
    · exact fun h e he => h e s (Prod.ext he rfl)
    · intro h e t ht
      obtain ⟨he, rfl⟩ := Prod.mk.inj ht
      exact h e he
  · constructor
    · exact fun h a ha => h a s (Prod.ext ha rfl)
    · intro h a t ht
      obtain ⟨ha, rfl⟩ := Prod.mk.inj ht
      exact h a ha

theorem restores_ok_bind {a : α} {f : α → Act ε σ β} :
    Restores E R (ofExcept (.ok a) >>= f) s ↔ Restores E R (f a) s := Iff.rfl

/-- A step that may throw: it succeeds or finds the state in order, and after a success the rest counts. -/
theorem restores_step {r : Except ε α} {f : α → Act ε σ β} {P : Prop} (hthrows : ∀ e, r = .error e → E e)
    (hrest : ∀ a, r = .ok a → (Restores E R (f a) s ↔ P)) :
    Restores E R (ofExcept r >>= f) s ↔ ((∃ a, r = .ok a) ∨ R s) ∧ ((∃ a, r = .ok a) → P) := by
  rw [restores_ofExcept_bind]
  cases r with
  | error e => simp [hthrows e rfl]
  | ok a => simp [hrest a rfl]

/-- The same where the state is not in order: the step must succeed. -/
theorem restores_step_of_not {r : Except ε α} {f : α → Act ε σ β} (hs : ¬ R s) (hthrows : ∀ e, r = .error e → E e) :
    Restores E R (ofExcept r >>= f) s ↔ ∃ a, r = .ok a ∧ Restores E R (f a) s := by
  rw [restores_ofExcept_bind]
  cases r with
  | error e => simp [hthrows e rfl, hs]
  | ok a => simp

end Rules

end Act
