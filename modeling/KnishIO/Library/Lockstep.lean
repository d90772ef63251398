import KnishIO.Library.Act

namespace Act

variable {ε σ τ α β γ δ : Type}

/-- Both return, with related values, or both throw the same exception. -/
inductive SameOutcome (V : α → β → Prop) : Except ε α → Except ε β → Prop where
  | ok {a : α} {b : β} (h : V a b) : SameOutcome V (.ok a) (.ok b)
  | error (e : ε) : SameOutcome V (.error e) (.error e)

theorem SameOutcome.refl {r : Except ε α} : SameOutcome Eq r r := by
  cases r with
  | ok a => exact .ok rfl
  | error e => exact .error e

theorem SameOutcome.eq {r r' : Except ε α} (h : SameOutcome Eq r r') : r = r' := by
  cases h with
  | ok h => rw [h]
  | error e => rfl

/-- Two computations that go from related states to related states, with related outcomes. -/
def Lockstep (R : σ → τ → Prop) (V : α → β → Prop) (x : Act ε σ α) (y : Act ε τ β) : Prop :=
  ∀ s t, R s t → SameOutcome V (x.exec s).1 (y.exec t).1 ∧ R (x.exec s).2 (y.exec t).2

theorem lawfulMonad : LawfulMonad (Act ε σ) :=
  LawfulMonad.mk' (Act ε σ)
    (fun x => by
      funext s
      change andThen (x s) Pure.pure = x s
      rcases x s with ⟨_ | _, _⟩ <;> rfl)
    (fun _ _ => rfl) bind_assoc

section Rules

variable {R : σ → τ → Prop} {V : α → β → Prop}

theorem Lockstep.pure {a : α} {b : β} (h : V a b) : Lockstep R V (Pure.pure a : Act ε σ α) (Pure.pure b : Act ε τ β) :=
  fun _ _ hst => ⟨.ok h, hst⟩

theorem Lockstep.throw (e : ε) : Lockstep R V (throw e : Act ε σ α) (throw e : Act ε τ β) := fun _ _ hst => ⟨.error e, hst⟩

theorem Lockstep.get : Lockstep R R (get : Act ε σ σ) (get : Act ε τ τ) := fun _ _ hst => ⟨.ok hst, hst⟩

theorem Lockstep.set {s : σ} {t : τ} (h : R s t) : Lockstep R Eq (set s : Act ε σ PUnit) (set t : Act ε τ PUnit) :=
  fun _ _ _ => ⟨.ok rfl, h⟩

theorem Lockstep.modify {f : σ → σ} {g : τ → τ} (h : ∀ s t, R s t → R (f s) (g t)) :
    Lockstep R Eq (modify f : Act ε σ PUnit) (modify g : Act ε τ PUnit) := fun s t hst => ⟨.ok rfl, h s t hst⟩

theorem Lockstep.ofExcept {r : Except ε α} {r' : Except ε β} (h : SameOutcome V r r') :
    Lockstep R V (ofExcept r : Act ε σ α) (ofExcept r' : Act ε τ β) := fun _ _ hst => ⟨h, hst⟩

theorem Lockstep.bind {W : γ → δ → Prop} {x : Act ε σ α} {y : Act ε τ β} {f : α → Act ε σ γ} {g : β → Act ε τ δ}
    (hxy : Lockstep R V x y) (hfg : ∀ a b, V a b → Lockstep R W (f a) (g b)) : Lockstep R W (x >>= f) (y >>= g) := by
  intro s t hst
  obtain ⟨houtcome, hstates⟩ := hxy s t hst
  rw [exec_bind, exec_bind]
  rcases hx : x.exec s with ⟨r, s'⟩
  rcases hy : y.exec t with ⟨r', t'⟩
  rw [hx, hy] at houtcome hstates
  cases houtcome with
  | ok h => exact hfg _ _ h s' t' hstates
  | error e => exact ⟨.error e, hstates⟩

theorem Lockstep.bind_eq {W : γ → δ → Prop} {x : Act ε σ α} {y : Act ε τ α} {f : α → Act ε σ γ} {g : α → Act ε τ δ}
    (hxy : Lockstep R Eq x y) (hfg : ∀ a, Lockstep R W (f a) (g a)) : Lockstep R W (x >>= f) (y >>= g) :=
  hxy.bind fun a _ hab => hab ▸ hfg a

theorem Lockstep.require {c : Prop} [Decidable c] {e : ε} :
    Lockstep R Eq (require c e : Act ε σ PUnit) (Act.require c e : Act ε τ PUnit) := by
  unfold Act.require
  split
  · exact .pure rfl
  · exact .throw e

theorem Lockstep.tryCatch {x : Act ε σ α} {y : Act ε τ β} {handler : ε → Act ε σ α} {handler' : ε → Act ε τ β}
    (hxy : Lockstep R V x y) (hhandler : ∀ e, Lockstep R V (handler e) (handler' e)) :
    Lockstep R V (tryCatch x handler) (tryCatch y handler') := by
  intro s t hst
  obtain ⟨houtcome, hstates⟩ := hxy s t hst
  rw [exec_tryCatch, exec_tryCatch]
  rcases hx : x.exec s with ⟨r, s'⟩
  rcases hy : y.exec t with ⟨r', t'⟩
  rw [hx, hy] at houtcome hstates
  cases houtcome with
  | ok h => exact ⟨.ok h, hstates⟩
  | error e => exact hhandler e s' t' hstates

theorem Lockstep.mapM {xs : List γ} {f : γ → Act ε σ α} {g : γ → Act ε τ β} (h : ∀ c ∈ xs, Lockstep R V (f c) (g c)) :
    Lockstep R (List.Forall₂ V) (xs.mapM f) (xs.mapM g) := by
  have : LawfulMonad (Act ε σ) := lawfulMonad
  have : LawfulMonad (Act ε τ) := lawfulMonad
  induction xs with
  | nil => exact .pure .nil
  | cons c xs ih =>
    rw [List.mapM_cons, List.mapM_cons]
    refine .bind (h c List.mem_cons_self) fun a b hab => ?_
    exact .bind (ih fun c' hc' => h c' (List.mem_cons_of_mem c hc')) fun as bs habs => .pure (.cons hab habs)

end Rules

end Act
