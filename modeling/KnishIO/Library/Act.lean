import Mathlib.Tactic

/-- Computations that update a state and may throw. What was written before an exception stays written. -/
def Act (ε σ α : Type) : Type := σ → Except ε α × σ

namespace Act

variable {ε σ α β : Type}

/-- Runs the computation, giving its outcome and the state it leaves. -/
def exec (x : Act ε σ α) (s : σ) : Except ε α × σ := x s

def andThen (r : Except ε α × σ) (f : α → Act ε σ β) : Except ε β × σ :=
  match r with
  | (.ok a, s) => f a s
  | (.error e, s) => (.error e, s)

instance : Monad (Act ε σ) where
  pure a := fun s => (.ok a, s)
  bind x f := fun s => andThen (x s) f

instance : MonadStateOf σ (Act ε σ) where
  get := fun s => (.ok s, s)
  set s := fun _ => (.ok ⟨⟩, s)
  modifyGet f := fun s => (.ok (f s).1, (f s).2)

instance : MonadExceptOf ε (Act ε σ) where
  throw e := fun s => (.error e, s)
  tryCatch x handler := fun s =>
    match x s with
    | (.ok a, t) => (.ok a, t)
    | (.error e, t) => handler e t

/-- A result that needs no state. -/
def ofExcept (r : Except ε α) : Act ε σ α := fun s => (r, s)

/-- The outcome on a value of its own, which an exception drops. -/
def run (x : Act ε σ α) (s : σ) : Except ε (α × σ) :=
  match x.exec s with
  | (.ok a, t) => .ok (a, t)
  | (.error e, _) => .error e

/-- Throws unless a condition holds. -/
def require (c : Prop) [Decidable c] (e : ε) : Act ε σ PUnit := if c then pure ⟨⟩ else throw e

section Exec

@[simp] theorem andThen_ok (a : α) (s : σ) (f : α → Act ε σ β) : andThen (.ok a, s) f = (f a).exec s := rfl

@[simp] theorem andThen_error (e : ε) (s : σ) (f : α → Act ε σ β) : andThen (.error e, s) f = (.error e, s) := rfl

@[simp] theorem exec_pure (a : α) (s : σ) : (pure a : Act ε σ α).exec s = (.ok a, s) := rfl

@[simp] theorem exec_bind (x : Act ε σ α) (f : α → Act ε σ β) (s : σ) :
    (x >>= f).exec s = andThen (x.exec s) f := rfl

@[simp] theorem exec_get (s : σ) : (get : Act ε σ σ).exec s = (.ok s, s) := rfl

@[simp] theorem exec_set (t s : σ) : (set t : Act ε σ PUnit).exec s = (.ok ⟨⟩, t) := rfl

@[simp] theorem exec_modify (f : σ → σ) (s : σ) : (modify f : Act ε σ PUnit).exec s = (.ok ⟨⟩, f s) := rfl

@[simp] theorem exec_throw (e : ε) (s : σ) : (throw e : Act ε σ α).exec s = (.error e, s) := rfl

@[simp] theorem exec_ofExcept (r : Except ε α) (s : σ) : (ofExcept r : Act ε σ α).exec s = (r, s) := rfl

theorem exec_tryCatch (x : Act ε σ α) (handler : ε → Act ε σ α) (s : σ) :
    (tryCatch x handler).exec s =
      match x.exec s with
      | (.ok a, t) => (.ok a, t)
      | (.error e, t) => (handler e).exec t := rfl

theorem bind_assoc {γ : Type} (x : Act ε σ α) (f : α → Act ε σ β) (g : β → Act ε σ γ) :
    x >>= f >>= g = x >>= fun a => f a >>= g := by
  funext s
  change andThen (andThen (x s) f) g = andThen (x s) fun a => f a >>= g
  rcases x s with ⟨_ | a, t⟩ <;> rfl

theorem run_eq_ok {x : Act ε σ α} {s t : σ} {a : α} : x.run s = .ok (a, t) ↔ x.exec s = (.ok a, t) := by
  unfold run
  rcases x.exec s with ⟨_ | b, u⟩ <;> simp [Prod.ext_iff]

section Run

theorem run_pure (a : α) (s : σ) : (pure a : Act ε σ α).run s = .ok (a, s) := rfl

theorem run_bind (x : Act ε σ α) (f : α → Act ε σ β) (s : σ) :
    (x >>= f).run s = x.run s >>= fun r => (f r.1).run r.2 := by
  unfold run
  rw [exec_bind]
  rcases x.exec s with ⟨_ | a, t⟩ <;> rfl

theorem run_ofExcept_bind (r : Except ε α) (f : α → Act ε σ β) (s : σ) :
    (ofExcept r >>= f).run s = r >>= fun a => (f a).run s := by
  cases r <;> rfl

theorem run_modify_bind (g : σ → σ) (f : PUnit → Act ε σ β) (s : σ) :
    ((modify g : Act ε σ PUnit) >>= f).run s = (f ⟨⟩).run (g s) := rfl

theorem bind_eq_ok {x : Act ε σ α} {f : α → Act ε σ β} {s u : σ} {b : β} :
    (x >>= f).exec s = (.ok b, u) ↔ ∃ a t, x.exec s = (.ok a, t) ∧ (f a).exec t = (.ok b, u) := by
  rw [exec_bind]
  rcases x.exec s with ⟨_ | a, t⟩ <;> simp

end Run

end Exec

section Triples

/-- From a state in `P` the computation returns in `Q` or throws in `E`. -/
def Triple (P : σ → Prop) (x : Act ε σ α) (Q : α → σ → Prop) (E : ε → σ → Prop) : Prop :=
  ∀ s, P s → match x.exec s with
    | (.ok a, t) => Q a t
    | (.error e, t) => E e t

variable {P : σ → Prop} {Q : α → σ → Prop} {E : ε → σ → Prop}

theorem Triple.ok {x : Act ε σ α} (h : Triple P x Q E) {s t : σ} {a : α} (hs : P s) (hx : x.exec s = (.ok a, t)) :
    Q a t := by
  have := h s hs
  rwa [hx] at this

theorem Triple.error {x : Act ε σ α} (h : Triple P x Q E) {s t : σ} {e : ε} (hs : P s)
    (hx : x.exec s = (.error e, t)) : E e t := by
  have := h s hs
  rwa [hx] at this

theorem Triple.pure {a : α} (h : ∀ s, P s → Q a s) : Triple P (Pure.pure a : Act ε σ α) Q E := h

theorem Triple.throw {e : ε} (h : ∀ s, P s → E e s) : Triple P (throw e : Act ε σ α) Q E := h

theorem Triple.modify {f : σ → σ} {Q : PUnit → σ → Prop} (h : ∀ s, P s → Q ⟨⟩ (f s)) :
    Triple P (modify f : Act ε σ PUnit) Q E := h

theorem Triple.get {Q : σ → σ → Prop} (h : ∀ s, P s → Q s s) : Triple P (get : Act ε σ σ) Q E := h

theorem Triple.ofExcept {r : Except ε α} (hok : ∀ a s, r = .ok a → P s → Q a s)
    (herror : ∀ e s, r = .error e → P s → E e s) : Triple P (ofExcept r : Act ε σ α) Q E := by
  intro s hs
  cases hr : r with
  | ok a => exact hok a s hr hs
  | error e => exact herror e s hr hs

/-- Sequencing: what the first part establishes is what the second one starts from. -/
theorem Triple.bind {x : Act ε σ α} {f : α → Act ε σ β} {R : α → σ → Prop} {Q : β → σ → Prop} (hx : Triple P x R E)
    (hf : ∀ a, Triple (R a) (f a) Q E) : Triple P (x >>= f) Q E := by
  intro s hs
  have hfirst := hx s hs
  rw [exec_bind]
  rcases hexec : x.exec s with ⟨r, t⟩
  rw [hexec] at hfirst
  cases r with
  | ok a => exact hf a t hfirst
  | error e => exact hfirst

theorem Triple.tryCatch {x : Act ε σ α} {handler : ε → Act ε σ α} {R : ε → σ → Prop} (hx : Triple P x Q R)
    (hhandler : ∀ e, Triple (R e) (handler e) Q E) : Triple P (tryCatch x handler) Q E := by
  intro s hs
  have hfirst := hx s hs
  rw [exec_tryCatch]
  rcases hexec : x.exec s with ⟨r, t⟩
  rw [hexec] at hfirst
  cases r with
  | ok a => exact hfirst
  | error e => exact hhandler e t hfirst

end Triples

section Exceptions

/-- Every exception of a result is in `E`. -/
def Errs (E : ε → Prop) (r : Except ε α) : Prop := ∀ e, r = .error e → E e

variable {E : ε → Prop}

theorem Errs.ok (a : α) : Errs E (.ok a : Except ε α) := fun _ h => nomatch h

theorem Errs.error {e : ε} (h : E e) : Errs E (.error e : Except ε α) := by
  intro e' he
  obtain rfl := Except.error.inj he
  exact h

theorem Errs.map {r : Except ε α} (h : Errs E r) (f : α → β) : Errs E (r.map f) := by
  cases r with
  | ok a => exact .ok _
  | error e => exact .error (h e rfl)

theorem Errs.mapError {ε' : Type} {F : ε' → Prop} {r : Except ε α} {f : ε → ε'} (h : Errs E r) (hf : ∀ e, E e → F (f e)) :
    Errs F (r.mapError f) := by
  cases r with
  | ok a => exact .ok a
  | error e => exact .error (hf e (h e rfl))

theorem Errs.bind_of_ok {r : Except ε α} {f : α → Except ε β} (h : Errs E r) (hf : ∀ a, r = .ok a → Errs E (f a)) :
    Errs E (r >>= f) := by
  cases r with
  | ok a => exact hf a rfl
  | error e => exact .error (h e rfl)

theorem Errs.bind {r : Except ε α} {f : α → Except ε β} (h : Errs E r) (hf : ∀ a, Errs E (f a)) : Errs E (r >>= f) :=
  h.bind_of_ok fun a _ => hf a

/-- Every exception of the computation is in `E`. -/
def Raises (E : ε → Prop) (x : Act ε σ α) : Prop := ∀ s, Errs E (x.exec s).1

theorem Raises.pure (a : α) : Raises E (Pure.pure a : Act ε σ α) := fun _ => .ok a

theorem Raises.throw {e : ε} (h : E e) : Raises E (throw e : Act ε σ α) := fun _ => .error h

theorem Raises.get : Raises E (get : Act ε σ σ) := fun s => .ok s

theorem Raises.modify (f : σ → σ) : Raises E (modify f : Act ε σ PUnit) := fun _ => .ok _

theorem Raises.set (s : σ) : Raises E (set s : Act ε σ PUnit) := fun _ => .ok _

theorem Raises.ofExcept {r : Except ε α} (h : Errs E r) : Raises E (ofExcept r : Act ε σ α) := fun _ => h

theorem Raises.require {c : Prop} [Decidable c] {e : ε} (h : E e) : Raises E (require c e : Act ε σ PUnit) := by
  unfold Act.require
  split
  · exact .pure _
  · exact .throw h

theorem Raises.bind {x : Act ε σ α} {f : α → Act ε σ β} (hx : Raises E x) (hf : ∀ a, Raises E (f a)) :
    Raises E (x >>= f) := by
  intro s
  have hfirst := hx s
  rw [exec_bind]
  rcases hexec : x.exec s with ⟨r, t⟩
  rw [hexec] at hfirst
  cases r with
  | ok a => exact hf a t
  | error e => exact .error (hfirst e rfl)

theorem Raises.tryCatch {x : Act ε σ α} {handler : ε → Act ε σ α} (hhandler : ∀ e, Raises E (handler e)) :
    Raises E (tryCatch x handler) := by
  intro s
  rw [exec_tryCatch]
  rcases hexec : x.exec s with ⟨_ | a, t⟩
  · exact hhandler _ t
  · exact .ok a

theorem Raises.run {x : Act ε σ α} (h : Raises E x) (s : σ) : Errs E (x.run s) := by
  have hexec := h s
  unfold Act.run
  split
  next => exact .ok _
  next hx =>
    rw [hx] at hexec
    exact .error (hexec _ rfl)

end Exceptions

section Steps

/-- Whatever the outcome, the state afterwards is related to the state before. -/
def Moves (R : σ → σ → Prop) (x : Act ε σ α) : Prop := ∀ s, R s (x.exec s).2

variable {R : σ → σ → Prop} [IsPreorder σ R]

theorem Moves.pure (a : α) : Moves R (Pure.pure a : Act ε σ α) := fun s => refl_of R s

theorem Moves.throw (e : ε) : Moves R (throw e : Act ε σ α) := fun s => refl_of R s

theorem Moves.get : Moves R (get : Act ε σ σ) := fun s => refl_of R s

theorem Moves.ofExcept (r : Except ε α) : Moves R (ofExcept r : Act ε σ α) := fun s => refl_of R s

theorem Moves.bind {x : Act ε σ α} {f : α → Act ε σ β} (hx : Moves R x) (hf : ∀ a, Moves R (f a)) :
    Moves R (x >>= f) := by
  intro s
  have hfirst := hx s
  rw [exec_bind]
  rcases hexec : x.exec s with ⟨r, t⟩
  rw [hexec] at hfirst
  cases r with
  | ok a => exact trans_of R hfirst (hf a t)
  | error e => exact hfirst

theorem Moves.tryCatch {x : Act ε σ α} {handler : ε → Act ε σ α} (hx : Moves R x)
    (hhandler : ∀ e, Moves R (handler e)) : Moves R (tryCatch x handler) := by
  intro s
  have hfirst := hx s
  rw [exec_tryCatch]
  rcases hexec : x.exec s with ⟨r, t⟩
  rw [hexec] at hfirst
  cases r with
  | ok a => exact hfirst
  | error e => exact trans_of R hfirst (hhandler e t)

end Steps

end Act
