import KnishIO.Exception

open ByteString

namespace KnishIO

/-- The two records of every bundle. -/
@[ext] structure Records (P R : Type) where
  primary : ByteString → Option P
  recovery : ByteString → Option R

namespace Records

variable {P R : Type}

def setPrimary (r : Records P R) (bundle : ByteString) (record : Option P) : Records P R :=
  { r with primary := Function.update r.primary bundle record }

def setRecovery (r : Records P R) (bundle : ByteString) (record : Option R) : Records P R :=
  { r with recovery := Function.update r.recovery bundle record }

@[simp] theorem setPrimary_primary (r : Records P R) (bundle b : ByteString) (record : Option P) :
    (r.setPrimary bundle record).primary b = if b = bundle then record else r.primary b := Function.update_apply _ _ _ _

@[simp] theorem setPrimary_recovery (r : Records P R) (bundle : ByteString) (record : Option P) :
    (r.setPrimary bundle record).recovery = r.recovery := rfl

@[simp] theorem setRecovery_recovery (r : Records P R) (bundle b : ByteString) (record : Option R) :
    (r.setRecovery bundle record).recovery b = if b = bundle then record else r.recovery b :=
  Function.update_apply _ _ _ _

@[simp] theorem setRecovery_primary (r : Records P R) (bundle : ByteString) (record : Option R) :
    (r.setRecovery bundle record).primary = r.primary := rfl

/-- Storing: the primary record goes first, and what is wrong with the recovery record is found out afterwards. -/
def store (r : Records P R) (bundle : ByteString) (first : Throws P) (second : Option (Throws R)) :
    Throws Unit × Records P R :=
  match first, second with
  | .error e, _ => (.error e, r)
  | .ok record, none => (.ok (), r.setPrimary bundle (some record))
  | .ok record, some (.error e) => (.error e, r.setPrimary bundle (some record))
  | .ok record, some (.ok recoveryRecord) =>
    (.ok (), (r.setPrimary bundle (some record)).setRecovery bundle (some recoveryRecord))

/-- A store that returns has written its primary record. -/
theorem store_ok {r : Records P R} {bundle : ByteString} {first : Throws P} {second : Option (Throws R)}
    (h : (r.store bundle first second).1 = .ok ()) :
    ∃ record, first = .ok record ∧ (r.store bundle first second).2.primary bundle = some record := by
  match first, second with
  | .error e, _ => cases h
  | .ok record, none => exact ⟨record, rfl, by simp [store]⟩
  | .ok record, some (.error e) => cases h
  | .ok record, some (.ok recoveryRecord) => exact ⟨record, rfl, by simp [store]⟩

/-- Deleting: two removals, each of which may throw. -/
def delete (r : Records P R) (bundle : ByteString) (first second : Throws Unit) : Throws Unit × Records P R :=
  match first, second with
  | .error e, _ => (.error e, r)
  | .ok _, .error e => (.error e, r.setPrimary bundle none)
  | .ok _, .ok _ => (.ok (), (r.setPrimary bundle none).setRecovery bundle none)

/-- A call that throws leaves every record as it was. -/
def Atomic {α : Type} (before : Records P R) (outcome : Throws α × Records P R) : Prop :=
  ∀ e after, outcome = (.error e, after) → after = before

theorem setPrimary_eq_self {r : Records P R} {bundle : ByteString} {record : Option P} :
    r.setPrimary bundle record = r ↔ r.primary bundle = record := by
  constructor
  · intro h
    rw [← h]
    exact Function.update_self _ _ _
  · rintro rfl
    rw [setPrimary, Function.update_eq_self]

section Atomicity

/-- Storing is all or nothing unless the primary record changes and the recovery record then fails. -/
theorem atomic_store_iff (r : Records P R) (bundle : ByteString) (first : Throws P) (second : Option (Throws R)) :
    Atomic r (r.store bundle first second) ↔
      ¬ ∃ record e, first = .ok record ∧ second = some (.error e) ∧ r.primary bundle ≠ some record := by
  match first, second with
  | .error e, _ =>
    refine iff_of_true (fun e' after h => ?_) (by simp)
    exact (Prod.mk.inj h).2.symm
  | .ok record, none => exact iff_of_true (fun e' after h => by cases h) (by simp)
  | .ok record, some (.ok recoveryRecord) => exact iff_of_true (fun e' after h => by cases h) (by simp)
  | .ok record, some (.error e) =>
    have hatomic : Atomic r (r.store bundle (.ok record) (some (.error e))) ↔ r.setPrimary bundle (some record) = r := by
      constructor
      · intro h
        exact h e _ rfl
      · rintro h e' after hafter
        exact (Prod.mk.inj hafter).2.symm.trans h
    rw [hatomic, setPrimary_eq_self]
    simp

/-- Deleting is all or nothing unless a primary record is removed and the second removal throws. -/
theorem atomic_delete_iff (r : Records P R) (bundle : ByteString) (first second : Throws Unit) :
    Atomic r (r.delete bundle first second) ↔
      ¬ ((∃ a, first = .ok a) ∧ (∃ e, second = .error e) ∧ r.primary bundle ≠ none) := by
  match first, second with
  | .error e, _ =>
    refine iff_of_true (fun e' after h => ?_) (by simp)
    exact (Prod.mk.inj h).2.symm
  | .ok _, .ok _ => exact iff_of_true (fun e' after h => by cases h) (by simp)
  | .ok _, .error e =>
    have hatomic : Atomic r (r.delete bundle (.ok ()) (.error e)) ↔ r.setPrimary bundle none = r := by
      constructor
      · intro h
        exact h e _ rfl
      · rintro h e' after hafter
        exact (Prod.mk.inj hafter).2.symm.trans h
    rw [hatomic, setPrimary_eq_self]
    simp

end Atomicity

section Recovery

/-- Every recovery record holds the secret that was last stored for its bundle. -/
def Faithful (holds : R → ByteString → Prop) (r : Records P R) (last : ByteString → Option ByteString) : Prop :=
  ∀ bundle record, r.recovery bundle = some record → ∃ secret, last bundle = some secret ∧ holds record secret

variable {holds : R → ByteString → Prop} {r after : Records P R} {last : ByteString → Option ByteString}
  {bundle secret : ByteString}

/-- What was last stored, after a call that was to store a secret. -/
def stored (last : ByteString → Option ByteString) (bundle secret : ByteString) (result : Throws Unit) :
    ByteString → Option ByteString :=
  match result with
  | .ok _ => Function.update last bundle (some secret)
  | .error _ => last

theorem faithful_store (h : r.Faithful holds last) {first : Throws P} {second : Option (Throws R)}
    (hsecond : ∀ record, second = some (.ok record) → holds record secret)
    (hstale : second = none → r.recovery bundle = none ∨ last bundle = some secret) :
    (r.store bundle first second).2.Faithful holds (stored last bundle secret (r.store bundle first second).1) := by
  match first, second with
  | .error e, _ => exact h
  | .ok record, none =>
    intro b recoveryRecord hb
    obtain ⟨held, hlast, hholds⟩ := h b recoveryRecord hb
    by_cases hbundle : b = bundle
    · subst hbundle
      obtain hnone | hsame := hstale rfl
      · cases hnone.symm.trans hb
      · obtain rfl := Option.some.inj (hlast.symm.trans hsame)
        exact ⟨held, Function.update_self _ _ _, hholds⟩
    · exact ⟨held, (Function.update_of_ne hbundle _ _).trans hlast, hholds⟩
  | .ok record, some (.error e) => exact h
  | .ok record, some (.ok recoveryRecord) =>
    intro b found hb
    simp only [store, setRecovery_recovery, setPrimary_recovery] at hb
    split at hb
    next hbundle =>
      subst hbundle
      obtain rfl := Option.some.inj hb
      exact ⟨secret, Function.update_self _ _ _, hsecond _ rfl⟩
    next hbundle =>
      obtain ⟨held, hlast, hholds⟩ := h b found hb
      exact ⟨held, (Function.update_of_ne hbundle _ _).trans hlast, hholds⟩

/-- Storing again what was last stored changes nothing about it. -/
theorem stored_eq_self (hlast : last bundle = some secret) (result : Throws Unit) :
    stored last bundle secret result = last := by
  cases result with
  | error e => rfl
  | ok a => rw [stored, ← hlast, Function.update_eq_self]

theorem faithful_delete (h : r.Faithful holds last) :
    (r.delete bundle (.ok ()) (.ok ())).2.Faithful holds (Function.update last bundle none) := by
  intro b record hb
  simp only [delete, setRecovery_recovery, setPrimary_recovery] at hb
  split at hb
  next hbundle => cases hb
  next hbundle =>
    obtain ⟨held, hlast, hholds⟩ := h b record hb
    exact ⟨held, (Function.update_of_ne hbundle _ _).trans hlast, hholds⟩

end Recovery

end Records

end KnishIO
