import KnishIO.Storage.Records
import KnishIO.Storage.SecretStorageProvider

open ByteString

namespace KnishIO

/-- A call of either provider that writes records. -/
inductive StorageOp where
  | storeSecret (bundleHash secret : ByteString) (options : StorageOptions) (now : Int64)
  | recoverSecret (bundleHash recoveryPassphrase : ByteString) (options : StorageOptions) (now : Int64)
  | deleteSecret (bundleHash : ByteString)
  deriving DecidableEq, Repr

theorem exec_require {σ : Type} (c : Prop) [Decidable c] (e : Exception) (s : σ) :
    (Act.require c e : Act Exception σ PUnit).exec s = (if c then .ok ⟨⟩ else .error e, s) := by
  unfold Act.require
  split <;> rfl

namespace AesGcmSecretStorageProvider

variable (S : Setting)

/-- The records among the items of the backend. -/
def recordsOf (items : StdMap ByteString) : Records ByteString ByteString where
  primary bundle := items.find? (keyPrefix ++ bundle)
  recovery bundle := items.find? (recoveryKeyPrefix ++ bundle)

def State.records (s : State) : Records ByteString ByteString := recordsOf s.items

theorem recoveryKey_ne (b b' : ByteString) : recoveryKeyPrefix ++ b ≠ keyPrefix ++ b' := by
  intro h
  have hnth := congrArg (fun s : ByteString => s[8]?) h
  revert hnth
  rw [List.getElem?_append_left (by decide), List.getElem?_append_left (by decide)]
  decide

@[simp] theorem recordsOf_setPrimary (items : StdMap ByteString) (bundle text : ByteString) :
    recordsOf (items.set (keyPrefix ++ bundle) text) = (recordsOf items).setPrimary bundle (some text) := by
  ext1
  · funext b
    simp [recordsOf, StdMap.find?_set, List.append_cancel_left_eq]
  · funext b
    simp [recordsOf, StdMap.find?_set, recoveryKey_ne]

@[simp] theorem recordsOf_setRecovery (items : StdMap ByteString) (bundle text : ByteString) :
    recordsOf (items.set (recoveryKeyPrefix ++ bundle) text) = (recordsOf items).setRecovery bundle (some text) := by
  ext1
  · funext b
    simp [recordsOf, StdMap.find?_set, Ne.symm (recoveryKey_ne _ _)]
  · funext b
    simp [recordsOf, StdMap.find?_set, List.append_cancel_left_eq]

@[simp] theorem recordsOf_erasePrimary (items : StdMap ByteString) (bundle : ByteString) :
    recordsOf (items.erase (keyPrefix ++ bundle)) = (recordsOf items).setPrimary bundle none := by
  ext1
  · funext b
    simp [recordsOf, StdMap.find?_erase, List.append_cancel_left_eq]
  · funext b
    simp [recordsOf, StdMap.find?_erase, recoveryKey_ne]

@[simp] theorem recordsOf_eraseRecovery (items : StdMap ByteString) (bundle : ByteString) :
    recordsOf (items.erase (recoveryKeyPrefix ++ bundle)) = (recordsOf items).setRecovery bundle none := by
  ext1
  · funext b
    simp [recordsOf, StdMap.find?_erase, Ne.symm (recoveryKey_ne _ _)]
  · funext b
    simp [recordsOf, StdMap.find?_erase, List.append_cancel_left_eq]

/-- What the backend does with a value at one of its calls. -/
def attempt {α : Type} (call : Nat) (value : α) : Throws α :=
  match S.fails call with
  | some e => .error e
  | none => .ok value

theorem exec_mutateItems (f : StdMap ByteString → StdMap ByteString) (s : State) :
    (mutateItems S f).exec s =
      (attempt S s.calls (), ⟨if (S.fails s.calls).isSome then s.items else f s.items, s.calls + 1, s.randCalls⟩) := by
  simp only [mutateItems, Act.exec_bind, Act.exec_get, Act.andThen_ok, attempt]
  cases S.fails s.calls with
  | some e => rfl
  | none => rfl

/-- The primary record that `storeSecret` is about to keep. -/
def primaryRecord (s : State) (bundleHash secret : ByteString) (options : StorageOptions) (now : Int64) :
    Throws ByteString :=
  (checked S bundleHash secret options).bind fun _ =>
    (sealText S.crypto s.randCalls secret (passphrase S options) (metadata bundleHash options now)).bind
      (attempt S s.calls)

theorem primaryRecord_ok (s : State) {bundleHash secret text : ByteString} {options : StorageOptions} {now : Int64}
    (hchecked : checked S bundleHash secret options = .ok ())
    (htext : sealText S.crypto s.randCalls secret (passphrase S options) (metadata bundleHash options now) = .ok text)
    (hcall : S.fails s.calls = none) : primaryRecord S s bundleHash secret options now = .ok text := by
  rw [primaryRecord, hchecked, htext]
  simp only [Except.bind, attempt, hcall]

/-- The recovery record, where one was asked for. -/
def recoveryRecord (s : State) (bundleHash secret : ByteString) (options : StorageOptions) (now : Int64) :
    Option (Throws ByteString) :=
  options.recoveryPassphrase.map fun recoveryPassphrase =>
    if recoveryPassphrase = [] then .error (.secretStorage (ascii "Recovery passphrase cannot be empty"))
    else
      (sealText S.crypto (s.randCalls + 2) secret recoveryPassphrase (metadata bundleHash options now)).bind
        (attempt S (s.calls + 1))

/-- `storeSecret` stores the two records one after the other. -/
theorem storeSecret_refines (s : State) (bundleHash secret : ByteString) (options : StorageOptions) (now : Int64) :
    (((storeSecret S bundleHash secret options now).exec s).1, ((storeSecret S bundleHash secret options now).exec s).2.records) =
      s.records.store bundleHash (primaryRecord S s bundleHash secret options now)
        (recoveryRecord S s bundleHash secret options now) := by
  simp only [storeSecret, Act.exec_bind, Act.exec_ofExcept, primaryRecord]
  cases hchecked : checked S bundleHash secret options with
  | error e => rfl
  | ok _ =>
  simp only [Act.andThen_ok, Act.exec_bind, sealItem, Act.exec_get, Act.exec_set, Act.exec_ofExcept, Except.bind]
  cases htext : sealText S.crypto s.randCalls secret (passphrase S options) (metadata bundleHash options now) with
  | error e => rfl
  | ok text =>
    simp only [Act.andThen_ok, Act.exec_bind, setItem, exec_mutateItems, attempt]
    cases hfirst : S.fails s.calls with
    | some e => rfl
    | none =>
      simp only [Act.andThen_ok, Option.isSome_none, Bool.false_eq_true, ↓reduceIte]
      cases hrecovery : options.recoveryPassphrase with
      | none =>
        simp only [recoveryRecord, hrecovery, Option.map_none, Act.exec_pure, State.records, recordsOf_setPrimary, Records.store]
      | some recoveryPassphrase =>
        by_cases hempty : recoveryPassphrase = []
        · simp only [recoveryRecord, hrecovery, Option.map_some, hempty, ↓reduceIte, Act.exec_bind, exec_require, ne_eq,
            not_true_eq_false, Act.andThen_error, State.records, recordsOf_setPrimary, Records.store]
        simp only [recoveryRecord, hrecovery, Option.map_some, hempty, ↓reduceIte, Act.exec_bind, exec_require, ne_eq,
          not_false_eq_true, Act.andThen_ok, Act.exec_get, Act.exec_set, Act.exec_ofExcept]
        cases htext' : sealText S.crypto (s.randCalls + 2) secret recoveryPassphrase (metadata bundleHash options now) with
        | error e => simp [State.records, Records.store, Except.bind]
        | ok text' =>
          simp only [Act.andThen_ok, exec_mutateItems, Except.bind, attempt]
          cases hsecond : S.fails (s.calls + 1) with
          | some e => simp [State.records, Records.store]
          | none => simp [State.records, Records.store]

/-- `recoverSecret` stores what the recovery record holds. -/
theorem recoverSecret_refines (s : State) (bundleHash recoveryPassphrase : ByteString) (options : StorageOptions)
    (now : Int64) :
    (recoverSecret S bundleHash recoveryPassphrase options now).exec s =
      match recovered S s bundleHash recoveryPassphrase with
      | .error e => (.error e, s)
      | .ok secret => (storeSecret S bundleHash secret (storeOpts S options recoveryPassphrase) now).exec s := by
  simp only [recoverSecret, Act.exec_bind, Act.exec_get, Act.andThen_ok, Act.exec_ofExcept]
  cases recovered S s bundleHash recoveryPassphrase with
  | error e => rfl
  | ok secret => rfl

theorem deleteSecret_refines (s : State) (bundleHash : ByteString) :
    (((deleteSecret S bundleHash).exec s).1.map fun _ => (), ((deleteSecret S bundleHash).exec s).2.records) =
      s.records.delete bundleHash (attempt S s.calls ()) (attempt S (s.calls + 1) ()) := by
  simp only [deleteSecret, removeItem, Act.exec_bind, Act.exec_get, Act.andThen_ok, exec_mutateItems, attempt]
  cases hfirst : S.fails s.calls with
  | some e => rfl
  | none =>
    simp only [Act.andThen_ok, Act.exec_pure, Act.exec_bind, Act.exec_get, exec_mutateItems, attempt, Option.isSome_none,
      Bool.false_eq_true, ↓reduceIte]
    cases hsecond : S.fails (s.calls + 1) with
    | some e => simp [Except.map, Records.delete, State.records]
    | none => simp [Except.map, Records.delete, State.records]

end AesGcmSecretStorageProvider

namespace MemorySecretStorageProvider

variable (S : Setting)

def State.records (s : State) : Records Entry ByteString where
  primary bundle := s.store.find? bundle
  recovery bundle := s.recoveryStore.find? bundle

theorem records_set (s : State) (bundle : ByteString) (entry : Entry) (randCalls : Nat) :
    State.records ⟨s.store.set bundle entry, s.recoveryStore, randCalls⟩ = s.records.setPrimary bundle (some entry) := by
  ext1
  · funext b
    simp [State.records, StdMap.find?_set]
  · rfl

/-- The primary record that `storeSecret` is about to keep. -/
def primaryRecord (bundleHash secret : ByteString) (options : StorageOptions) (now : Int64) : Throws Entry :=
  (checked bundleHash secret).map fun _ => ⟨secret, metadata bundleHash options now⟩

/-- The recovery record, where one was asked for. -/
def recoveryRecord (s : State) (bundleHash secret : ByteString) (options : StorageOptions) (now : Int64) :
    Option (Throws ByteString) :=
  options.recoveryPassphrase.map fun recoveryPassphrase =>
    if recoveryPassphrase = [] then .error (.secretStorage (ascii "Recovery passphrase cannot be empty"))
    else sealText S.crypto s.randCalls secret recoveryPassphrase (recoveryMeta bundleHash options now)

theorem storeSecret_refines (s : State) (bundleHash secret : ByteString) (options : StorageOptions) (now : Int64) :
    (((storeSecret S bundleHash secret options now).exec s).1, ((storeSecret S bundleHash secret options now).exec s).2.records) =
      s.records.store bundleHash (primaryRecord bundleHash secret options now)
        (recoveryRecord S s bundleHash secret options now) := by
  simp only [storeSecret, Act.exec_bind, Act.exec_ofExcept, primaryRecord]
  cases hchecked : checked bundleHash secret with
  | error e => rfl
  | ok _ =>
  simp only [Act.andThen_ok, Act.exec_bind, Act.exec_modify, Except.map]
  cases hrecovery : options.recoveryPassphrase with
  | none => simp only [recoveryRecord, hrecovery, Option.map_none, Act.exec_pure, records_set, Records.store]
  | some recoveryPassphrase =>
    by_cases hempty : recoveryPassphrase = []
    · simp only [recoveryRecord, hrecovery, Option.map_some, hempty, ↓reduceIte, Act.exec_bind, exec_require, ne_eq,
        not_true_eq_false, Act.andThen_error, records_set, Records.store]
    simp only [recoveryRecord, hrecovery, Option.map_some, hempty, ↓reduceIte, Act.exec_bind, exec_require, ne_eq,
      not_false_eq_true, Act.andThen_ok, Act.exec_get, Act.exec_set, Act.exec_ofExcept]
    cases htext : sealText S.crypto s.randCalls secret recoveryPassphrase (recoveryMeta bundleHash options now) with
    | error e => simp only [Act.andThen_error, records_set, Records.store]
    | ok text =>
      simp only [Act.andThen_ok, Act.exec_modify, Records.store, ← records_set s bundleHash _ 0, Prod.mk.injEq, true_and]
      ext1
      · rfl
      · funext b
        simp [State.records, StdMap.find?_set]

theorem recoverSecret_refines (s : State) (bundleHash recoveryPassphrase : ByteString) (options : StorageOptions)
    (now : Int64) :
    (recoverSecret S bundleHash recoveryPassphrase options now).exec s =
      match recovered S s bundleHash recoveryPassphrase with
      | .error e => (.error e, s)
      | .ok secret =>
        (storeSecret S bundleHash secret { options with recoveryPassphrase := some recoveryPassphrase } now).exec s := by
  simp only [recoverSecret, Act.exec_bind, Act.exec_get, Act.andThen_ok, Act.exec_ofExcept]
  cases recovered S s bundleHash recoveryPassphrase with
  | error e => rfl
  | ok secret => rfl

theorem deleteSecret_refines (s : State) (bundleHash : ByteString) :
    (((deleteSecret bundleHash).exec s).1.map fun _ => (), ((deleteSecret bundleHash).exec s).2.records) =
      s.records.delete bundleHash (.ok ()) (.ok ()) := by
  simp only [deleteSecret, Act.exec_bind, Act.exec_get, Act.andThen_ok, Act.exec_set, Act.exec_pure, Except.map,
    Records.delete, Prod.mk.injEq, true_and]
  ext1
  · funext b
    simp [State.records, StdMap.find?_erase]
  · funext b
    simp [State.records, StdMap.find?_erase]

end MemorySecretStorageProvider

end KnishIO
