import KnishIO.Storage.Refinement
import KnishIO.Storage.Sealing

open ByteString

namespace KnishIO

/-- A provider as its callers see it, with the records that each of its calls reads and is about to write. -/
structure SecretStorageProvider (σ P : Type) where
  records : σ → Records P ByteString
  storeSecret : ByteString → ByteString → StorageOptions → Int64 → Act Exception σ Unit
  recoverSecret : ByteString → ByteString → StorageOptions → Int64 → Act Exception σ Unit
  deleteSecret : ByteString → Act Exception σ Bool
  retrieveSecret : σ → ByteString → StorageOptions → Throws (Option ByteString)
  primaryRecord : σ → ByteString → ByteString → StorageOptions → Int64 → Throws P
  recoveryRecord : σ → ByteString → ByteString → StorageOptions → Int64 → Option (Throws ByteString)
  recovered : σ → ByteString → ByteString → Throws ByteString
  storeOpts : StorageOptions → ByteString → StorageOptions
  removals : σ → Throws Unit × Throws Unit
  store_refines : ∀ s bundleHash secret options now,
    (((storeSecret bundleHash secret options now).exec s).1,
        records ((storeSecret bundleHash secret options now).exec s).2) =
      (records s).store bundleHash (primaryRecord s bundleHash secret options now)
        (recoveryRecord s bundleHash secret options now)
  recover_refines : ∀ s bundleHash recoveryPassphrase options now,
    (recoverSecret bundleHash recoveryPassphrase options now).exec s =
      match recovered s bundleHash recoveryPassphrase with
      | .error e => (.error e, s)
      | .ok secret => (storeSecret bundleHash secret (storeOpts options recoveryPassphrase) now).exec s
  delete_refines : ∀ s bundleHash,
    (((deleteSecret bundleHash).exec s).1.map (fun _ => ()), records ((deleteSecret bundleHash).exec s).2) =
      (records s).delete bundleHash (removals s).1 (removals s).2

def AesGcmSecretStorageProvider.provider (S : Setting) : SecretStorageProvider State ByteString where
  records := State.records
  storeSecret := storeSecret S
  recoverSecret := recoverSecret S
  deleteSecret := deleteSecret S
  retrieveSecret := retrieveSecret S
  primaryRecord := primaryRecord S
  recoveryRecord := recoveryRecord S
  recovered := recovered S
  storeOpts := storeOpts S
  removals s := (attempt S s.calls (), attempt S (s.calls + 1) ())
  store_refines := storeSecret_refines S
  recover_refines := recoverSecret_refines S
  delete_refines := deleteSecret_refines S

def MemorySecretStorageProvider.provider (S : Setting) : SecretStorageProvider State Entry where
  records := State.records
  storeSecret := storeSecret S
  recoverSecret := recoverSecret S
  deleteSecret := deleteSecret
  retrieveSecret := retrieveSecret
  primaryRecord _ := primaryRecord
  recoveryRecord := recoveryRecord S
  recovered := recovered S
  storeOpts options recoveryPassphrase := { options with recoveryPassphrase := some recoveryPassphrase }
  removals _ := (.ok (), .ok ())
  store_refines := storeSecret_refines S
  recover_refines := recoverSecret_refines S
  delete_refines := deleteSecret_refines

namespace SecretStorageProvider

variable {σ P : Type} (p : SecretStorageProvider σ P) (s : σ)

def perform : StorageOp → Act Exception σ Unit
  | .storeSecret bundleHash secret options now => p.storeSecret bundleHash secret options now
  | .recoverSecret bundleHash recoveryPassphrase options now => p.recoverSecret bundleHash recoveryPassphrase options now
  | .deleteSecret bundleHash => do let _removed ← p.deleteSecret bundleHash

/-- The primary record is written and changes, and the recovery record then fails. -/
def StoreHalts (bundleHash secret : ByteString) (options : StorageOptions) (now : Int64) : Prop :=
  ∃ record e, p.primaryRecord s bundleHash secret options now = .ok record ∧
    p.recoveryRecord s bundleHash secret options now = some (.error e) ∧ (p.records s).primary bundleHash ≠ some record

/-- The second step of a call throws after the first one changed a record. -/
def Halts : StorageOp → Prop
  | .storeSecret bundleHash secret options now => p.StoreHalts s bundleHash secret options now
  | .recoverSecret bundleHash recoveryPassphrase options now =>
    ∃ secret, p.recovered s bundleHash recoveryPassphrase = .ok secret ∧
      p.StoreHalts s bundleHash secret (p.storeOpts options recoveryPassphrase) now
  | .deleteSecret bundleHash =>
    (∃ a, (p.removals s).1 = .ok a) ∧ (∃ e, (p.removals s).2 = .error e) ∧ (p.records s).primary bundleHash ≠ none

/-- A call that throws leaves every record as it was. -/
def Unchanged {α : Type} (outcome : Throws α × σ) : Prop :=
  ∀ e t, outcome = (.error e, t) → p.records t = p.records s

theorem unchanged_iff {α : Type} (outcome : Throws α × σ) :
    p.Unchanged s outcome ↔ (p.records s).Atomic (outcome.1, p.records outcome.2) := by
  obtain ⟨r, t⟩ := outcome
  constructor
  · intro h e after hafter
    obtain ⟨hr, hrecords⟩ := Prod.mk.inj hafter
    exact hrecords.symm.trans (h e t (Prod.ext hr rfl))
  · intro h e t' ht
    obtain ⟨hr, rfl⟩ := Prod.mk.inj ht
    exact h e (p.records t) (Prod.ext hr rfl)

theorem storeSecret_unchanged_iff (bundleHash secret : ByteString) (options : StorageOptions) (now : Int64) :
    p.Unchanged s ((p.storeSecret bundleHash secret options now).exec s) ↔
      ¬ p.StoreHalts s bundleHash secret options now := by
  rw [unchanged_iff, p.store_refines, Records.atomic_store_iff]
  rfl

/-- Every call is all or nothing unless its second step throws after the first one changed a record. -/
theorem perform_unchanged_iff (op : StorageOp) : p.Unchanged s ((p.perform op).exec s) ↔ ¬ p.Halts s op := by
  cases op with
  | storeSecret bundleHash secret options now => exact p.storeSecret_unchanged_iff s bundleHash secret options now
  | recoverSecret bundleHash recoveryPassphrase options now =>
    rw [perform, p.recover_refines, Halts]
    cases p.recovered s bundleHash recoveryPassphrase with
    | error e =>
      refine iff_of_true (fun e' t h => ?_) (by simp)
      rw [← (Prod.mk.inj h).2]
    | ok secret =>
      refine (p.storeSecret_unchanged_iff s bundleHash secret (p.storeOpts options recoveryPassphrase) now).trans ?_
      simp
  | deleteSecret bundleHash =>
    have hperform : (p.perform (.deleteSecret bundleHash)).exec s =
        (((p.deleteSecret bundleHash).exec s).1.map (fun _ => ()), ((p.deleteSecret bundleHash).exec s).2) := by
      rw [perform, Act.exec_bind]
      rcases (p.deleteSecret bundleHash).exec s with ⟨e | removed, t⟩ <;> rfl
    rw [unchanged_iff, hperform, p.delete_refines, Records.atomic_delete_iff]
    rfl

end SecretStorageProvider

/-- A call of either provider that throws leaves all records as they were, unless its second step throws
after the first one changed the primary record. -/
theorem storage_unchanged_iff (op : StorageOp) :
    (∀ (S : AesGcmSecretStorageProvider.Setting) (s : AesGcmSecretStorageProvider.State),
      (AesGcmSecretStorageProvider.provider S).Unchanged s (((AesGcmSecretStorageProvider.provider S).perform op).exec s) ↔
        ¬ (AesGcmSecretStorageProvider.provider S).Halts s op) ∧
    ∀ (S : MemorySecretStorageProvider.Setting) (s : MemorySecretStorageProvider.State),
      (MemorySecretStorageProvider.provider S).Unchanged s (((MemorySecretStorageProvider.provider S).perform op).exec s) ↔
        ¬ (MemorySecretStorageProvider.provider S).Halts s op :=
  ⟨fun S s => (AesGcmSecretStorageProvider.provider S).perform_unchanged_iff s op,
    fun S s => (MemorySecretStorageProvider.provider S).perform_unchanged_iff s op⟩

section Example

/-- A transparent cipher: the key is the passphrase, and the tag of a ciphertext is the start of the key. -/
def OpenSsl.transparent : OpenSsl where
  randBytes call length := some (List.replicate length (UInt8.ofNat call))
  length_randBytes _ _ _ h := by rw [← Option.some.inj h, List.length_replicate]
  pbkdf2 passphrase _ _ := some passphrase
  encrypt key _ plaintext := some (plaintext ++ (key ++ List.replicate 16 0).take 16)
  length_encrypt _ _ _ _ h := by
    rw [← Option.some.inj h, List.length_append, List.length_take, List.length_append, List.length_replicate]
    omega
  decrypt key _ ciphertext tag := if tag = (key ++ List.replicate 16 0).take 16 then some ciphertext else none

theorem sealText_transparent (call : Nat) (secret passphrase : ByteString) {metadata : SecretStorageMetadata}
    (hmetadata : metadata.toJson.utf8 = true) :
    ∃ text, sealText .transparent call secret passphrase metadata = .ok text := by
  obtain ⟨p, hp⟩ : ∃ p, sealSecret .transparent call secret passphrase metadata = .ok p := ⟨_, rfl⟩
  obtain ⟨text, htext⟩ := text_sealSecret hp hmetadata
  exact ⟨text, by rw [sealText, hp]; exact htext⟩

/-- A provider over the transparent cipher whose backend never throws. -/
def AesGcmSecretStorageProvider.Setting.transparent : Setting where
  crypto := .transparent
  floatText := integersOnly

theorem primaryRecord_transparent (s : AesGcmSecretStorageProvider.State) {bundleHash secret : ByteString}
    {options : StorageOptions} {now : Int64}
    (hchecked : AesGcmSecretStorageProvider.checked .transparent bundleHash secret options = .ok ())
    (hmetadata : (AesGcmSecretStorageProvider.metadata bundleHash options now).toJson.utf8 = true) :
    ∃ text, AesGcmSecretStorageProvider.primaryRecord .transparent s bundleHash secret options now = .ok text := by
  obtain ⟨text, htext⟩ := sealText_transparent s.randCalls secret
    (AesGcmSecretStorageProvider.passphrase .transparent options) hmetadata
  exact ⟨text, AesGcmSecretStorageProvider.primaryRecord_ok _ s hchecked htext rfl⟩

/-- A store with an empty recovery passphrase throws after the primary record was written. -/
theorem storeSecret_halts :
    ¬ (AesGcmSecretStorageProvider.provider .transparent).Unchanged {}
      (((AesGcmSecretStorageProvider.provider .transparent).perform
        (.storeSecret (ascii "b") (ascii "5ec7e7")
          { passphrase := some (ascii "p"), recoveryPassphrase := some [] } 0)).exec {}) := by
  rw [SecretStorageProvider.perform_unchanged_iff, not_not]
  have hchecked : AesGcmSecretStorageProvider.checked .transparent (ascii "b") (ascii "5ec7e7")
      { passphrase := some (ascii "p"), recoveryPassphrase := some [] } = .ok () := rfl
  have hmetadata : (AesGcmSecretStorageProvider.metadata (ascii "b")
      { passphrase := some (ascii "p"), recoveryPassphrase := some [] } 0).toJson.utf8 = true := by decide
  obtain ⟨text, htext⟩ := primaryRecord_transparent {} hchecked hmetadata
  refine ⟨text, .secretStorage (ascii "Recovery passphrase cannot be empty"), ?_, rfl, nofun⟩
  rw [← htext]
  rfl

end Example

end KnishIO
