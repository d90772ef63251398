import KnishIO.Storage.Authenticity
import KnishIO.Storage.Refinement

open ByteString

namespace KnishIO

section Calls

inductive ProviderCall where
  | storeSecret (bundleHash secret : ByteString) (options : StorageOptions)
  | retrieveSecret (bundleHash : ByteString) (options : StorageOptions)
  | hasSecret (bundleHash : ByteString)
  | deleteSecret (bundleHash : ByteString)
  | listSecrets
  | recoverSecret (bundleHash recoveryPassphrase : ByteString) (options : StorageOptions)

inductive ProviderReply where
  | done
  | secret (found : Option ByteString)
  | present (b : Bool)
  | listing (secrets : List SecretStorageMetadata)
  deriving DecidableEq, Repr

/-- The metadata without the creation time and the type of the provider. -/
def SecretStorageMetadata.plain (m : SecretStorageMetadata) : SecretStorageMetadata :=
  { m with createdAt := 0, providerType := [] }

def ProviderReply.plain : ProviderReply → ProviderReply
  | .listing secrets => .listing (secrets.map SecretStorageMetadata.plain)
  | reply => reply

def AesGcmSecretStorageProvider.perform (S : Setting) (now : Int64) : ProviderCall → Run ProviderReply
  | .storeSecret bundleHash secret options => do
    storeSecret S bundleHash secret options now
    return .done
  | .retrieveSecret bundleHash options => do
    let found ← Act.ofExcept (retrieveSecret S (← get) bundleHash options)
    return .secret found
  | .hasSecret bundleHash => do
    return .present (hasSecret (← get) bundleHash)
  | .deleteSecret bundleHash => do
    let removed ← deleteSecret S bundleHash
    return .present removed
  | .listSecrets => do
    return .listing (listSecrets S (← get))
  | .recoverSecret bundleHash recoveryPassphrase options => do
    recoverSecret S bundleHash recoveryPassphrase options now
    return .done

def MemorySecretStorageProvider.perform (S : Setting) (now : Int64) : ProviderCall → Run ProviderReply
  | .storeSecret bundleHash secret options => do
    storeSecret S bundleHash secret options now
    return .done
  | .retrieveSecret bundleHash options => do
    let found ← Act.ofExcept (retrieveSecret (← get) bundleHash options)
    return .secret found
  | .hasSecret bundleHash => do
    return .present (hasSecret (← get) bundleHash)
  | .deleteSecret bundleHash => do
    let removed ← deleteSecret bundleHash
    return .present removed
  | .listSecrets => do
    return .listing (listSecrets (← get))
  | .recoverSecret bundleHash recoveryPassphrase options => do
    recoverSecret S bundleHash recoveryPassphrase options now
    return .done

/-- A run of calls, each at its time; a call that throws does not end it. -/
def performCalls {σ : Type} (perform : Int64 → ProviderCall → Act Exception σ ProviderReply) :
    List (ProviderCall × Int64) → σ → List (Throws ProviderReply) × σ
  | [], s => ([], s)
  | (c, now) :: calls, s =>
    let first := (perform now c).exec s
    let rest := performCalls perform calls first.2
    (first.1 :: rest.1, rest.2)

/-- Options without a passphrase for the primary record and with a label that is absent, or UTF-8 and not empty. -/
def StorageOptions.Admissible (options : StorageOptions) : Prop :=
  options.passphrase = none ∧ ∀ label, options.label = some label → label ≠ [] ∧ Utf8.valid label = true

def ProviderCall.Admissible : ProviderCall → Prop
  | .storeSecret bundleHash _ options => Utf8.valid bundleHash = true ∧ options.Admissible
  | .retrieveSecret _ options => options.Admissible
  | .recoverSecret bundleHash _ options => Utf8.valid bundleHash = true ∧ options.Admissible
  | _ => True

/-- The passphrase of the recovery record that a call writes or reads. -/
def ProviderCall.recoveryPassphrase : ProviderCall → Option ByteString
  | .storeSecret _ _ options => options.recoveryPassphrase
  | .recoverSecret _ recoveryPassphrase _ => some recoveryPassphrase
  | _ => none

end Calls

section Ideal

/-- Cryptography that never fails, and that opens what was sealed under one of the passphrases under that one only. -/
structure OpenSsl.IdealFor (C : OpenSsl) (passphrases : Set ByteString) : Prop where
  random : ∀ call length, ∃ bytes, C.randBytes call length = some bytes
  derives : ∀ passphrase ∈ passphrases, ∀ salt, ∃ key, C.pbkdf2 passphrase salt defaultIterations.toNat = some key
  encrypts : ∀ key iv plaintext, ∃ sealed, C.encrypt key iv plaintext = some sealed
  decrypts : ∀ key iv plaintext sealed, C.encrypt key iv plaintext = some sealed →
    C.decrypt key iv (sealed.take (sealed.length - 16)) (sealed.drop (sealed.length - 16)) = some plaintext
  refuses : ∀ passphrase ∈ passphrases, ∀ other ∈ passphrases, other ≠ passphrase → ∀ salt key key' iv plaintext sealed,
    C.pbkdf2 passphrase salt defaultIterations.toNat = some key → C.pbkdf2 other salt defaultIterations.toNat = some key' →
    C.encrypt key iv plaintext = some sealed →
    C.decrypt key' iv (sealed.take (sealed.length - 16)) (sealed.drop (sealed.length - 16)) = none

variable {C : OpenSsl} {passphrases : Set ByteString}

def tagMismatch : Exception := .decryptionFailed (ascii "Authentication tag mismatch or decryption failure")

/-- A sealed text is read back with its metadata, and opens under its own passphrase only. -/
theorem sealText_ideal (F : Json.FloatText) (hC : C.IdealFor passphrases) {passphrase : ByteString}
    (hpassphrase : passphrase ∈ passphrases) (call : Nat) (secret : ByteString) (metadata : SecretStorageMetadata)
    (hutf8 : metadata.toJson.utf8 = true) :
    ∃ text payload, sealText C call secret passphrase metadata = .ok text ∧
      EncryptedSecretPayload.fromString F text = .ok payload ∧ payload.metadata = metadata.normalized ∧
      ∀ other ∈ passphrases, openPayload C payload other = if other = passphrase then .ok secret else .error tagMismatch := by
  obtain ⟨salt, hsalt⟩ := hC.random call 16
  obtain ⟨iv, hiv⟩ := hC.random (call + 1) 12
  obtain ⟨key, hkey⟩ := hC.derives passphrase hpassphrase salt
  obtain ⟨output, houtput⟩ := hC.encrypts key iv secret
  have hseal := sealSecret_of_calls metadata hsalt hiv hkey houtput
  obtain ⟨text, htext⟩ := text_sealSecret hseal hutf8
  refine ⟨text, _, ?_, EncryptedSecretPayload.fromString_text F htext, rfl, fun other hother => ?_⟩
  · rw [sealText, hseal]
    exact htext
  have hlength := C.length_encrypt _ _ _ _ houtput
  rw [EncryptedSecretPayload.normalized, openPayload_eq C (C.length_randBytes _ _ _ hiv) (by omega)]
  obtain ⟨key', hkey'⟩ := hC.derives other hother salt
  have hderived : deriveKey C other salt defaultIterations = .ok key' := by
    rw [deriveKey, hkey']
  rw [hderived]
  simp only [Except.bind]
  by_cases hsame : other = passphrase
  · subst hsame
    obtain rfl := Option.some.inj (hkey.symm.trans hkey')
    rw [hC.decrypts _ _ _ _ houtput, if_pos rfl]
  · rw [hC.refuses passphrase hpassphrase other hother hsame salt key key' iv secret output hkey hkey' houtput, if_neg hsame]
    rfl

end Ideal

/-- Outcomes that are the same exception or related values. -/
inductive Throws.Rel {α β : Type} (R : α → β → Prop) : Throws α → Throws β → Prop where
  | ok {a : α} {b : β} (h : R a b) : Throws.Rel R (.ok a) (.ok b)
  | error (e : Exception) : Throws.Rel R (.error e) (.error e)

namespace Records

variable {P P' R R' : Type} {onPrimary : ByteString → P → P' → Prop} {onRecovery : R → R' → Prop}

/-- Two stores whose records are related, bundle by bundle. -/
structure Related (onPrimary : ByteString → P → P' → Prop) (onRecovery : R → R' → Prop) (r : Records P R)
    (r' : Records P' R') : Prop where
  primary : ∀ bundle, Option.Rel (onPrimary bundle) (r.primary bundle) (r'.primary bundle)
  recovery : ∀ bundle, Option.Rel onRecovery (r.recovery bundle) (r'.recovery bundle)

variable {r : Records P R} {r' : Records P' R'} {bundle : ByteString}

theorem Related.setPrimary (h : Related onPrimary onRecovery r r') {record : Option P} {record' : Option P'}
    (hrecord : Option.Rel (onPrimary bundle) record record') :
    Related onPrimary onRecovery (r.setPrimary bundle record) (r'.setPrimary bundle record') where
  primary b := by
    rw [setPrimary_primary, setPrimary_primary]
    split
    next heq => exact heq ▸ hrecord
    next => exact h.primary b
  recovery b := h.recovery b

theorem Related.setRecovery (h : Related onPrimary onRecovery r r') {record : Option R} {record' : Option R'}
    (hrecord : Option.Rel onRecovery record record') :
    Related onPrimary onRecovery (r.setRecovery bundle record) (r'.setRecovery bundle record') where
  primary b := h.primary b
  recovery b := by
    rw [setRecovery_recovery, setRecovery_recovery]
    split
    next => exact hrecord
    next => exact h.recovery b

/-- Storing related records has the same outcome and leaves related stores. -/
theorem Related.store (h : Related onPrimary onRecovery r r') {first : Throws P} {first' : Throws P'}
    {second : Option (Throws R)} {second' : Option (Throws R')} (hfirst : Throws.Rel (onPrimary bundle) first first')
    (hsecond : Option.Rel (Throws.Rel onRecovery) second second') :
    (r.store bundle first second).1 = (r'.store bundle first' second').1 ∧
      Related onPrimary onRecovery (r.store bundle first second).2 (r'.store bundle first' second').2 := by
  cases hfirst with
  | error e => exact ⟨rfl, h⟩
  | ok hprimary =>
    have hset := h.setPrimary (.some hprimary)
    cases hsecond with
    | none => exact ⟨rfl, hset⟩
    | some hrecovery =>
      cases hrecovery with
      | error e => exact ⟨rfl, hset⟩
      | ok hrecovery => exact ⟨rfl, hset.setRecovery (.some hrecovery)⟩

theorem Related.delete (bundle : ByteString) (h : Related onPrimary onRecovery r r') :
    Related onPrimary onRecovery (r.delete bundle (.ok ()) (.ok ())).2 (r'.delete bundle (.ok ()) (.ok ())).2 :=
  (h.setPrimary .none).setRecovery .none

end Records

section Simulation

variable {C : OpenSsl} {F : Json.FloatText} {passphrases : Set ByteString} {defaultPassphrase : ByteString}

/-- The AES-GCM provider of the runs: a backend that does not fail, and a default passphrase. -/
def aesSetting (C : OpenSsl) (F : Json.FloatText) (defaultPassphrase : ByteString) : AesGcmSecretStorageProvider.Setting :=
  { crypto := C, floatText := F, defaultPassphrase := some defaultPassphrase }

/-- A sealed item holds the secret of an entry and, but for time and type, its metadata. -/
def Holds (C : OpenSsl) (F : Json.FloatText) (defaultPassphrase bundle raw : ByteString)
    (entry : MemorySecretStorageProvider.Entry) : Prop :=
  ∃ payload, EncryptedSecretPayload.fromString F raw = .ok payload ∧
    openPayload C payload defaultPassphrase = .ok entry.secret ∧ payload.metadata.plain = entry.metadata.plain ∧
    entry.metadata.bundleHash = bundle

/-- Two recovery records open alike. -/
def OpensAlike (C : OpenSsl) (F : Json.FloatText) (passphrases : Set ByteString) (raw raw' : ByteString) : Prop :=
  ∀ passphrase ∈ passphrases, openText C F raw passphrase = openText C F raw' passphrase

def Simulates (C : OpenSsl) (F : Json.FloatText) (passphrases : Set ByteString) (defaultPassphrase : ByteString)
    (a : AesGcmSecretStorageProvider.State) (m : MemorySecretStorageProvider.State) : Prop :=
  a.records.Related (Holds C F defaultPassphrase) (OpensAlike C F passphrases) m.records

/-- Metadata that comes out of a payload as it went in. -/
theorem normalized_of_admissible {options : StorageOptions} (h : options.Admissible) (m : SecretStorageMetadata)
    (hlabel : m.label = options.label) : m.normalized = m := by
  unfold SecretStorageMetadata.normalized
  split
  next hempty =>
    cases hopt : options.label with
    | none => cases m; simp_all
    | some label =>
      rw [hlabel, hopt] at hempty
      exact absurd hempty (h.2 label hopt).1
  next => rfl

theorem utf8_metadata {m : SecretStorageMetadata} (hbundle : Utf8.valid m.bundleHash = true)
    (hprovider : Utf8.valid m.providerType = true) (hlabel : ∀ label, m.label = some label → Utf8.valid label = true) :
    m.toJson.utf8 = true := by
  apply utf8_object
  intro member hmember
  refine ⟨SecretStorageMetadata.wireKeys_utf8 _ (m.keys_subset (List.mem_map_of_mem hmember)), ?_⟩
  have hlabelText : Utf8.valid (m.label.getD []) = true := by
    cases hm : m.label with
    | none => rfl
    | some label => exact hlabel label hm
  unfold SecretStorageMetadata.wireMembers at hmember
  simp only [List.mem_append, List.mem_cons, List.not_mem_nil, or_false] at hmember
  obtain (rfl | rfl | rfl | rfl) | hmember := hmember
  · exact hbundle
  · rfl
  · rfl
  · exact hprovider
  · split at hmember
    · cases hmember
    · obtain rfl := List.mem_singleton.mp hmember
      exact hlabelText

theorem utf8_providerType : Utf8.valid (ascii "aes-gcm") = true := by decide

variable {a : AesGcmSecretStorageProvider.State} {m : MemorySecretStorageProvider.State}

/-- Storing has the same outcome with both providers. The options of the AES-GCM provider may name its default
passphrase, as they do after a recovery. -/
theorem storeSecret_simulates (hC : C.IdealFor passphrases) (hdefault : defaultPassphrase ∈ passphrases)
    (hne : defaultPassphrase ≠ []) (h : Simulates C F passphrases defaultPassphrase a m) {bundleHash secret : ByteString}
    {options options' : StorageOptions} (hbundle : Utf8.valid bundleHash = true) (hoptions : options'.Admissible)
    (hpassphrase : options.passphrase = none ∨ options.passphrase = some defaultPassphrase)
    (hlabel : options.label = options'.label) (hsame : options.recoveryPassphrase = options'.recoveryPassphrase)
    (hrecovery : ∀ p, options.recoveryPassphrase = some p → p ∈ passphrases) (now now' : Int64) :
    (((AesGcmSecretStorageProvider.storeSecret (aesSetting C F defaultPassphrase) bundleHash secret options now).exec a).1 =
      ((MemorySecretStorageProvider.storeSecret ⟨C, F⟩ bundleHash secret options' now').exec m).1) ∧
    Simulates C F passphrases defaultPassphrase
      ((AesGcmSecretStorageProvider.storeSecret (aesSetting C F defaultPassphrase) bundleHash secret options now).exec a).2
      ((MemorySecretStorageProvider.storeSecret ⟨C, F⟩ bundleHash secret options' now').exec m).2 := by
  have hstore := AesGcmSecretStorageProvider.storeSecret_refines (aesSetting C F defaultPassphrase) a bundleHash
      secret options now
  have hstore' := MemorySecretStorageProvider.storeSecret_refines ⟨C, F⟩ m bundleHash secret options' now'
  have hresolved : AesGcmSecretStorageProvider.passphrase (aesSetting C F defaultPassphrase) options = defaultPassphrase := by
    obtain hp | hp := hpassphrase <;> simp [AesGcmSecretStorageProvider.passphrase, aesSetting, hp]
  have hlabels : ∀ label, options.label = some label → Utf8.valid label = true := by
    intro label hl
    exact (hoptions.2 label (hlabel ▸ hl)).2
  have hfirst : Throws.Rel (Holds C F defaultPassphrase bundleHash)
      (AesGcmSecretStorageProvider.primaryRecord (aesSetting C F defaultPassphrase) a bundleHash secret options now)
      (MemorySecretStorageProvider.primaryRecord bundleHash secret options' now') := by
    unfold AesGcmSecretStorageProvider.primaryRecord MemorySecretStorageProvider.primaryRecord
      AesGcmSecretStorageProvider.checked MemorySecretStorageProvider.checked
    by_cases hnoBundle : bundleHash = []
    · simp only [if_pos hnoBundle]
      exact .error _
    by_cases hnoSecret : secret = []
    · simp only [if_neg hnoBundle, if_pos hnoSecret]
      exact .error _
    obtain ⟨text, payload, htext, hread, hmetadata, hopens⟩ := sealText_ideal F hC hdefault a.randCalls secret
      (AesGcmSecretStorageProvider.metadata bundleHash options now)
      (utf8_metadata hbundle utf8_providerType hlabels)
    have hopen := hopens defaultPassphrase hdefault
    rw [if_pos rfl] at hopen
    simp only [if_neg hnoBundle, if_neg hnoSecret, hresolved, if_neg hne, Except.bind, Except.map]
    rw [show (aesSetting C F defaultPassphrase).crypto = C from rfl, htext]
    refine .ok ⟨payload, hread, hopen, ?_, rfl⟩
    rw [hmetadata, normalized_of_admissible hoptions _ hlabel]
    simp [AesGcmSecretStorageProvider.metadata, MemorySecretStorageProvider.metadata, SecretStorageMetadata.plain, hlabel]
  have hsecond : Option.Rel (Throws.Rel (OpensAlike C F passphrases))
      (AesGcmSecretStorageProvider.recoveryRecord (aesSetting C F defaultPassphrase) a bundleHash secret options now)
      (MemorySecretStorageProvider.recoveryRecord ⟨C, F⟩ m bundleHash secret options' now') := by
    unfold AesGcmSecretStorageProvider.recoveryRecord MemorySecretStorageProvider.recoveryRecord
    rw [← hsame]
    cases hp : options.recoveryPassphrase with
    | none => exact .none
    | some recoveryPassphrase =>
      refine .some ?_
      by_cases hempty : recoveryPassphrase = []
      · simp only [if_pos hempty]
        exact .error _
      simp only [if_neg hempty]
      obtain ⟨text, payload, htext, hread, -, hopens⟩ := sealText_ideal F hC (hrecovery _ hp) (a.randCalls + 2) secret
        (AesGcmSecretStorageProvider.metadata bundleHash options now)
        (utf8_metadata hbundle utf8_providerType hlabels)
      obtain ⟨text', payload', htext', hread', -, hopens'⟩ := sealText_ideal F hC (hrecovery _ hp) m.randCalls secret
        (MemorySecretStorageProvider.recoveryMeta bundleHash options' now')
        (utf8_metadata hbundle utf8_providerType fun label hl => (hoptions.2 label hl).2)
      rw [show (aesSetting C F defaultPassphrase).crypto = C from rfl, htext, htext']
      refine .ok fun other hother => ?_
      rw [openText, openText, hread, hread']
      exact (hopens other hother).trans (hopens' other hother).symm
  obtain ⟨houtcome, hrelated⟩ := Records.Related.store h hfirst hsecond
  rw [← hstore, ← hstore'] at houtcome hrelated
  exact ⟨houtcome, hrelated⟩

theorem recoverSecret_simulates (hC : C.IdealFor passphrases) (hdefault : defaultPassphrase ∈ passphrases)
    (hne : defaultPassphrase ≠ []) (h : Simulates C F passphrases defaultPassphrase a m)
    {bundleHash recoveryPassphrase : ByteString} {options : StorageOptions} (hbundle : Utf8.valid bundleHash = true)
    (hoptions : options.Admissible) (hrecovery : recoveryPassphrase ∈ passphrases) (now now' : Int64) :
    (((AesGcmSecretStorageProvider.recoverSecret (aesSetting C F defaultPassphrase) bundleHash recoveryPassphrase options
        now).exec a).1 =
      ((MemorySecretStorageProvider.recoverSecret ⟨C, F⟩ bundleHash recoveryPassphrase options now').exec m).1) ∧
    Simulates C F passphrases defaultPassphrase
      ((AesGcmSecretStorageProvider.recoverSecret (aesSetting C F defaultPassphrase) bundleHash recoveryPassphrase options
        now).exec a).2
      ((MemorySecretStorageProvider.recoverSecret ⟨C, F⟩ bundleHash recoveryPassphrase options now').exec m).2 := by
  have hrecovered : AesGcmSecretStorageProvider.recovered (aesSetting C F defaultPassphrase) a bundleHash recoveryPassphrase =
      MemorySecretStorageProvider.recovered ⟨C, F⟩ m bundleHash recoveryPassphrase := by
    unfold AesGcmSecretStorageProvider.recovered MemorySecretStorageProvider.recovered
    have hrecord := h.recovery bundleHash
    change Option.Rel _ (a.items.find? _) (m.recoveryStore.find? _) at hrecord
    generalize a.items.find? (AesGcmSecretStorageProvider.recoveryKeyPrefix ++ bundleHash) = raw at hrecord
    generalize m.recoveryStore.find? bundleHash = raw' at hrecord
    cases hrecord with
    | none => rfl
    | some halike =>
      split
      next => rfl
      next =>
        split
        next => rfl
        next => exact halike recoveryPassphrase hrecovery
  rw [AesGcmSecretStorageProvider.recoverSecret_refines, MemorySecretStorageProvider.recoverSecret_refines, hrecovered]
  cases MemorySecretStorageProvider.recovered ⟨C, F⟩ m bundleHash recoveryPassphrase with
  | error e => exact ⟨rfl, h⟩
  | ok secret =>
    apply storeSecret_simulates hC hdefault hne h hbundle
    · exact hoptions
    · right
      simp [AesGcmSecretStorageProvider.storeOpts, hoptions.1, aesSetting]
    · rfl
    · rfl
    · intro p hp
      obtain rfl := Option.some.inj hp
      exact hrecovery

theorem deleteSecret_simulates (h : Simulates C F passphrases defaultPassphrase a m) (bundleHash : ByteString) :
    (((AesGcmSecretStorageProvider.deleteSecret (aesSetting C F defaultPassphrase) bundleHash).exec a).1 =
      ((MemorySecretStorageProvider.deleteSecret bundleHash).exec m).1) ∧
    Simulates C F passphrases defaultPassphrase
      ((AesGcmSecretStorageProvider.deleteSecret (aesSetting C F defaultPassphrase) bundleHash).exec a).2
      ((MemorySecretStorageProvider.deleteSecret bundleHash).exec m).2 := by
  have hrelated : Simulates C F passphrases defaultPassphrase
      ((AesGcmSecretStorageProvider.deleteSecret (aesSetting C F defaultPassphrase) bundleHash).exec a).2
      ((MemorySecretStorageProvider.deleteSecret bundleHash).exec m).2 := by
    have hdelete := AesGcmSecretStorageProvider.deleteSecret_refines (aesSetting C F defaultPassphrase) a bundleHash
    have hdelete' := MemorySecretStorageProvider.deleteSecret_refines m bundleHash
    have hafter := Records.Related.delete bundleHash h
    rw [← hdelete'] at hafter
    have hcalls (call : Nat) : AesGcmSecretStorageProvider.attempt (aesSetting C F defaultPassphrase) call () = .ok () := rfl
    rw [hcalls, hcalls] at hdelete
    rw [← hdelete] at hafter
    exact hafter
  refine ⟨?_, hrelated⟩
  have hprimary : a.items.contains (AesGcmSecretStorageProvider.keyPrefix ++ bundleHash) = m.store.contains bundleHash :=
    StdMap.isSome_of_rel (h.primary bundleHash)
  have hrecovery : a.items.contains (AesGcmSecretStorageProvider.recoveryKeyPrefix ++ bundleHash) =
      m.recoveryStore.contains bundleHash := StdMap.isSome_of_rel (h.recovery bundleHash)
  have hkept : (a.items.erase (AesGcmSecretStorageProvider.keyPrefix ++ bundleHash)).contains
      (AesGcmSecretStorageProvider.recoveryKeyPrefix ++ bundleHash) = m.recoveryStore.contains bundleHash := by
    rw [← hrecovery, StdMap.contains, StdMap.find?_erase, if_neg (AesGcmSecretStorageProvider.recoveryKey_ne _ _)]
    rfl
  have hremoved : ((AesGcmSecretStorageProvider.deleteSecret (aesSetting C F defaultPassphrase) bundleHash).exec a).1 =
      .ok (a.items.contains (AesGcmSecretStorageProvider.keyPrefix ++ bundleHash) ||
        (a.items.erase (AesGcmSecretStorageProvider.keyPrefix ++ bundleHash)).contains
          (AesGcmSecretStorageProvider.recoveryKeyPrefix ++ bundleHash)) := rfl
  rw [hremoved, hprimary, hkept]
  rfl

theorem retrieveSecret_simulates (hne : defaultPassphrase ≠ []) (h : Simulates C F passphrases defaultPassphrase a m)
    (bundleHash : ByteString) {options : StorageOptions} (hoptions : options.passphrase = none) :
    AesGcmSecretStorageProvider.retrieveSecret (aesSetting C F defaultPassphrase) a bundleHash options =
      MemorySecretStorageProvider.retrieveSecret m bundleHash options := by
  unfold AesGcmSecretStorageProvider.retrieveSecret MemorySecretStorageProvider.retrieveSecret
  have hresolved : AesGcmSecretStorageProvider.passphrase (aesSetting C F defaultPassphrase) options = defaultPassphrase := by
    simp [AesGcmSecretStorageProvider.passphrase, aesSetting, hoptions]
  have hrecord := h.primary bundleHash
  change Option.Rel _ (a.items.find? _) (m.store.find? _) at hrecord
  generalize a.items.find? (AesGcmSecretStorageProvider.keyPrefix ++ bundleHash) = raw at hrecord
  generalize m.store.find? bundleHash = entry at hrecord
  cases hrecord with
  | none => rfl
  | some hholds =>
    obtain ⟨payload, hread, hopen, -, -⟩ := hholds
    simp only [hresolved, if_neg hne, show (aesSetting C F defaultPassphrase).floatText = F from rfl, hread]
    change (openPayload C payload defaultPassphrase).map some = _
    rw [hopen]
    rfl

theorem hasSecret_simulates (h : Simulates C F passphrases defaultPassphrase a m) (bundleHash : ByteString) :
    AesGcmSecretStorageProvider.hasSecret a bundleHash = MemorySecretStorageProvider.hasSecret m bundleHash :=
  StdMap.isSome_of_rel (h.primary bundleHash)

/-- The listed metadata are those of the primary records, in the order of the bundles. -/
theorem listSecrets_eq (S : AesGcmSecretStorageProvider.Setting) (a : AesGcmSecretStorageProvider.State) :
    AesGcmSecretStorageProvider.listSecrets S a =
      (a.items.strip AesGcmSecretStorageProvider.keyPrefix).entries.filterMap fun e =>
        (EncryptedSecretPayload.fromString S.floatText e.2).toOption.map (·.metadata) := by
  have hfilter : (a.items.keys.filter fun key => AesGcmSecretStorageProvider.keyPrefix.isPrefixOf key &&
      !AesGcmSecretStorageProvider.recoveryKeyPrefix.isPrefixOf key) =
      (a.items.entries.filter fun e => AesGcmSecretStorageProvider.keyPrefix.isPrefixOf e.1).map Prod.fst := by
    rw [StdMap.keys, List.filter_map]
    congr 1
    apply List.filter_congr
    intro e _
    -- a key cannot begin with both prefixes
    cases hprimary : AesGcmSecretStorageProvider.keyPrefix.isPrefixOf e.1 with
    | false => simp [hprimary]
    | true =>
      cases hrecovery : AesGcmSecretStorageProvider.recoveryKeyPrefix.isPrefixOf e.1 with
      | false => simp [hprimary, hrecovery]
      | true =>
        obtain ⟨b, hb⟩ := List.isPrefixOf_iff_prefix.mp hrecovery
        obtain ⟨b', hb'⟩ := List.isPrefixOf_iff_prefix.mp hprimary
        exact absurd (hb.trans hb'.symm) (AesGcmSecretStorageProvider.recoveryKey_ne b b')
  rw [AesGcmSecretStorageProvider.listSecrets, hfilter, StdMap.strip, List.filterMap_map, List.filterMap_map]
  apply List.filterMap_congr
  rintro ⟨key, raw⟩ he
  have hfound : a.items.find? key = some raw := StdMap.find?_eq_some.mpr (List.mem_filter.mp he).1
  simp only [Function.comp_apply, hfound, Option.bind_some]

theorem listSecrets_simulates (h : Simulates C F passphrases defaultPassphrase a m) :
    (AesGcmSecretStorageProvider.listSecrets (aesSetting C F defaultPassphrase) a).map SecretStorageMetadata.plain =
      (MemorySecretStorageProvider.listSecrets m).map SecretStorageMetadata.plain ∧
    (MemorySecretStorageProvider.listSecrets m).map (·.bundleHash) = m.store.keys := by
  have hrelated : ∀ key, Option.Rel (Holds C F defaultPassphrase key)
      ((a.items.strip AesGcmSecretStorageProvider.keyPrefix).find? key) (m.store.find? key) := by
    intro key
    rw [StdMap.find?_strip]
    exact h.primary key
  have hentries := StdMap.forall₂_entries hrelated
  rw [listSecrets_eq, MemorySecretStorageProvider.listSecrets, StdMap.keys]
  generalize (a.items.strip AesGcmSecretStorageProvider.keyPrefix).entries = items at hentries
  generalize m.store.entries = entries at hentries
  induction hentries with
  | nil => exact ⟨rfl, rfl⟩
  | cons hhead _ ih =>
    obtain ⟨hkey, payload, hread, -, hplain, hbundle⟩ := hhead
    obtain ⟨hlist, hbundles⟩ := ih
    constructor
    · rw [List.filterMap_cons_some (b := payload.metadata)]
      · rw [List.map_cons, hlist, hplain]
        rfl
      · rw [show (aesSetting C F defaultPassphrase).floatText = F from rfl, hread]
        rfl
    · rw [List.map_cons, List.map_cons, List.map_cons, hbundles, hbundle, hkey]

/-- Two computations that come out alike are answered alike. -/
theorem reply_simulates {σ τ α : Type} {R : σ → τ → Prop} {x : Act Exception σ α} {y : Act Exception τ α} {s : σ} {t : τ}
    (reply : α → ProviderReply) (h : (x.exec s).1 = (y.exec t).1 ∧ R (x.exec s).2 (y.exec t).2) :
    (((do let v ← x; return reply v : Act Exception σ ProviderReply).exec s).1.map ProviderReply.plain =
      ((do let v ← y; return reply v : Act Exception τ ProviderReply).exec t).1.map ProviderReply.plain) ∧
    R ((do let v ← x; return reply v : Act Exception σ ProviderReply).exec s).2
      ((do let v ← y; return reply v : Act Exception τ ProviderReply).exec t).2 := by
  rw [Act.exec_bind, Act.exec_bind]
  rcases hx : x.exec s with ⟨outcome, s'⟩
  rcases hy : y.exec t with ⟨outcome', t'⟩
  rw [hx, hy] at h
  obtain ⟨rfl, hrelated⟩ := h
  cases outcome with
  | error e => exact ⟨rfl, hrelated⟩
  | ok v => exact ⟨rfl, hrelated⟩

/-- One call has the same outcome with both providers, but for times and provider types. -/
theorem perform_simulates (hC : C.IdealFor passphrases) (hdefault : defaultPassphrase ∈ passphrases)
    (hne : defaultPassphrase ≠ []) (h : Simulates C F passphrases defaultPassphrase a m) {c : ProviderCall}
    (hc : c.Admissible) (hrecovery : ∀ p, c.recoveryPassphrase = some p → p ∈ passphrases) (now now' : Int64) :
    (((AesGcmSecretStorageProvider.perform (aesSetting C F defaultPassphrase) now c).exec a).1.map ProviderReply.plain =
      ((MemorySecretStorageProvider.perform ⟨C, F⟩ now' c).exec m).1.map ProviderReply.plain) ∧
    Simulates C F passphrases defaultPassphrase
      ((AesGcmSecretStorageProvider.perform (aesSetting C F defaultPassphrase) now c).exec a).2
      ((MemorySecretStorageProvider.perform ⟨C, F⟩ now' c).exec m).2 := by
  cases c with
  | storeSecret bundleHash secret options =>
    exact reply_simulates (fun _ => .done)
      (storeSecret_simulates hC hdefault hne h hc.1 hc.2 (.inl hc.2.1) rfl rfl hrecovery now now')
  | recoverSecret bundleHash recoveryPassphrase options =>
    exact reply_simulates (fun _ => .done)
      (recoverSecret_simulates hC hdefault hne h hc.1 hc.2 (hrecovery _ rfl) now now')
  | deleteSecret bundleHash => exact reply_simulates .present (deleteSecret_simulates h bundleHash)
  | retrieveSecret bundleHash options =>
    have hretrieve := retrieveSecret_simulates hne h bundleHash hc.1
    simp only [AesGcmSecretStorageProvider.perform, MemorySecretStorageProvider.perform, Act.exec_bind, Act.exec_get,
      Act.andThen_ok, Act.exec_ofExcept, hretrieve]
    cases MemorySecretStorageProvider.retrieveSecret m bundleHash options with
    | error e => exact ⟨rfl, h⟩
    | ok found => exact ⟨rfl, h⟩
  | hasSecret bundleHash =>
    simp only [AesGcmSecretStorageProvider.perform, MemorySecretStorageProvider.perform, Act.exec_bind, Act.exec_get,
      Act.andThen_ok, Act.exec_pure, hasSecret_simulates h]
    exact ⟨trivial, h⟩
  | listSecrets =>
    simp only [AesGcmSecretStorageProvider.perform, MemorySecretStorageProvider.perform, Act.exec_bind, Act.exec_get,
      Act.andThen_ok, Act.exec_pure, Except.map, ProviderReply.plain, (listSecrets_simulates h).1]
    exact ⟨trivial, h⟩

/-- Runs of calls on two simulating providers come out alike and leave them so. -/
theorem performCalls_simulates (hC : C.IdealFor passphrases) (hdefault : defaultPassphrase ∈ passphrases)
    (hne : defaultPassphrase ≠ []) (calls : List (ProviderCall × Int64 × Int64)) (hcalls : ∀ c ∈ calls, c.1.Admissible)
    (hrecovery : ∀ c ∈ calls, ∀ p, c.1.recoveryPassphrase = some p → p ∈ passphrases)
    (h : Simulates C F passphrases defaultPassphrase a m) :
    let aes := performCalls (AesGcmSecretStorageProvider.perform (aesSetting C F defaultPassphrase))
      (calls.map fun c => (c.1, c.2.1)) a
    let memory := performCalls (MemorySecretStorageProvider.perform ⟨C, F⟩) (calls.map fun c => (c.1, c.2.2)) m
    aes.1.map (·.map ProviderReply.plain) = memory.1.map (·.map ProviderReply.plain) ∧
      Simulates C F passphrases defaultPassphrase aes.2 memory.2 := by
  induction calls generalizing a m with
  | nil => exact ⟨rfl, h⟩
  | cons c calls ih =>
    obtain ⟨hfirst, hnext⟩ := perform_simulates hC hdefault hne h (hcalls c (by simp)) (hrecovery c (by simp)) c.2.1 c.2.2
    obtain ⟨hrest, hlast⟩ := ih (fun c' hc' => hcalls c' (by simp [hc'])) (fun c' hc' => hrecovery c' (by simp [hc'])) hnext
    refine ⟨?_, hlast⟩
    simp only [List.map_cons, performCalls]
    rw [hfirst]
    exact congrArg _ hrest

/-- Both providers list the bundles of the primary records, each once. -/
theorem listed_bundles (h : Simulates C F passphrases defaultPassphrase a m) :
    (AesGcmSecretStorageProvider.listSecrets (aesSetting C F defaultPassphrase) a).map (·.bundleHash) = m.store.keys ∧
      (MemorySecretStorageProvider.listSecrets m).map (·.bundleHash) = m.store.keys := by
  obtain ⟨hplain, hbundles⟩ := listSecrets_simulates h
  have hforget (secrets : List SecretStorageMetadata) :
      (secrets.map SecretStorageMetadata.plain).map (·.bundleHash) = secrets.map (·.bundleHash) := by
    rw [List.map_map]
    rfl
  refine ⟨?_, hbundles⟩
  rw [← hforget, hplain, hforget, hbundles]

/-- From empty providers on, the same calls have the same outcomes, and what is listed is what is there. -/
theorem providers_interchangeable (C : OpenSsl) (F : Json.FloatText) {defaultPassphrase : ByteString}
    (hne : defaultPassphrase ≠ []) (calls : List (ProviderCall × Int64 × Int64)) (hcalls : ∀ c ∈ calls, c.1.Admissible)
    (hC : C.IdealFor {p | p = defaultPassphrase ∨ ∃ c ∈ calls, c.1.recoveryPassphrase = some p}) :
    let S := aesSetting C F defaultPassphrase
    let aes := performCalls (AesGcmSecretStorageProvider.perform S) (calls.map fun c => (c.1, c.2.1)) {}
    let memory := performCalls (MemorySecretStorageProvider.perform ⟨C, F⟩) (calls.map fun c => (c.1, c.2.2)) {}
    aes.1.map (·.map ProviderReply.plain) = memory.1.map (·.map ProviderReply.plain) ∧
      (((AesGcmSecretStorageProvider.listSecrets S aes.2).map (·.bundleHash)).Nodup ∧
        ∀ b, b ∈ (AesGcmSecretStorageProvider.listSecrets S aes.2).map (·.bundleHash) ↔
          AesGcmSecretStorageProvider.hasSecret aes.2 b = true) ∧
      (((MemorySecretStorageProvider.listSecrets memory.2).map (·.bundleHash)).Nodup ∧
        ∀ b, b ∈ (MemorySecretStorageProvider.listSecrets memory.2).map (·.bundleHash) ↔
          MemorySecretStorageProvider.hasSecret memory.2 b = true) := by
  have hstart : Simulates C F {p | p = defaultPassphrase ∨ ∃ c ∈ calls, c.1.recoveryPassphrase = some p} defaultPassphrase
      {} {} := ⟨fun _ => .none, fun _ => .none⟩
  obtain ⟨houtcomes, hlast⟩ := performCalls_simulates hC (.inl rfl) hne calls hcalls
    (fun c hc p hp => .inr ⟨c, hc, hp⟩) hstart
  obtain ⟨haes, hmemory⟩ := listed_bundles hlast
  refine ⟨houtcomes, ?_, ?_⟩
  · rw [haes]
    refine ⟨StdMap.nodup_keys _, fun b => ?_⟩
    rw [hasSecret_simulates hlast b]
    exact StdMap.mem_keys
  · rw [hmemory]
    exact ⟨StdMap.nodup_keys _, fun b => StdMap.mem_keys⟩

/-- The first sixteen bytes of a key, filled up with zeros. -/
def tagOf (key : ByteString) : ByteString := (key ++ List.replicate 16 0).take 16

theorem length_tagOf (key : ByteString) : (tagOf key).length = 16 := by simp [tagOf]

/-- Keys that are the passphrases; the tag of a ciphertext is taken from the key. -/
def OpenSsl.tagged : OpenSsl where
  randBytes _ length := some (List.replicate length 0)
  length_randBytes := length_zeros
  pbkdf2 passphrase _ _ := some passphrase
  encrypt key _ plaintext := some (plaintext ++ tagOf key)
  length_encrypt key _ plaintext sealed h := by
    obtain rfl := Option.some.inj h
    simp [length_tagOf]
  decrypt key _ body tag := if tag = tagOf key then some body else none

def sampleCalls : List (ProviderCall × Int64 × Int64) :=
  [(.storeSecret (ascii "b") (ascii "secret") { recoveryPassphrase := some (ascii "rec"), label := some (ascii "l") }, 1, 2),
    (.listSecrets, 3, 4), (.recoverSecret (ascii "b") (ascii "rec") {}, 5, 6)]

theorem tagged_idealFor :
    OpenSsl.tagged.IdealFor {p | p = ascii "pw" ∨ ∃ c ∈ sampleCalls, c.1.recoveryPassphrase = some p} where
  random _ _ := ⟨_, rfl⟩
  derives _ _ _ := ⟨_, rfl⟩
  encrypts _ _ _ := ⟨_, rfl⟩
  decrypts key iv plaintext sealed h := by
    obtain rfl := Option.some.inj h
    simp [OpenSsl.tagged, length_tagOf]
  refuses := by
    have hused : ∀ p, (p = ascii "pw" ∨ ∃ c ∈ sampleCalls, c.1.recoveryPassphrase = some p) →
        p = ascii "pw" ∨ p = ascii "rec" := by
      rintro p (hp | ⟨c, hc, hp⟩)
      · exact .inl hp
      · simp only [sampleCalls, List.mem_cons, List.not_mem_nil, or_false] at hc
        obtain rfl | rfl | rfl := hc
        · exact .inr (Option.some.inj hp).symm
        · cases hp
        · exact .inr (Option.some.inj hp).symm
    rintro p hp other hother hne salt key key' iv plaintext sealed hkey hkey' hsealed
    obtain rfl := Option.some.inj hkey
    obtain rfl := Option.some.inj hkey'
    obtain rfl := Option.some.inj hsealed
    have htags : tagOf p ≠ tagOf other := by
      obtain rfl | rfl := hused p hp <;> obtain rfl | rfl := hused other hother
      · exact absurd rfl hne
      · decide
      · decide
      · exact absurd rfl hne
    simp [OpenSsl.tagged, length_tagOf, htags]

theorem providers_interchangeable_sample :
    (performCalls (AesGcmSecretStorageProvider.perform (aesSetting OpenSsl.tagged integersOnly (ascii "pw")))
        (sampleCalls.map fun c => (c.1, c.2.1)) {}).1.map (·.map ProviderReply.plain) =
      (performCalls (MemorySecretStorageProvider.perform ⟨OpenSsl.tagged, integersOnly⟩)
        (sampleCalls.map fun c => (c.1, c.2.2)) {}).1.map (·.map ProviderReply.plain) := by
  refine (providers_interchangeable OpenSsl.tagged integersOnly (by decide) sampleCalls ?_ tagged_idealFor).1
  intro c hc
  simp only [sampleCalls, List.mem_cons, List.not_mem_nil, or_false] at hc
  obtain rfl | rfl | rfl := hc
  · refine ⟨by decide, rfl, fun label hl => ?_⟩
    obtain rfl := Option.some.inj hl
    decide
  · trivial
  · exact ⟨by decide, rfl, nofun⟩

end Simulation

end KnishIO
