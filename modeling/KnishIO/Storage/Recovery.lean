import KnishIO.Storage.Atomicity

open ByteString

namespace KnishIO

namespace SecretStorageProvider

variable {σ P : Type} (p : SecretStorageProvider σ P)

/-- The stored secret of a bundle: some call retrieves it, and none retrieves another. -/
def Holds (s : σ) (bundleHash secret : ByteString) : Prop :=
  (∃ options, p.retrieveSecret s bundleHash options = .ok (some secret)) ∧
    ∀ options secret', p.retrieveSecret s bundleHash options = .ok (some secret') → secret' = secret

/-- What the recovery of a working provider rests on: a recovery record gives up its own secret only, a stored
secret is the one retrieved, and removals do not throw. -/
structure Ideal (holds : ByteString → ByteString → Prop) : Prop where
  stored : ∀ s bundleHash secret options now t,
    (p.storeSecret bundleHash secret options now).exec s = (.ok (), t) → p.Holds t bundleHash secret
  sealed : ∀ s bundleHash secret options now record,
    p.recoveryRecord s bundleHash secret options now = some (.ok record) → holds record secret
  unsealed : ∀ s bundleHash secret options now,
    p.recoveryRecord s bundleHash secret options now = none → options.recoveryPassphrase = none
  recovered : ∀ s bundleHash recoveryPassphrase secret, p.recovered s bundleHash recoveryPassphrase = .ok secret →
    ∃ record, (p.records s).recovery bundleHash = some record ∧ ∀ secret', holds record secret' → secret = secret'
  storeOpts : ∀ options recoveryPassphrase, (p.storeOpts options recoveryPassphrase).recoveryPassphrase ≠ none
  removals : ∀ s, p.removals s = (.ok (), .ok ())

theorem storeSecret_primary (p : SecretStorageProvider σ P) {s t : σ} {bundleHash secret : ByteString}
    {options : StorageOptions} {now : Int64}
    (h : (p.storeSecret bundleHash secret options now).exec s = (.ok (), t)) :
    ∃ record, p.primaryRecord s bundleHash secret options now = .ok record ∧
      (p.records t).primary bundleHash = some record := by
  have hrefines := p.store_refines s bundleHash secret options now
  rw [h] at hrefines
  obtain ⟨record, hfirst, hprimary⟩ := Records.store_ok (congrArg Prod.fst hrefines).symm
  exact ⟨record, hfirst, (congrArg (fun q => q.2.primary bundleHash) hrefines).trans hprimary⟩

/-- A provider in a run, with the secret that was last stored for each bundle. -/
structure Tracked (σ : Type) where
  state : σ
  last : ByteString → Option ByteString

/-- A store that returned, or a deletion, changes what was last stored. -/
def track (tr : Tracked σ) (op : StorageOp) : Tracked σ where
  state := ((p.perform op).exec tr.state).2
  last :=
    match op with
    | .storeSecret bundleHash secret _ _ => Records.stored tr.last bundleHash secret ((p.perform op).exec tr.state).1
    | .recoverSecret _ _ _ _ => tr.last
    | .deleteSecret bundleHash => Function.update tr.last bundleHash none

def trackAll (tr : Tracked σ) (ops : List StorageOp) : Tracked σ := ops.foldl p.track tr

/-- A store without a recovery passphrase meets no recovery record, or stores the secret of last time. -/
def Renews (tr : Tracked σ) : StorageOp → Prop
  | .storeSecret bundleHash secret options _ =>
    options.recoveryPassphrase ≠ none ∨ (p.records tr.state).recovery bundleHash = none ∨
      tr.last bundleHash = some secret
  | _ => True

/-- Every step of the run does. -/
def RenewsAll : Tracked σ → List StorageOp → Prop
  | _, [] => True
  | tr, op :: ops => p.Renews tr op ∧ RenewsAll (p.track tr op) ops

variable {p} {holds : ByteString → ByteString → Prop} {tr : Tracked σ}

/-- A recovery stores the secret of last time once more. -/
theorem recoverSecret_last (hp : p.Ideal holds) (h : (p.records tr.state).Faithful holds tr.last)
    {bundleHash recoveryPassphrase secret : ByteString}
    (hrecovered : p.recovered tr.state bundleHash recoveryPassphrase = .ok secret) :
    tr.last bundleHash = some secret := by
  obtain ⟨record, hrecord, hopens⟩ := hp.recovered _ _ _ _ hrecovered
  obtain ⟨held, hlast, hholds⟩ := h bundleHash record hrecord
  rw [hlast, hopens held hholds]

/-- A step keeps the recovery records faithful. -/
theorem faithful_track (hp : p.Ideal holds) (h : (p.records tr.state).Faithful holds tr.last) {op : StorageOp}
    (hrenews : p.Renews tr op) : (p.records (p.track tr op).state).Faithful holds (p.track tr op).last := by
  have hstore (bundleHash secret : ByteString) (options : StorageOptions) (now : Int64)
      (hstale : options.recoveryPassphrase = none →
        (p.records tr.state).recovery bundleHash = none ∨ tr.last bundleHash = some secret) :
      (p.records ((p.storeSecret bundleHash secret options now).exec tr.state).2).Faithful holds
        (Records.stored tr.last bundleHash secret ((p.storeSecret bundleHash secret options now).exec tr.state).1) := by
    obtain ⟨hresult, hrecords⟩ := Prod.mk.inj (p.store_refines tr.state bundleHash secret options now)
    rw [hresult, hrecords]
    exact Records.faithful_store h (fun record hrecord => hp.sealed _ _ _ _ _ _ hrecord)
      fun hnone => hstale (hp.unsealed _ _ _ _ _ hnone)
  cases op with
  | storeSecret bundleHash secret options now =>
    exact hstore bundleHash secret options now fun hnone => hrenews.resolve_left (not_not.mpr hnone)
  | recoverSecret bundleHash recoveryPassphrase options now =>
    simp only [track, perform, p.recover_refines]
    cases hrecovered : p.recovered tr.state bundleHash recoveryPassphrase with
    | error e => exact h
    | ok secret =>
      have hlast := recoverSecret_last hp h hrecovered
      have hkept := hstore bundleHash secret (p.storeOpts options recoveryPassphrase) now
        fun hnone => absurd hnone (hp.storeOpts _ _)
      rwa [Records.stored_eq_self hlast] at hkept
  | deleteSecret bundleHash =>
    have hstate : p.records ((p.perform (.deleteSecret bundleHash)).exec tr.state).2 =
        ((p.records tr.state).delete bundleHash (.ok ()) (.ok ())).2 := by
      have hrefines := congrArg Prod.snd (p.delete_refines tr.state bundleHash)
      rw [hp.removals] at hrefines
      rw [← hrefines, perform, Act.exec_bind]
      rcases (p.deleteSecret bundleHash).exec tr.state with ⟨e | removed, t⟩ <;> rfl
    simp only [track]
    rw [hstate]
    exact Records.faithful_delete h

theorem faithful_trackAll (hp : p.Ideal holds) {ops : List StorageOp}
    (h : (p.records tr.state).Faithful holds tr.last) (hrenews : p.RenewsAll tr ops) :
    (p.records (p.trackAll tr ops).state).Faithful holds (p.trackAll tr ops).last := by
  induction ops generalizing tr with
  | nil => exact h
  | cons op ops ih => exact ih (faithful_track hp h hrenews.1) hrenews.2

/-- In a run that starts without recovery records and renews them, a recovery throws or leaves the secret
that was last stored. -/
theorem recoverSecret_trackAll (hp : p.Ideal holds) {start : σ}
    (hstart : ∀ bundleHash, (p.records start).recovery bundleHash = none) {ops : List StorageOp}
    (hrenews : p.RenewsAll ⟨start, fun _ => none⟩ ops) {bundleHash recoveryPassphrase : ByteString}
    {options : StorageOptions} {now : Int64} {t : σ}
    (hrecover : (p.recoverSecret bundleHash recoveryPassphrase options now).exec
      (p.trackAll ⟨start, fun _ => none⟩ ops).state = (.ok (), t)) :
    ∃ secret, (p.trackAll ⟨start, fun _ => none⟩ ops).last bundleHash = some secret ∧ p.Holds t bundleHash secret := by
  have hfaithful := faithful_trackAll hp (fun bundle record hrecord => by cases (hstart bundle).symm.trans hrecord) hrenews
  rw [p.recover_refines] at hrecover
  cases hrecovered : p.recovered (p.trackAll ⟨start, fun _ => none⟩ ops).state bundleHash recoveryPassphrase with
  | error e => simp [hrecovered] at hrecover
  | ok secret =>
    rw [hrecovered] at hrecover
    exact ⟨secret, recoverSecret_last hp hfaithful hrecovered, hp.stored _ _ _ _ _ _ hrecover⟩

end SecretStorageProvider

section Providers

variable {C : OpenSsl} {F : Json.FloatText}

/-- What a record gives up, under whatever passphrase. -/
def OpensTo (C : OpenSsl) (F : Json.FloatText) (record secret : ByteString) : Prop :=
  ∀ passphrase secret', openText C F record passphrase = .ok secret' → secret' = secret

theorem sealText_ok {call : Nat} {secret passphrase text : ByteString} {metadata : SecretStorageMetadata}
    (h : sealText C call secret passphrase metadata = .ok text) :
    ∃ payload, sealSecret C call secret passphrase metadata = .ok payload ∧ payload.text = .ok text := by
  rw [sealText] at h
  cases hpayload : sealSecret C call secret passphrase metadata with
  | error e => simp [hpayload, bind, Except.bind] at h
  | ok payload =>
    rw [hpayload] at h
    exact ⟨payload, rfl, h⟩

theorem openText_eq {text passphrase : ByteString} {payload : EncryptedSecretPayload} (h : payload.text = .ok text) :
    openText C F text passphrase = openPayload C payload.normalized passphrase := by
  rw [openText, EncryptedSecretPayload.fromString_text F h]
  rfl

theorem openText_sealText (hC : C.Ideal) (F : Json.FloatText) {call : Nat} {secret passphrase text : ByteString}
    {metadata : SecretStorageMetadata} (h : sealText C call secret passphrase metadata = .ok text) :
    openText C F text passphrase = .ok secret ∧ OpensTo C F text secret := by
  obtain ⟨payload, hpayload, htext⟩ := sealText_ok h
  constructor
  · rw [openText_eq htext]
    exact openPayload_sealSecret hC hpayload
  · intro passphrase' secret' hopen
    rw [openText_eq htext] at hopen
    exact openPayload_authentic hC hpayload hopen

theorem bind_attempt_ok {S : AesGcmSecretStorageProvider.Setting} {call : Nat} {r : Throws ByteString} {text : ByteString}
    (h : r.bind (AesGcmSecretStorageProvider.attempt S call) = .ok text) : r = .ok text := by
  cases r with
  | error e => cases h
  | ok text' =>
    simp only [Except.bind, AesGcmSecretStorageProvider.attempt] at h
    split at h
    · cases h
    · exact h

namespace AesGcmSecretStorageProvider

variable {S : Setting}

theorem primaryRecord_eq_ok {s : State} {bundleHash secret text : ByteString} {options : StorageOptions} {now : Int64}
    (h : primaryRecord S s bundleHash secret options now = .ok text) :
    passphrase S options ≠ [] ∧
      sealText S.crypto s.randCalls secret (passphrase S options) (metadata bundleHash options now) = .ok text := by
  unfold primaryRecord checked at h
  split_ifs at h with hbundle hsecret hpass
  · cases h
  · cases h
  · cases h
  · exact ⟨hpass, bind_attempt_ok h⟩

/-- Retrieving what is stored opens its record. -/
theorem retrieveSecret_eq {s : State} {bundleHash text : ByteString} (h : s.records.primary bundleHash = some text)
    (options : StorageOptions) :
    retrieveSecret S s bundleHash options =
      (EncryptedSecretPayload.fromString S.floatText text).bind fun payload =>
        if passphrase S options = [] then .error (.secretStorage (ascii "Passphrase required for secret decryption"))
        else (openPayload S.crypto payload (passphrase S options)).map some := by
  have hitem : s.items.find? (keyPrefix ++ bundleHash) = some text := h
  rw [retrieveSecret, hitem]
  rfl

theorem holds_of_sealed (hC : S.crypto.Ideal) {s : State} {call : Nat} {bundleHash secret text : ByteString}
    {options : StorageOptions} {m : SecretStorageMetadata} (h : s.records.primary bundleHash = some text)
    (hpass : passphrase S options ≠ []) (hsealed : sealText S.crypto call secret (passphrase S options) m = .ok text) :
    (provider S).Holds s bundleHash secret := by
  obtain ⟨payload, hpayload, htext⟩ := sealText_ok hsealed
  have hread := EncryptedSecretPayload.fromString_text S.floatText htext
  constructor
  · refine ⟨options, ?_⟩
    change retrieveSecret S s bundleHash options = _
    rw [retrieveSecret_eq h, hread]
    simp only [Except.bind, hpass, ↓reduceIte, openPayload_sealSecret hC hpayload, Except.map]
  · intro options' secret' hretrieved
    change retrieveSecret S s bundleHash options' = _ at hretrieved
    rw [retrieveSecret_eq h, hread] at hretrieved
    simp only [Except.bind] at hretrieved
    split_ifs at hretrieved
    cases hopen : openPayload S.crypto payload.normalized (passphrase S options') with
    | error e => simp [hopen, Except.map] at hretrieved
    | ok opened =>
      simp only [hopen, Except.map, Except.ok.injEq, Option.some.injEq] at hretrieved
      rw [← hretrieved]
      exact openPayload_authentic hC hpayload hopen

/-- The provider over an ideal cipher and a backend that works. -/
theorem ideal (hC : S.crypto.Ideal) (hworks : ∀ call, S.fails call = none) :
    (provider S).Ideal (OpensTo S.crypto S.floatText) where
  stored s bundleHash secret options now t hstore := by
    obtain ⟨text, hfirst, hprimary⟩ := (provider S).storeSecret_primary hstore
    obtain ⟨hpass, hsealed⟩ := primaryRecord_eq_ok hfirst
    exact holds_of_sealed hC hprimary hpass hsealed
  sealed s bundleHash secret options now record hrecord := by
    obtain ⟨recoveryPassphrase, _, hsealed⟩ := Option.map_eq_some_iff.mp hrecord
    split_ifs at hsealed
    exact (openText_sealText hC _ (bind_attempt_ok hsealed)).2
  unsealed s bundleHash secret options now h := Option.map_eq_none_iff.mp h
  recovered s bundleHash recoveryPassphrase secret h := by
    change recovered S s bundleHash recoveryPassphrase = _ at h
    unfold recovered at h
    split_ifs at h
    cases hitem : s.items.find? (recoveryKeyPrefix ++ bundleHash) with
    | none => simp [hitem] at h
    | some raw =>
      simp only [hitem] at h
      exact ⟨raw, hitem, fun secret' hopens => hopens _ _ h⟩
  storeOpts options recoveryPassphrase := nofun
  removals s := by
    change (attempt S s.calls (), attempt S (s.calls + 1) ()) = _
    simp only [attempt, hworks]

end AesGcmSecretStorageProvider

namespace MemorySecretStorageProvider

variable {S : Setting}

theorem holds_of_entry {s : State} {bundleHash : ByteString} {entry : Entry}
    (h : s.records.primary bundleHash = some entry) : (provider S).Holds s bundleHash entry.secret := by
  have hretrieve (options : StorageOptions) : retrieveSecret s bundleHash options = .ok (some entry.secret) := by
    have hfound : s.store.find? bundleHash = some entry := h
    rw [retrieveSecret, hfound]
    rfl
  refine ⟨⟨({} : StorageOptions), hretrieve {}⟩, fun options secret' hretrieved => ?_⟩
  have hsame := (hretrieve options).symm.trans hretrieved
  exact (Option.some.inj (Except.ok.inj hsame)).symm

theorem ideal (hC : S.crypto.Ideal) : (provider S).Ideal (OpensTo S.crypto S.floatText) where
  stored s bundleHash secret options now t hstore := by
    obtain ⟨entry, hfirst, hprimary⟩ := (provider S).storeSecret_primary hstore
    change primaryRecord bundleHash secret options now = _ at hfirst
    unfold primaryRecord checked at hfirst
    split_ifs at hfirst
    · cases hfirst
    · cases hfirst
    · obtain rfl := Except.ok.inj hfirst
      exact holds_of_entry hprimary
  sealed s bundleHash secret options now record hrecord := by
    obtain ⟨recoveryPassphrase, _, hsealed⟩ := Option.map_eq_some_iff.mp hrecord
    split_ifs at hsealed
    exact (openText_sealText hC _ hsealed).2
  unsealed s bundleHash secret options now h := Option.map_eq_none_iff.mp h
  recovered s bundleHash recoveryPassphrase secret h := by
    change recovered S s bundleHash recoveryPassphrase = _ at h
    unfold recovered at h
    split_ifs at h
    cases hitem : s.recoveryStore.find? bundleHash with
    | none => simp [hitem] at h
    | some raw =>
      simp only [hitem] at h
      exact ⟨raw, hitem, fun secret' hopens => hopens _ _ h⟩
  storeOpts options recoveryPassphrase := nofun
  removals s := rfl

end MemorySecretStorageProvider

end Providers

/-- In every run of either provider that renews the recovery records, a recovery throws or leaves the secret
that was last stored for its bundle. -/
theorem recoverSecret_last_stored (ops : List StorageOp) (bundleHash recoveryPassphrase : ByteString) :
    (∀ S : AesGcmSecretStorageProvider.Setting, S.crypto.Ideal → (∀ call, S.fails call = none) →
      ∀ start : AesGcmSecretStorageProvider.State, (∀ bundleHash, start.records.recovery bundleHash = none) →
      (AesGcmSecretStorageProvider.provider S).RenewsAll ⟨start, fun _ => none⟩ ops →
      ∀ options now t,
        ((AesGcmSecretStorageProvider.provider S).recoverSecret bundleHash recoveryPassphrase options now).exec
            ((AesGcmSecretStorageProvider.provider S).trackAll ⟨start, fun _ => none⟩ ops).state = (.ok (), t) →
        ∃ secret, ((AesGcmSecretStorageProvider.provider S).trackAll ⟨start, fun _ => none⟩ ops).last bundleHash = some secret ∧
          (AesGcmSecretStorageProvider.provider S).Holds t bundleHash secret) ∧
    ∀ S : MemorySecretStorageProvider.Setting, S.crypto.Ideal →
      ∀ start : MemorySecretStorageProvider.State, (∀ bundleHash, start.records.recovery bundleHash = none) →
      (MemorySecretStorageProvider.provider S).RenewsAll ⟨start, fun _ => none⟩ ops →
      ∀ options now t,
        ((MemorySecretStorageProvider.provider S).recoverSecret bundleHash recoveryPassphrase options now).exec
            ((MemorySecretStorageProvider.provider S).trackAll ⟨start, fun _ => none⟩ ops).state = (.ok (), t) →
        ∃ secret, ((MemorySecretStorageProvider.provider S).trackAll ⟨start, fun _ => none⟩ ops).last bundleHash = some secret ∧
          (MemorySecretStorageProvider.provider S).Holds t bundleHash secret := by
  constructor
  · intro S hC hworks start hstart hrenews options now t hrecover
    exact SecretStorageProvider.recoverSecret_trackAll (AesGcmSecretStorageProvider.ideal hC hworks) hstart hrenews hrecover
  · intro S hC start hstart hrenews options now t hrecover
    exact SecretStorageProvider.recoverSecret_trackAll (MemorySecretStorageProvider.ideal hC) hstart hrenews hrecover

section Example

theorem transparent_ideal : OpenSsl.transparent.Ideal := by
  have hsplit (key plaintext : ByteString) :
      (plaintext ++ (key ++ List.replicate 16 0).take 16).take
          ((plaintext ++ (key ++ List.replicate 16 0).take 16).length - 16) = plaintext ∧
        (plaintext ++ (key ++ List.replicate 16 0).take 16).drop
          ((plaintext ++ (key ++ List.replicate 16 0).take 16).length - 16) = (key ++ List.replicate 16 0).take 16 := by
    have hlength : (plaintext ++ (key ++ List.replicate 16 0).take 16).length - 16 = plaintext.length := by
      simp only [List.length_append, List.length_take, List.length_replicate]
      omega
    rw [hlength]
    exact ⟨List.take_left, List.drop_left⟩
  constructor
  · intro key iv plaintext sealed hsealed
    obtain rfl := Option.some.inj hsealed
    rw [(hsplit key plaintext).1, (hsplit key plaintext).2]
    exact if_pos rfl
  · intro key key' iv plaintext sealed opened hsealed hopened
    obtain rfl := Option.some.inj hsealed
    rw [(hsplit key plaintext).1, (hsplit key plaintext).2] at hopened
    unfold OpenSsl.transparent at hopened
    simp only [Option.ite_none_right_eq_some, Option.some.injEq] at hopened
    exact hopened.2.symm

namespace AesGcmSecretStorageProvider

variable (s : State) (bundleHash secret : ByteString) (options : StorageOptions) (now : Int64)

/-- A store over the transparent cipher returns, and a recovery passphrase opens what it leaves. -/
theorem storeSecret_transparent (hchecked : checked .transparent bundleHash secret options = .ok ())
    (hmetadata : (metadata bundleHash options now).toJson.utf8 = true) (hrecovery : options.recoveryPassphrase ≠ some []) :
    ((storeSecret .transparent bundleHash secret options now).exec s).1 = .ok () ∧
      match options.recoveryPassphrase with
      | none => ((storeSecret .transparent bundleHash secret options now).exec s).2.records.recovery bundleHash =
          s.records.recovery bundleHash
      | some recoveryPassphrase => ∃ text,
          ((storeSecret .transparent bundleHash secret options now).exec s).2.records.recovery bundleHash = some text ∧
            openText .transparent integersOnly text recoveryPassphrase = .ok secret := by
  have hrefines := storeSecret_refines .transparent s bundleHash secret options now
  have hresult := congrArg Prod.fst hrefines
  have hrecords := congrArg (fun q => q.2.recovery bundleHash) hrefines
  dsimp only at hresult hrecords
  obtain ⟨record, hfirst⟩ := primaryRecord_transparent s hchecked hmetadata
  rw [hresult, hrecords, hfirst]
  cases hpassphrase : options.recoveryPassphrase with
  | none =>
    have hsecond : recoveryRecord .transparent s bundleHash secret options now = none := by
      rw [recoveryRecord, hpassphrase, Option.map_none]
    rw [hsecond]
    exact ⟨rfl, rfl⟩
  | some recoveryPassphrase =>
    have hne : recoveryPassphrase ≠ [] := by
      rintro rfl
      exact hrecovery hpassphrase
    obtain ⟨text, htext⟩ := sealText_transparent (s.randCalls + 2) secret recoveryPassphrase hmetadata
    have hsecond : recoveryRecord .transparent s bundleHash secret options now = some (.ok text) := by
      rw [recoveryRecord, hpassphrase, Option.map_some, if_neg hne]
      exact congrArg (fun r : Throws ByteString => some (r.bind fun text => .ok text)) htext
    rw [hsecond]
    exact ⟨rfl, text, by simp [Records.store], (openText_sealText transparent_ideal integersOnly htext).1⟩

variable {s bundleHash secret} in
/-- A recovery with the right passphrase returns. -/
theorem recoverSecret_transparent {text recoveryPassphrase : ByteString}
    (hrecord : s.records.recovery bundleHash = some text)
    (hopen : openText .transparent integersOnly text recoveryPassphrase = .ok secret) (hbundle : bundleHash ≠ [])
    (hpassphrase : recoveryPassphrase ≠ [])
    (hchecked : checked .transparent bundleHash secret (storeOpts .transparent options recoveryPassphrase) = .ok ())
    (hmetadata : (metadata bundleHash (storeOpts .transparent options recoveryPassphrase) now).toJson.utf8 = true) :
    (recoverSecret .transparent bundleHash recoveryPassphrase options now).exec s =
      (.ok (), ((recoverSecret .transparent bundleHash recoveryPassphrase options now).exec s).2) ∧
    ((recoverSecret .transparent bundleHash recoveryPassphrase options now).exec s).2 =
      ((storeSecret .transparent bundleHash secret (storeOpts .transparent options recoveryPassphrase) now).exec s).2 := by
  have hrecovered : recovered .transparent s bundleHash recoveryPassphrase = .ok secret := by
    have hitem : s.items.find? (recoveryKeyPrefix ++ bundleHash) = some text := hrecord
    rw [recovered, if_neg hbundle, if_neg hpassphrase, hitem]
    exact hopen
  have hne : (storeOpts .transparent options recoveryPassphrase).recoveryPassphrase ≠ some [] := by
    simpa [storeOpts] using hpassphrase
  rw [recoverSecret_refines, hrecovered]
  exact ⟨Prod.ext (storeSecret_transparent s bundleHash secret _ now hchecked hmetadata hne).1 rfl, rfl⟩

end AesGcmSecretStorageProvider

namespace AesGcmSecretStorageProvider

/-- A store of a secret with a recovery passphrase. -/
def enrolment : StorageOp :=
  .storeSecret (ascii "b") (ascii "aa") { passphrase := some (ascii "p"), recoveryPassphrase := some (ascii "r") } 0

/-- A store of another secret without one. -/
def replacement : StorageOp := .storeSecret (ascii "b") (ascii "bb") { passphrase := some (ascii "p") } 0

theorem track_transparent (tr : SecretStorageProvider.Tracked State) (bundleHash secret : ByteString)
    (options : StorageOptions) (now : Int64) (hchecked : checked .transparent bundleHash secret options = .ok ())
    (hmetadata : (metadata bundleHash options now).toJson.utf8 = true) (hrecovery : options.recoveryPassphrase ≠ some []) :
    (provider .transparent).track tr (.storeSecret bundleHash secret options now) =
      ⟨((storeSecret .transparent bundleHash secret options now).exec tr.state).2,
        Function.update tr.last bundleHash (some secret)⟩ := by
  have hresult := (storeSecret_transparent tr.state bundleHash secret options now hchecked hmetadata hrecovery).1
  have htrack : (provider .transparent).track tr (.storeSecret bundleHash secret options now) =
      ⟨((storeSecret .transparent bundleHash secret options now).exec tr.state).2,
        Records.stored tr.last bundleHash secret ((storeSecret .transparent bundleHash secret options now).exec tr.state).1⟩ :=
    rfl
  rw [htrack, hresult]
  rfl

/-- The first store leaves a recovery record of its secret. -/
theorem track_enrolment :
    ∃ text, ((provider .transparent).track ⟨{}, fun _ => none⟩ enrolment).state.records.recovery (ascii "b") = some text ∧
      openText .transparent integersOnly text (ascii "r") = .ok (ascii "aa") ∧
      ((provider .transparent).track ⟨{}, fun _ => none⟩ enrolment).last (ascii "b") = some (ascii "aa") := by
  have hmetadata : (metadata (ascii "b")
      { passphrase := some (ascii "p"), recoveryPassphrase := some (ascii "r") } 0).toJson.utf8 = true := by decide +kernel
  obtain ⟨_, text, hrecord, hopen⟩ := storeSecret_transparent {} _ (ascii "aa") _ _ rfl hmetadata (by decide)
  refine ⟨text, ?_, hopen, ?_⟩
  · rw [enrolment, track_transparent _ _ _ _ _ rfl hmetadata (by decide)]
    exact hrecord
  · rw [enrolment, track_transparent _ _ _ _ _ rfl hmetadata (by decide)]
    simp

/-- A recovery of that secret returns and leaves it as the stored one. -/
theorem recoverSecret_aa {s : State} {text : ByteString} (hrecord : s.records.recovery (ascii "b") = some text)
    (hopen : openText .transparent integersOnly text (ascii "r") = .ok (ascii "aa")) :
    ∃ t, (recoverSecret .transparent (ascii "b") (ascii "r") {} 0).exec s = (.ok (), t) ∧
      (provider .transparent).Holds t (ascii "b") (ascii "aa") := by
  have hmetadata : (metadata (ascii "b") (storeOpts .transparent {} (ascii "r")) 0).toJson.utf8 = true := by decide
  obtain ⟨hexec, hstate⟩ := recoverSecret_transparent {} 0 hrecord hopen (by decide) (by decide) rfl hmetadata
  have hstored := (storeSecret_transparent s _ (ascii "aa") _ _ rfl hmetadata (by decide)).1
  refine ⟨_, hexec, ?_⟩
  rw [hstate]
  exact (ideal (S := .transparent) transparent_ideal fun _ => rfl).stored _ _ _ _ _ _ (Prod.ext hstored rfl)

end AesGcmSecretStorageProvider

open AesGcmSecretStorageProvider in
theorem recoverSecret_last_stored_enrolled :
    ∃ t, (recoverSecret .transparent (ascii "b") (ascii "r") {} 0).exec
        ((provider .transparent).trackAll ⟨{}, fun _ => none⟩ [enrolment]).state = (.ok (), t) ∧
      ∃ secret, ((provider .transparent).trackAll ⟨{}, fun _ => none⟩ [enrolment]).last (ascii "b") = some secret ∧
        (provider .transparent).Holds t (ascii "b") secret := by
  obtain ⟨text, hrecord, hopen, _⟩ := track_enrolment
  obtain ⟨t, hrecover, _⟩ := recoverSecret_aa hrecord hopen
  exact ⟨t, hrecover, (recoverSecret_last_stored [enrolment] (ascii "b") (ascii "r")).1 .transparent transparent_ideal
    (fun _ => rfl) {} (fun _ => rfl) ⟨.inl nofun, trivial⟩ {} 0 t hrecover⟩

open AesGcmSecretStorageProvider in
/-- After a store without a recovery passphrase, the old recovery passphrase brings back the old secret. -/
theorem recoverSecret_brings_back :
    ((provider .transparent).trackAll ⟨{}, fun _ => none⟩ [enrolment, replacement]).last (ascii "b") = some (ascii "bb") ∧
      ∃ t, (recoverSecret .transparent (ascii "b") (ascii "r") {} 0).exec
          ((provider .transparent).trackAll ⟨{}, fun _ => none⟩ [enrolment, replacement]).state = (.ok (), t) ∧
        (provider .transparent).Holds t (ascii "b") (ascii "aa") := by
  have hmetadata : (metadata (ascii "b") { passphrase := some (ascii "p") } 0).toJson.utf8 = true := by decide
  obtain ⟨text, hrecord, hopen, _⟩ := track_enrolment
  have hsecond := storeSecret_transparent ((provider .transparent).track ⟨{}, fun _ => none⟩ enrolment).state _
    (ascii "bb") _ _ rfl hmetadata (by decide)
  have htrack : (provider .transparent).trackAll ⟨{}, fun _ => none⟩ [enrolment, replacement] = _ :=
    track_transparent ((provider .transparent).track ⟨{}, fun _ => none⟩ enrolment) _ (ascii "bb") _ _ rfl hmetadata
      (by decide)
  rw [htrack]
  refine ⟨by simp, recoverSecret_aa ?_ hopen⟩
  exact hsecond.2.trans hrecord

end Example

end KnishIO
