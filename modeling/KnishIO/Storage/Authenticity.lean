import KnishIO.Storage.Sealing
import KnishIO.Storage.SecretStorageProvider

open ByteString

namespace KnishIO

/-- A call of `seal`. -/
structure SealCall where
  call : Nat
  secret : ByteString
  passphrase : ByteString
  metadata : SecretStorageMetadata

def SealCall.run (C : OpenSsl) (m : SealCall) : Throws EncryptedSecretPayload :=
  sealSecret C m.call m.secret m.passphrase m.metadata

/-- An encryption: its key, IV and plaintext, and the ciphertext with the tag. -/
structure Encryption where
  key : ByteString
  iv : ByteString
  plaintext : ByteString
  output : ByteString

/-- The encryption that a call of `seal` comes to. -/
def SealCall.Encrypts (C : OpenSsl) (m : SealCall) (x : Encryption) : Prop :=
  ∃ salt, C.randBytes m.call 16 = some salt ∧ C.randBytes (m.call + 1) 12 = some x.iv ∧
    C.pbkdf2 m.passphrase salt defaultIterations.toNat = some x.key ∧ C.encrypt x.key x.iv m.secret = some x.output ∧
    x.plaintext = m.secret

/-- An ideal AEAD: what has been encrypted decrypts to its plaintext, and nothing else decrypts. -/
structure OpenSsl.Authentic (C : OpenSsl) (made : Set Encryption) : Prop where
  decrypts : ∀ x ∈ made,
    C.decrypt x.key x.iv (x.output.take (x.output.length - 16)) (x.output.drop (x.output.length - 16)) = some x.plaintext
  authentic : ∀ key iv body tag plaintext, tag.length = 16 → C.decrypt key iv body tag = some plaintext →
    ⟨key, iv, plaintext, body ++ tag⟩ ∈ made

/-- Different passphrases, salts or iteration counts give different keys. -/
def OpenSsl.InjectiveKdf (C : OpenSsl) : Prop :=
  ∀ passphrase salt iterations passphrase' salt' iterations' key, C.pbkdf2 passphrase salt iterations = some key →
    C.pbkdf2 passphrase' salt' iterations' = some key → passphrase = passphrase' ∧ salt = salt' ∧ iterations = iterations'

/-- The decoded bytes and the iteration count of two payloads are the same. -/
def EncryptedSecretPayload.SameBytes (p q : EncryptedSecretPayload) : Prop :=
  decodeBase64 p.ciphertext = decodeBase64 q.ciphertext ∧ decodeBase64 p.iv = decodeBase64 q.iv ∧
    decodeBase64 p.salt = decodeBase64 q.salt ∧ p.iterations = q.iterations

section Authenticity

variable {C : OpenSsl} {made : Set SealCall}

theorem deriveKey_ok {passphrase salt key : ByteString} {iterations : UInt32}
    (h : deriveKey C passphrase salt iterations = .ok key) : C.pbkdf2 passphrase salt iterations.toNat = some key := by
  unfold deriveKey at h
  cases hkey : C.pbkdf2 passphrase salt iterations.toNat with
  | none => simp [hkey] at h
  | some k =>
    rw [hkey] at h
    rw [Except.ok.inj h]

theorem decodeField_ok {name : String} {str data : ByteString} (h : decodeField name str = .ok data) :
    decodeBase64 str = .ok data := by
  unfold decodeField at h
  cases hdecoded : decodeBase64 str with
  | error e => simp [hdecoded, Except.mapError] at h
  | ok d =>
    rw [hdecoded] at h
    rw [Except.ok.inj h]

/-- What an opened payload went through. -/
theorem openPayload_ok {q : EncryptedSecretPayload} {passphrase opened : ByteString}
    (h : openPayload C q passphrase = .ok opened) :
    ∃ salt iv output key, decodeBase64 q.salt = .ok salt ∧ decodeBase64 q.iv = .ok iv ∧
      decodeBase64 q.ciphertext = .ok output ∧ 16 ≤ output.length ∧
      C.pbkdf2 passphrase salt q.iterations.toNat = some key ∧
      C.decrypt key iv (output.take (output.length - 16)) (output.drop (output.length - 16)) = some opened := by
  unfold openPayload at h
  obtain ⟨salt, hsalt, h⟩ := Throws.bind_ok h
  obtain ⟨iv, hiv, h⟩ := Throws.bind_ok h
  by_cases hlength : iv.length ≠ 12
  · rw [if_pos hlength] at h
    cases h
  rw [if_neg hlength] at h
  obtain ⟨output, houtput, h⟩ := Throws.bind_ok h
  by_cases hshort : output.length < 16
  · rw [if_pos hshort] at h
    cases h
  rw [if_neg hshort] at h
  obtain ⟨key, hkey, h⟩ := Throws.bind_ok h
  cases hplain : C.decrypt key iv (output.take (output.length - 16)) (output.drop (output.length - 16)) with
  | none => simp [hplain] at h
  | some plaintext =>
    rw [hplain] at h
    obtain rfl := Except.ok.inj h
    exact ⟨salt, iv, output, key, decodeField_ok hsalt, decodeField_ok hiv, decodeField_ok houtput, by omega,
      deriveKey_ok hkey, hplain⟩

theorem sealSecret_of_calls {call : Nat} {secret passphrase salt iv key output : ByteString}
    (metadata : SecretStorageMetadata) (hsalt : C.randBytes call 16 = some salt) (hiv : C.randBytes (call + 1) 12 = some iv)
    (hkey : C.pbkdf2 passphrase salt defaultIterations.toNat = some key) (houtput : C.encrypt key iv secret = some output) :
    sealSecret C call secret passphrase metadata =
      .ok { ciphertext := encodeBase64 output, iv := encodeBase64 iv, salt := encodeBase64 salt, metadata } := by
  simp [sealSecret, deriveKey, hsalt, hiv, hkey, houtput, orThrow, bind, Except.bind, pure, Except.pure]

/-- What has been sealed opens again after it was written and read. -/
theorem openText_sealed (F : Json.FloatText) (hideal : C.Authentic {x | ∃ m ∈ made, m.Encrypts C x}) {m : SealCall}
    (hm : m ∈ made) {p : EncryptedSecretPayload} (hp : m.run C = .ok p) (hutf8 : m.metadata.toJson.utf8 = true) :
    ∃ text, p.text = .ok text ∧ openText C F text m.passphrase = .ok m.secret := by
  obtain ⟨text, htext⟩ := text_sealSecret hp hutf8
  obtain ⟨salt, iv, key, output, hsalt, hiv, hkey, houtput, rfl⟩ := sealSecret_ok hp
  have hlength := C.length_encrypt _ _ _ _ houtput
  have hplain := hideal.decrypts ⟨key, iv, m.secret, output⟩ ⟨m, hm, salt, hsalt, hiv, deriveKey_ok hkey, houtput, rfl⟩
  refine ⟨text, htext, ?_⟩
  rw [openText, EncryptedSecretPayload.fromString_text F htext]
  change openPayload C (EncryptedSecretPayload.normalized _) m.passphrase = _
  rw [EncryptedSecretPayload.normalized, openPayload_eq C (C.length_randBytes _ _ _ hiv) (by omega), hkey]
  simp only [Except.bind, hplain]

/-- What opens is what was sealed under that passphrase, with the same bytes. -/
theorem openPayload_sealed (hideal : C.Authentic {x | ∃ m ∈ made, m.Encrypts C x}) (hkdf : C.InjectiveKdf)
    {q : EncryptedSecretPayload} {passphrase opened : ByteString} (h : openPayload C q passphrase = .ok opened) :
    ∃ m ∈ made, ∃ p, m.run C = .ok p ∧ passphrase = m.passphrase ∧ q.SameBytes p ∧ opened = m.secret := by
  obtain ⟨salt, iv, output, key, hsalt, hiv, houtput, hlength, hkey, hplain⟩ := openPayload_ok h
  have htag : (output.drop (output.length - 16)).length = 16 := by
    rw [List.length_drop]
    omega
  obtain ⟨m, hm, salt', hsalt', hiv', hkey', houtput', hplain'⟩ := hideal.authentic _ _ _ _ _ htag hplain
  simp only [List.take_append_drop] at hiv' hkey' houtput' hplain'
  obtain ⟨rfl, rfl, hiterations⟩ := hkdf _ _ _ _ _ _ _ hkey hkey'
  refine ⟨m, hm, _, sealSecret_of_calls _ hsalt' hiv' hkey' houtput', rfl, ⟨?_, ?_, ?_, UInt32.toNat_inj.mp hiterations⟩, hplain'⟩
  · rw [houtput, decodeBase64_encodeBase64]
  · rw [hiv, decodeBase64_encodeBase64]
  · rw [hsalt, decodeBase64_encodeBase64]

/-- A sealed secret opens again under its passphrase after it was written and read; the codec gives back every
payload, but for an empty label; and nothing opens that differs in the passphrase, the bytes or the iteration count
from whatever has been sealed. -/
theorem envelope_contract (F : Json.FloatText) (hideal : C.Authentic {x | ∃ m ∈ made, m.Encrypts C x})
    (hkdf : C.InjectiveKdf) :
    (∀ m ∈ made, ∀ p, m.run C = .ok p → m.metadata.toJson.utf8 = true →
      ∃ text, p.text = .ok text ∧ openText C F text m.passphrase = .ok m.secret) ∧
    (∀ x : EncryptedSecretPayload, EncryptedSecretPayload.fromJson x.toJson = .ok x.normalized) ∧
    ∀ q passphrase, (∀ m ∈ made, ∀ p, m.run C = .ok p → passphrase ≠ m.passphrase ∨ ¬ q.SameBytes p) →
      ∃ e, openPayload C q passphrase = .error e := by
  refine ⟨fun m hm p hp hutf8 => openText_sealed F hideal hm hp hutf8,
    EncryptedSecretPayload.fromJson_toJson, fun q passphrase hdiffers => ?_⟩
  cases hopen : openPayload C q passphrase with
  | error e => exact ⟨e, rfl⟩
  | ok opened =>
    obtain ⟨m, hm, p, hp, hpassphrase, hbytes, -⟩ := openPayload_sealed hideal hkdf hopen
    obtain hne | hne := hdiffers m hm p hp
    · exact absurd hpassphrase hne
    · exact absurd hbytes hne

theorem length_zeros (_call length : Nat) (bytes : ByteString) (h : some (List.replicate length 0) = some bytes) :
    bytes.length = length := by
  rw [← Option.some.inj h, List.length_replicate]

/-- Random bytes that are all zero, and one key for one passphrase; a ciphertext is the plaintext and its tag, and
only that of one secret is taken. -/
def OpenSsl.single : OpenSsl where
  randBytes _ length := some (List.replicate length 0)
  length_randBytes := length_zeros
  pbkdf2 passphrase salt iterations :=
    if passphrase = ascii "pw" ∧ salt = List.replicate 16 0 ∧ iterations = 100000 then some [1] else none
  encrypt _ _ plaintext := some (plaintext ++ List.replicate 16 0)
  length_encrypt _ _ plaintext sealed h := by
    obtain rfl := Option.some.inj h
    simp
  decrypt key iv body tag :=
    if key = [1] ∧ iv = List.replicate 12 0 ∧ body = ascii "secret" ∧ tag = List.replicate 16 0 then some body else none

def sampleSeal : SealCall := ⟨0, ascii "secret", ascii "pw", { bundleHash := ascii "b", providerType := ascii "aes-gcm" }⟩

theorem single_authentic : OpenSsl.single.Authentic {x | ∃ m ∈ ({sampleSeal} : Set SealCall), m.Encrypts OpenSsl.single x} where
  decrypts := by
    rintro ⟨key, iv, plaintext, output⟩ ⟨m, rfl, salt, hsalt, hiv, hkey, houtput, rfl⟩
    obtain rfl := Option.some.inj hsalt
    obtain rfl := Option.some.inj hiv
    obtain rfl := Option.some.inj houtput
    obtain rfl := Option.some.inj hkey
    rfl
  authentic := by
    intro key iv body tag plaintext htag h
    simp only [OpenSsl.single] at h
    split at h
    next hall =>
      obtain ⟨rfl, rfl, rfl, rfl⟩ := hall
      obtain rfl := Option.some.inj h
      exact ⟨sampleSeal, rfl, List.replicate 16 0, rfl, rfl, rfl, rfl, rfl⟩
    next => cases h

theorem single_injectiveKdf : OpenSsl.single.InjectiveKdf := by
  intro passphrase salt iterations passphrase' salt' iterations' key h h'
  simp only [OpenSsl.single] at h h'
  split at h
  next hall =>
    split at h'
    next hall' =>
      obtain ⟨rfl, rfl, rfl⟩ := hall
      obtain ⟨rfl, rfl, rfl⟩ := hall'
      exact ⟨rfl, rfl, rfl⟩
    next => cases h'
  next => cases h

/-- The secret of the sample opens under its passphrase, and under no other one. -/
theorem envelope_contract_sample :
    (∃ p text, sampleSeal.run OpenSsl.single = .ok p ∧ p.text = .ok text ∧
      openText OpenSsl.single integersOnly text (ascii "pw") = .ok (ascii "secret")) ∧
    ∀ q, ∃ e, openPayload OpenSsl.single q (ascii "px") = .error e := by
  obtain ⟨hopens, -, hrefuses⟩ := envelope_contract integersOnly single_authentic single_injectiveKdf
  obtain ⟨text, htext, hopen⟩ := hopens sampleSeal rfl _ rfl (by decide)
  refine ⟨⟨_, text, rfl, htext, hopen⟩, fun q => hrefuses q (ascii "px") ?_⟩
  rintro m rfl p -
  exact .inl (by decide)

end Authenticity

end KnishIO
