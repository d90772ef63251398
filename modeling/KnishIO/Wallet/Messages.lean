import KnishIO.Library.Act
import KnishIO.Storage.Sealing
import KnishIO.Wallet.Encryption

open ByteString

namespace KnishIO

/-- The supported parameter sets. -/
def IsParameterSet (set : Int) : Prop := set = 768 ∨ set = 1024

/-- A KEM with keys, ciphertexts and secrets of the sizes of their buffers, in which the private key of a seed undoes
what was encapsulated to its public key. -/
structure MlKemNative.Correct (K : MlKemNative) : Prop where
  keypair : ∀ set, IsParameterSet set → ∀ seed, seed.length = 64 →
    ∃ publicKey, K.publicKey set seed = some publicKey ∧ publicKey.length = Wallet.publicKeyBytes set ∧
      (K.privateKey set seed).length = Wallet.privateKeyBytes set
  encapsulates : ∀ set, IsParameterSet set → ∀ seed coins publicKey, seed.length = 64 → coins.length = 32 →
    K.publicKey set seed = some publicKey →
    ∃ ciphertext sharedSecret, K.encapsulate set publicKey coins = some (ciphertext, sharedSecret) ∧
      ciphertext.length = Wallet.ciphertextBytes set ∧ sharedSecret.length = 32 ∧
      K.decapsulate set ciphertext (K.privateKey set seed) = some sharedSecret

/-- An AEAD that encrypts under every key of 32 bytes, and opens what it encrypted. -/
structure OpenSsl.CorrectAead (C : OpenSsl) : Prop where
  encrypts : ∀ key iv plaintext, key.length = 32 → iv.length = 12 → ∃ output, C.encrypt key iv plaintext = some output
  decrypts : ∀ key iv plaintext output, key.length = 32 → iv.length = 12 → C.encrypt key iv plaintext = some output →
    C.decrypt key iv (output.take (output.length - 16)) (output.drop (output.length - 16)) = some plaintext

namespace Wallet

section Read

variable (S : CipherSetting)

/-- A plaintext that is no JSON string comes back as it is. -/
def decryptMessageML (encryptedData : List (ByteString × ByteString)) : Act Exception Wallet ByteString := do
  let plaintextJson ← Act.ofExcept (mlkemDecryptToString S (← get) encryptedData)
  match parseJson S.floatText plaintextJson >>= getString with
  | .ok text => return text
  | .error _ => return plaintextJson

/-- `decryptMyMessageML` as a call on a wallet. -/
def receiveMyMessageML (mapJson : ByteString) : Act Exception Wallet ByteString := do
  Act.ofExcept (decryptMyMessageML S (← get) mapJson)

/-- The two members of an encrypted message. -/
def envelope (cipherText encryptedMessage : ByteString) : List (ByteString × ByteString) :=
  [(ascii "cipherText", cipherText), (ascii "encryptedMessage", encryptedMessage)]

/-- The map that addresses a message to one public key. -/
def addressed (pubkey cipherText encryptedMessage : ByteString) : Json :=
  Json.object [(hashShare S.hash pubkey, Json.object ((envelope cipherText encryptedMessage).map fun m => (m.1, Json.str m.2)))]

end Read

section Sizes

variable {set : Int}

theorem other_isParameterSet (h : IsParameterSet set) : IsParameterSet (otherParameterSet set) := by
  obtain rfl | rfl := h
  · exact .inr rfl
  · exact .inl rfl

/-- A parameter set is that of the wallet or the other one, and then the size of its ciphertexts tells so. -/
theorem parameterSet_cases {own : Int} (hown : IsParameterSet own) (hset : IsParameterSet set) :
    set = own ∨ set = otherParameterSet own ∧ ciphertextBytes set ≠ ciphertextBytes own := by
  obtain rfl | rfl := hown <;> obtain rfl | rfl := hset
  · exact .inl rfl
  · exact .inr ⟨rfl, by decide⟩
  · exact .inr ⟨rfl, by decide⟩
  · exact .inl rfl

theorem publicKeyBytes_other (h : IsParameterSet set) : publicKeyBytes (otherParameterSet set) ≠ publicKeyBytes set := by
  obtain rfl | rfl := h <;> decide

theorem publicKeyBytes_pos (set : Int) : 0 < publicKeyBytes set := by
  unfold publicKeyBytes
  split <;> omega

end Sizes

variable {S : CipherSetting}

section SharedSecret

variable {call : Nat} {message sharedSecret encrypted : ByteString}

/-- What was encrypted under a shared secret is decrypted under it. -/
theorem decryptWithSharedSecret_encrypt (hC : S.crypto.CorrectAead)
    (h : encryptWithSharedSecret S call message sharedSecret = .ok encrypted) :
    decryptWithSharedSecret S encrypted sharedSecret = .ok message := by
  unfold encryptWithSharedSecret at h
  split at h
  next => cases h
  next hsize =>
    obtain ⟨iv, hiv, h⟩ := Throws.bind_ok h
    obtain ⟨output, houtput, h⟩ := Throws.bind_ok h
    obtain rfl := Except.ok.inj h
    have houtput := Throws.ofOption_ok houtput
    have hivLength := S.crypto.length_randBytes _ _ _ (Throws.ofOption_ok hiv)
    have houtputLength := S.crypto.length_encrypt _ _ _ _ houtput
    have hlong : ¬ (iv ++ output).length < 28 := by
      rw [List.length_append]
      omega
    have hopened := hC.decrypts _ _ _ _ (not_not.mp hsize) hivLength houtput
    rw [decryptWithSharedSecret, if_neg hsize, if_neg hlong]
    simp only [List.take_left' hivLength, List.drop_left' hivLength, hopened]
    rfl

theorem encryptWithSharedSecret_ok (hC : S.crypto.CorrectAead) (hsecret : sharedSecret.length = 32) {iv : ByteString}
    (hiv : S.crypto.randBytes call 12 = some iv) (message : ByteString) :
    ∃ encrypted, encryptWithSharedSecret S call message sharedSecret = .ok encrypted := by
  obtain ⟨output, houtput⟩ := hC.encrypts sharedSecret iv message hsecret (S.crypto.length_randBytes _ _ _ hiv)
  refine ⟨iv ++ output, ?_⟩
  rw [encryptWithSharedSecret, if_neg (not_not.mpr hsecret), Throws.bind_of_ok (Throws.ofOption_eq _ hiv),
    Throws.bind_of_ok (Throws.ofOption_eq _ houtput)]
  rfl

end SharedSecret

/-- A wallet with a key, configured at 768 or 1024, that holds the public key of its own parameter set. -/
structure Keyed (S : CipherSetting) (w : Wallet) : Prop where
  key : w.key ≠ []
  parameterSet : IsParameterSet w.mlkemParameterSet
  publicKey : deriveMlKemKeypair S.hash S.kem.toMlKem w.key w.mlkemParameterSet = .ok w.mlkemPublicKey

theorem isParameterSet_of_derive {H : Shake256} {K : MlKem} {key publicKey : ByteString} {set : Int}
    (h : deriveMlKemKeypair H K key set = .ok publicKey) :
    IsParameterSet set ∧ K.publicKey set (shake256 H key 512) = some publicKey := by
  unfold deriveMlKemKeypair at h
  split at h
  next => cases h
  next hset =>
    refine ⟨by unfold IsParameterSet; omega, ?_⟩
    cases hkey : K.publicKey set (shake256 H key 512) with
    | none =>
      rw [hkey] at h
      cases h
    | some found =>
      rw [hkey] at h
      rw [Except.ok.inj h]

section Identities

variable {w : Wallet} {set : Int}

/-- Each of the two public keys of a key can be derived. -/
theorem derive_ok (hkem : S.kem.Correct) (key : ByteString) (hset : IsParameterSet set) :
    ∃ publicKey, deriveMlKemKeypair S.hash S.kem.toMlKem key set = .ok publicKey ∧ publicKey.length = publicKeyBytes set := by
  obtain ⟨publicKey, hpublicKey, hlength, -⟩ := hkem.keypair set hset _ (length_shake256 S.hash key 512)
  refine ⟨publicKey, ?_, hlength⟩
  have hsupported : ¬ (set ≠ 768 ∧ set ≠ 1024) := by
    unfold IsParameterSet at hset
    omega
  rw [deriveMlKemKeypair, if_neg hsupported, hpublicKey]

theorem Keyed.length_privateKey (hw : w.Keyed S) (hkem : S.kem.Correct) (hset : IsParameterSet set) :
    (mlkemPrivateKey S w set).length = privateKeyBytes set := by
  obtain ⟨-, -, -, hlength⟩ := hkem.keypair set hset _ (length_shake256 S.hash w.key 512)
  rw [mlkemPrivateKey, if_neg hw.key]
  exact hlength

/-- A ciphertext for either identity is decapsulated with the private key of that identity. -/
theorem Keyed.decapsulationKey_eq (hw : w.Keyed S) (hkem : S.kem.Correct) (hset : IsParameterSet set) :
    decapsulationKey S w (ciphertextBytes set) = .ok (set, mlkemPrivateKey S w set) := by
  have hlength := hw.length_privateKey hkem hset
  unfold decapsulationKey
  obtain rfl | ⟨rfl, hsize⟩ := parameterSet_cases hw.parameterSet hset
  · rw [if_pos rfl, if_neg (not_not.mpr hlength)]
  · obtain ⟨publicKey, hderive, -⟩ := derive_ok hkem w.key hset
    rw [if_neg hsize, if_pos rfl, if_neg hw.key, hderive]
    simp only [Except.bind, if_neg (not_not.mpr hlength)]

/-- A ciphertext of neither size is refused. -/
theorem Keyed.decapsulationKey_neither (hw : w.Keyed S) {size : Nat} (h768 : size ≠ ciphertextBytes 768)
    (h1024 : size ≠ ciphertextBytes 1024) :
    decapsulationKey S w size = .error (.invalidArgument (ascii "Invalid ML-KEM ciphertext size")) := by
  have hsizes {own : Int} (hown : IsParameterSet own) : size ≠ ciphertextBytes own := by
    obtain rfl | rfl := hown
    · exact h768
    · exact h1024
  rw [decapsulationKey, if_neg (hsizes hw.parameterSet), if_neg (hsizes (other_isParameterSet hw.parameterSet))]

end Identities

section Messages

variable {sender receiver : Wallet} {call : Nat} {message pubkey : ByteString}

/-- What an encryption that returns went through. -/
theorem encryptMessageML_parts {entries : List (ByteString × ByteString)}
    (h : encryptMessageML S sender call message pubkey = .ok entries) :
    ∃ coins ciphertext sharedSecret messageJson encrypted, S.crypto.randBytes call 32 = some coins ∧
      S.kem.encapsulate sender.mlkemParameterSet (fromBase64 pubkey) coins = some (ciphertext, sharedSecret) ∧
      dumpJson (.str message) = .ok messageJson ∧
      encryptWithSharedSecret S (call + 1) messageJson sharedSecret = .ok encrypted ∧
      entries = envelope (toBase64 ciphertext) (toBase64 encrypted) := by
  unfold encryptMessageML at h
  dsimp only at h
  split at h
  next => cases h
  next =>
    obtain ⟨coins, hcoins, h⟩ := Throws.bind_ok h
    obtain ⟨⟨ciphertext, sharedSecret⟩, hencapsulate, h⟩ := Throws.bind_ok h
    obtain ⟨messageJson, hjson, h⟩ := Throws.bind_ok h
    obtain ⟨encrypted, hencrypted, h⟩ := Throws.bind_ok h
    exact ⟨coins, ciphertext, sharedSecret, messageJson, encrypted, Throws.ofOption_ok hcoins, Throws.ofOption_ok hencapsulate,
      hjson, hencrypted, (Except.ok.inj h).symm⟩

/-- A public key of another size than the sender's is refused. -/
theorem encryptMessageML_wrong (h : (fromBase64 pubkey).length ≠ publicKeyBytes sender.mlkemParameterSet) :
    encryptMessageML S sender call message pubkey =
      .error (wrongPublicKey (fromBase64 pubkey).length sender.mlkemParameterSet) := by
  unfold encryptMessageML
  dsimp only
  rw [if_pos h]
  rfl

/-- With random bytes, a message is encrypted to each public key of a wallet. -/
theorem encryptMessageML_returns (hkem : S.kem.Correct) (hC : S.crypto.CorrectAead)
    (hsender : IsParameterSet sender.mlkemParameterSet) (hmessage : Utf8.valid message = true) {publicKey coins iv : ByteString}
    (hderive : deriveMlKemKeypair S.hash S.kem.toMlKem receiver.key sender.mlkemParameterSet = .ok publicKey)
    (hcoins : S.crypto.randBytes call 32 = some coins) (hiv : S.crypto.randBytes (call + 1) 12 = some iv) :
    ∃ ciphertext encrypted, encryptMessageML S sender call message (toBase64 publicKey) =
      .ok (envelope (toBase64 ciphertext) (toBase64 encrypted)) := by
  obtain ⟨-, hpublicKey⟩ := isParameterSet_of_derive hderive
  have hlength : publicKey.length = publicKeyBytes sender.mlkemParameterSet := by
    obtain ⟨found, hfound, hsize⟩ := derive_ok hkem receiver.key hsender
    rw [← hsize, Except.ok.inj (hderive.symm.trans hfound)]
  obtain ⟨ciphertext, sharedSecret, hencapsulate, -, hsecret, -⟩ := hkem.encapsulates _ hsender _ coins publicKey
    (length_shake256 S.hash receiver.key 512) (S.crypto.length_randBytes _ _ _ hcoins) hpublicKey
  have hdump : dumpJson (.str message) = .ok (Json.str message).text := by
    rw [dumpJson, Json.dump_of_utf8 (show (Json.str message).utf8 = true from hmessage)]
  obtain ⟨encrypted, hencrypted⟩ := encryptWithSharedSecret_ok hC hsecret hiv (Json.str message).text
  refine ⟨ciphertext, encrypted, ?_⟩
  unfold encryptMessageML
  dsimp only
  rw [fromBase64_toBase64, if_neg (not_not.mpr hlength), Throws.bind_of_ok (Throws.ofOption_eq _ hcoins),
    Throws.bind_of_ok (Throws.ofOption_eq _ hencapsulate), Throws.bind_of_ok hdump, Throws.bind_of_ok hencrypted]
  rfl

/-- The wallet a message was encrypted to recovers its JSON text, whichever of its identities was used. -/
theorem mlkemDecryptToString_encrypt (hkem : S.kem.Correct) (hC : S.crypto.CorrectAead) (hreceiver : receiver.Keyed S)
    (hsender : IsParameterSet sender.mlkemParameterSet) {publicKey : ByteString} {entries : List (ByteString × ByteString)}
    (hderive : deriveMlKemKeypair S.hash S.kem.toMlKem receiver.key sender.mlkemParameterSet = .ok publicKey)
    (h : encryptMessageML S sender call message (toBase64 publicKey) = .ok entries) :
    mlkemDecryptToString S receiver entries = dumpJson (.str message) := by
  obtain ⟨coins, ciphertext, sharedSecret, messageJson, encrypted, hcoins, hencapsulate, hjson, hencrypted, rfl⟩ :=
    encryptMessageML_parts h
  rw [fromBase64_toBase64] at hencapsulate
  obtain ⟨ciphertext', sharedSecret', hencapsulate', hsize, -, hdecapsulate⟩ := hkem.encapsulates _ hsender _ coins publicKey
    (length_shake256 S.hash receiver.key 512) (S.crypto.length_randBytes _ _ _ hcoins) (isParameterSet_of_derive hderive).2
  obtain ⟨rfl, rfl⟩ := Prod.mk.inj (Option.some.inj (hencapsulate.symm.trans hencapsulate'))
  have hidentity := hreceiver.decapsulationKey_eq hkem hsender
  rw [← hsize, mlkemPrivateKey, if_neg hreceiver.key] at hidentity
  have hcipherText : entryAt (envelope (toBase64 ciphertext) (toBase64 encrypted)) "cipherText" = .ok (toBase64 ciphertext) := rfl
  have hencryptedMessage :
      entryAt (envelope (toBase64 ciphertext) (toBase64 encrypted)) "encryptedMessage" = .ok (toBase64 encrypted) := rfl
  rw [mlkemDecryptToString, Throws.bind_of_ok hcipherText, Throws.bind_of_ok hencryptedMessage]
  dsimp only
  rw [fromBase64_toBase64, fromBase64_toBase64, Throws.bind_of_ok hidentity,
    Throws.bind_of_ok (Throws.ofOption_eq _ hdecapsulate),
    hjson]
  exact decryptWithSharedSecret_encrypt hC hencrypted

/-- A JSON string is read back as the string it holds. -/
theorem decryptMessageML_of_plaintext (w : Wallet) {entries : List (ByteString × ByteString)} {json : ByteString}
    (hjson : dumpJson (.str message) = .ok json) (hplain : mlkemDecryptToString S w entries = .ok json) :
    (decryptMessageML S entries).exec w = (.ok message, w) := by
  obtain ⟨hutf8, rfl⟩ := dumpJson_ok hjson
  have hparse : parseJson S.floatText (Json.str message).text = .ok (.str message) := by
    rw [parseJson, Json.parse_text S.floatText (.str message) hutf8]
  have hstring : (parseJson S.floatText (Json.str message).text >>= getString) = .ok message := Throws.bind_of_ok hparse _
  simp only [decryptMessageML, Act.exec_bind, Act.exec_get, Act.andThen_ok, Act.exec_ofExcept, hplain, hstring, Act.exec_pure]

theorem addressed_eq (pubkey cipherText encryptedMessage : ByteString) :
    addressed S pubkey cipherText encryptedMessage =
      .obj [(hashShare S.hash pubkey,
        .obj [(ascii "cipherText", .str cipherText), (ascii "encryptedMessage", .str encryptedMessage)])] := by
  have hne : ¬ ascii "encryptedMessage" = ascii "cipherText" := by decide
  have horder : ¬ ascii "encryptedMessage" < ascii "cipherText" := by decide
  simp [addressed, envelope, Json.object, Json.insert, hne, horder]

theorem exact_addressed (pubkey cipherText encryptedMessage : ByteString) :
    (addressed S pubkey cipherText encryptedMessage).Exact := by
  have horder : ascii "cipherText" < ascii "encryptedMessage" := by decide
  rw [addressed_eq]
  simp [Json.Exact, Json.ExactMembers, Json.Sorted, horder]

/-- The envelope is found under the hash share of either public key. -/
theorem decryptMyMessageML_addressed (hkem : S.kem.Correct) (hreceiver : receiver.Keyed S) {set : Int}
    {publicKey cipherText encryptedMessage text : ByteString}
    (hderive : deriveMlKemKeypair S.hash S.kem.toMlKem receiver.key set = .ok publicKey)
    (htext : dumpJson (addressed S (toBase64 publicKey) cipherText encryptedMessage) = .ok text) :
    decryptMyMessageML S receiver text = mlkemDecryptToString S receiver (envelope cipherText encryptedMessage) := by
  obtain ⟨hutf8, rfl⟩ := dumpJson_ok htext
  have hparse : parseJson S.floatText (addressed S (toBase64 publicKey) cipherText encryptedMessage).text =
      .ok (addressed S (toBase64 publicKey) cipherText encryptedMessage) := by
    rw [parseJson, Json.parse_text _ _ ((exact_addressed _ _ _).valid _ _ hutf8)]
  have hlookup (share : ByteString) : (addressed S (toBase64 publicKey) cipherText encryptedMessage).find? share =
      if hashShare S.hash (toBase64 publicKey) = share then
        some (.obj [(ascii "cipherText", .str cipherText), (ascii "encryptedMessage", .str encryptedMessage)])
      else none := by
    rw [addressed_eq]
    rfl
  rw [decryptMyMessageML, Throws.bind_of_ok hparse]
  dsimp only
  by_cases hown : hashShare S.hash (toBase64 publicKey) = hashShare S.hash (toBase64 receiver.mlkemPublicKey)
  · rw [if_neg (by simp [Json.contains, hlookup, hown]), ← hown, Throws.bind_of_ok rfl, hlookup, if_pos rfl]
    rfl
  -- the map does not hold the share of the configured public key, so it is the other one that is derived and looked up
  · have hset : set = otherParameterSet receiver.mlkemParameterSet := by
      obtain rfl | ⟨hset, -⟩ := parameterSet_cases hreceiver.parameterSet (isParameterSet_of_derive hderive).1
      · have hsame := Except.ok.inj (hderive.symm.trans hreceiver.publicKey)
        exact absurd (by rw [hsame]) hown
      · exact hset
    have hnonempty : receiver.mlkemPublicKey ≠ [] := by
      obtain ⟨found, hfound, hlength⟩ := derive_ok hkem receiver.key hreceiver.parameterSet
      obtain rfl := Except.ok.inj (hfound.symm.trans hreceiver.publicKey)
      exact List.ne_nil_of_length_pos (hlength ▸ publicKeyBytes_pos _)
    rw [if_pos (by simp [Json.contains, hlookup, hown, hnonempty]), ← hset, hderive, Except.map, Throws.bind_of_ok rfl, hlookup,
      if_pos rfl]
    rfl

theorem encryptStringML_eq {cipherText encryptedMessage : ByteString}
    (h : encryptMessageML S sender call message pubkey = .ok (envelope cipherText encryptedMessage)) :
    encryptStringML S sender call message pubkey = dumpJson (addressed S pubkey cipherText encryptedMessage) :=
  Throws.bind_of_ok h _

/-- The map that is made of an encrypted message can be written. -/
theorem addressed_written (pubkey ciphertext encrypted : ByteString) :
    ∃ text, dumpJson (addressed S pubkey (toBase64 ciphertext) (toBase64 encrypted)) = .ok text := by
  have hbase64 (data : ByteString) : Utf8.valid (toBase64 data) = true :=
    Utf8.valid_of_ascii fun c hc => ascii_of_mem_toBase64 hc
  have hnames : Utf8.valid (ascii "cipherText") = true ∧ Utf8.valid (ascii "encryptedMessage") = true := by decide
  have hutf8 : (addressed S pubkey (toBase64 ciphertext) (toBase64 encrypted)).utf8 = true := by
    rw [addressed_eq]
    simp [Json.utf8, Json.utf8Members, hashShare, hbase64, hnames]
  exact ⟨_, by rw [dumpJson, Json.dump_of_utf8 hutf8]⟩

/-- A ciphertext of neither size is not decrypted. -/
theorem mlkemDecryptToString_neither (hreceiver : receiver.Keyed S) {cipherText : ByteString} (encryptedMessage : ByteString)
    (h768 : (fromBase64 cipherText).length ≠ ciphertextBytes 768)
    (h1024 : (fromBase64 cipherText).length ≠ ciphertextBytes 1024) :
    mlkemDecryptToString S receiver (envelope cipherText encryptedMessage) =
      .error (.invalidArgument (ascii "Invalid ML-KEM ciphertext size")) := by
  have hcipherText : entryAt (envelope cipherText encryptedMessage) "cipherText" = .ok cipherText := rfl
  have hencryptedMessage : entryAt (envelope cipherText encryptedMessage) "encryptedMessage" = .ok encryptedMessage := rfl
  rw [mlkemDecryptToString, Throws.bind_of_ok hcipherText, Throws.bind_of_ok hencryptedMessage]
  dsimp only
  rw [hreceiver.decapsulationKey_neither h768 h1024]
  rfl

end Messages

/-- A message that a sender of either parameter set encrypts to the public key that a keyed wallet has at that set is
read by the wallet, which stays as it is; keys and ciphertexts of other sizes are refused. -/
theorem mlkem_reaches_both_identities (hkem : S.kem.Correct) (hC : S.crypto.CorrectAead) {sender receiver : Wallet}
    (hreceiver : receiver.Keyed S) (hsender : IsParameterSet sender.mlkemParameterSet) {message : ByteString}
    (hmessage : Utf8.valid message = true) (call : Nat) :
    (∃ publicKey json,
      deriveMlKemKeypair S.hash S.kem.toMlKem receiver.key sender.mlkemParameterSet = .ok publicKey ∧
      dumpJson (.str message) = .ok json ∧
      -- with random bytes, both encryptions return
      (∀ coins iv, S.crypto.randBytes call 32 = some coins → S.crypto.randBytes (call + 1) 12 = some iv →
        (∃ entries, encryptMessageML S sender call message (toBase64 publicKey) = .ok entries) ∧
          ∃ text, encryptStringML S sender call message (toBase64 publicKey) = .ok text) ∧
      (∀ entries, encryptMessageML S sender call message (toBase64 publicKey) = .ok entries →
        (decryptMessageML S entries).exec receiver = (.ok message, receiver)) ∧
      ∀ text, encryptStringML S sender call message (toBase64 publicKey) = .ok text →
        (receiveMyMessageML S text).exec receiver = (.ok json, receiver)) ∧
    (∀ pubkey, (fromBase64 pubkey).length = publicKeyBytes (otherParameterSet sender.mlkemParameterSet) →
      (∃ e, encryptMessageML S sender call message pubkey = .error e) ∧
        ∃ e, encryptStringML S sender call message pubkey = .error e) ∧
    ∀ cipherText encryptedMessage, (fromBase64 cipherText).length ≠ ciphertextBytes 768 →
      (fromBase64 cipherText).length ≠ ciphertextBytes 1024 →
      (∃ e, (decryptMessageML S (envelope cipherText encryptedMessage)).exec receiver = (.error e, receiver)) ∧
        ∀ set publicKey text, deriveMlKemKeypair S.hash S.kem.toMlKem receiver.key set = .ok publicKey →
          dumpJson (addressed S (toBase64 publicKey) cipherText encryptedMessage) = .ok text →
          ∃ e, (receiveMyMessageML S text).exec receiver = (.error e, receiver) := by
  obtain ⟨publicKey, hderive, -⟩ := derive_ok hkem receiver.key hsender
  obtain ⟨json, hjson⟩ : ∃ json, dumpJson (.str message) = .ok json :=
    ⟨_, by rw [dumpJson, Json.dump_of_utf8 (show (Json.str message).utf8 = true from hmessage)]⟩
  refine ⟨⟨publicKey, json, hderive, hjson, fun coins iv hcoins hiv => ?_, fun entries h => ?_, fun text h => ?_⟩,
    fun pubkey hsize => ?_, fun cipherText encryptedMessage h768 h1024 => ⟨?_, fun set publicKey text hderive htext => ?_⟩⟩
  · obtain ⟨ciphertext, encrypted, hreturns⟩ := encryptMessageML_returns hkem hC hsender hmessage hderive hcoins hiv
    refine ⟨⟨_, hreturns⟩, ?_⟩
    rw [encryptStringML_eq hreturns]
    exact addressed_written _ _ _
  · apply decryptMessageML_of_plaintext receiver hjson
    rw [mlkemDecryptToString_encrypt hkem hC hreceiver hsender hderive h, hjson]
  · obtain ⟨entries, hentries, -⟩ := Throws.bind_ok h
    obtain ⟨-, ciphertext, -, -, encrypted, -, -, -, -, rfl⟩ := encryptMessageML_parts hentries
    rw [encryptStringML_eq hentries] at h
    simp only [receiveMyMessageML, Act.exec_bind, Act.exec_get, Act.andThen_ok, Act.exec_ofExcept]
    rw [decryptMyMessageML_addressed hkem hreceiver hderive h,
      mlkemDecryptToString_encrypt hkem hC hreceiver hsender hderive hentries, hjson]
  · obtain ⟨e, hrefused⟩ : ∃ e, encryptMessageML S sender call message pubkey = .error e :=
      ⟨_, encryptMessageML_wrong (hsize ▸ publicKeyBytes_other hsender)⟩
    refine ⟨⟨e, hrefused⟩, e, ?_⟩
    rw [encryptStringML, hrefused]
    rfl
  · refine ⟨.invalidArgument (ascii "Invalid ML-KEM ciphertext size"), ?_⟩
    simp only [decryptMessageML, Act.exec_bind, Act.exec_get, Act.andThen_ok, Act.exec_ofExcept,
      mlkemDecryptToString_neither hreceiver encryptedMessage h768 h1024, Act.andThen_error]
  · refine ⟨.invalidArgument (ascii "Invalid ML-KEM ciphertext size"), ?_⟩
    simp only [receiveMyMessageML, Act.exec_bind, Act.exec_get, Act.andThen_ok, Act.exec_ofExcept]
    rw [decryptMyMessageML_addressed hkem hreceiver hderive htext,
      mlkemDecryptToString_neither hreceiver encryptedMessage h768 h1024]

section Example

/-- A KEM of which all keys, ciphertexts and secrets are zeros. -/
def zeroKem : MlKemNative where
  publicKey set _ := some (List.replicate (publicKeyBytes set) 0)
  privateKey set _ := List.replicate (privateKeyBytes set) 0
  encapsulate set _ _ := some (List.replicate (ciphertextBytes set) 0, List.replicate 32 0)
  decapsulate _ _ _ := some (List.replicate 32 0)

theorem zeroKem_correct : zeroKem.Correct where
  keypair _ _ _ _ := ⟨_, rfl, List.length_replicate, List.length_replicate⟩
  encapsulates _ _ _ _ _ _ _ _ := ⟨_, _, rfl, List.length_replicate, List.length_replicate, rfl⟩

theorem length_zeroBytes (_call length : Nat) (bytes : ByteString) (h : some (List.replicate length 0) = some bytes) :
    bytes.length = length := by
  rw [← Option.some.inj h, List.length_replicate]

theorem length_zeroTagged (_key _iv plaintext output : ByteString) (h : some (plaintext ++ List.replicate 16 0) = some output) :
    output.length = plaintext.length + 16 := by
  rw [← Option.some.inj h, List.length_append, List.length_replicate]

/-- An AEAD that leaves the text as it is and appends a tag of zeros. -/
def zeroAead : OpenSsl where
  randBytes _ length := some (List.replicate length 0)
  length_randBytes := length_zeroBytes
  pbkdf2 _ _ _ := none
  encrypt _ _ plaintext := some (plaintext ++ List.replicate 16 0)
  length_encrypt := length_zeroTagged
  decrypt _ _ body _ := some body

theorem zeroAead_correct : zeroAead.CorrectAead where
  encrypts _ _ _ _ _ := ⟨_, rfl⟩
  decrypts _ _ _ _ _ _ h := by
    obtain rfl := Option.some.inj h
    simp [zeroAead]

def zeroCipher : CipherSetting := ⟨.constant 0, zeroKem, zeroAead, integersOnly⟩

/-- A wallet with the key "0" at a parameter set. -/
def zeroWallet (set : Int) : Wallet where
  position := []
  token := []
  key := ascii "0"
  address := []
  bundle := []
  mlkemPublicKey := List.replicate (publicKeyBytes set) 0
  mlkemParameterSet := set
  otsVersion := 1

theorem zeroWallet_keyed : (zeroWallet 1024).Keyed zeroCipher := ⟨by decide, .inr rfl, rfl⟩

/-- A sender at 768 reaches a wallet at 1024. -/
theorem mlkem_reaches_both_identities_zero :
    ∃ entries, encryptMessageML zeroCipher (zeroWallet 768) 0 (ascii "hi") (toBase64 (List.replicate 1184 0)) = .ok entries ∧
      (decryptMessageML zeroCipher entries).exec (zeroWallet 1024) = (.ok (ascii "hi"), zeroWallet 1024) := by
  have hsender : IsParameterSet (zeroWallet 768).mlkemParameterSet := .inl rfl
  have hmessage : Utf8.valid (ascii "hi") = true := by decide
  obtain ⟨⟨publicKey, json, hderive, -, hreturns, hread, -⟩, -⟩ :=
    mlkem_reaches_both_identities zeroKem_correct zeroAead_correct zeroWallet_keyed hsender hmessage 0
  obtain rfl := Except.ok.inj hderive
  obtain ⟨⟨entries, hentries⟩, -⟩ := hreturns (List.replicate 32 0) (List.replicate 12 0) rfl rfl
  exact ⟨entries, hentries, hread entries hentries⟩

end Example

end Wallet

end KnishIO
