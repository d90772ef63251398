import KnishIO.Storage.SecretEnvelope

open ByteString

namespace KnishIO

section Base64

theorem isSpace_encodeBase64 {data : ByteString} {c : UInt8} (hc : c ∈ encodeBase64 data) :
    CInteger.isSpace c = false := by
  have halphabet : ∀ d ∈ base64Chars, CInteger.isSpace d = false := by decide +kernel
  obtain ⟨group, _, hgroup⟩ := List.mem_flatMap.mp hc
  obtain ⟨j, _, rfl⟩ := List.mem_map.mp hgroup
  split
  · exact halphabet _ (base64_symbol (Nat.mod_lt _ (by norm_num))).2.1
  · rfl

theorem decodeStrictGroup_encodeGroup {group : ByteString} (hpos : 0 < group.length) (hle : group.length ≤ 3) :
    decodeStrictGroup (encodeGroup group) = .ok group := by
  have hnone : (encodeGroup group).find? (fun c => c ≠ 61 && (base64Index c).isNone) = none := by
    apply List.find?_eq_none.mpr
    intro c hc
    obtain ⟨j, _, rfl⟩ := List.mem_map.mp hc
    split
    · rw [(base64_symbol (Nat.mod_lt _ (by norm_num))).1]
      simp
    · simp
  rw [decodeStrictGroup, hnone, decodeGroup_encodeGroup hpos hle]

/-- The envelope's decoder gives back what its encoder was given. -/
theorem decodeBase64_encodeBase64 (data : ByteString) : decodeBase64 (encodeBase64 data) = .ok data := by
  have hclean : (encodeBase64 data).filter (fun c => !CInteger.isSpace c) = encodeBase64 data := by
    apply List.filter_eq_self.mpr
    intro c hc
    rw [isSpace_encodeBase64 hc]
    rfl
  have hlength : (encodeBase64 data).length % 4 = 0 := by
    have := length_toBase64 data
    rw [toBase64] at this
    rw [encodeBase64, this]
    exact Nat.mul_mod_right 4 _
  have hgroups : (blocks 4 (encodeBase64 data)).mapM decodeStrictGroup = .ok (blocks 3 data) := by
    clear hclean hlength
    induction data using block_induction (show 0 < 3 by omega) with
    | nil => simp [encodeBase64]; rfl
    | step data hdata ih =>
      have hpos := List.length_pos_of_ne_nil hdata
      have hsplit : encodeBase64 data = encodeGroup (data.take 3) ++ encodeBase64 (data.drop 3) := toBase64_of_ne_nil hdata
      rw [hsplit, blocks_append (by omega) (length_encodeGroup _), List.mapM_cons, ih,
        decodeStrictGroup_encodeGroup (by rw [List.length_take]; omega) (by rw [List.length_take]; omega),
        blocks_of_ne_nil (by omega) hdata]
      rfl
  rw [decodeBase64, hclean, if_neg (by rw [hlength]; simp), hgroups]
  simp only [Except.map]
  rw [flatten_blocks (by omega)]

end Base64

section Text

variable {F : Json.FloatText}

/-- A member of an object that can be written can be written itself. -/
theorem utf8_of_find? {j value : Json} {key : ByteString} (hutf8 : j.utf8 = true) (h : j.find? key = some value) :
    value.utf8 = true := by
  have hmem (ms : List (ByteString × Json)) (h : Json.lookup key ms = some value) : (key, value) ∈ ms := by
    induction ms with
    | nil => cases h
    | cons m ms ih =>
      obtain ⟨k, v⟩ := m
      rw [Json.lookup] at h
      split at h
      next heq =>
        obtain rfl := Option.some.inj h
        rw [heq]
        exact List.mem_cons_self
      next => exact List.mem_cons_of_mem _ (ih h)
  cases j with
  | obj ms =>
    rw [Json.utf8, Json.utf8Members_iff] at hutf8
    exact (hutf8 _ (hmem ms h)).2
  | _ => cases h

theorem utf8_object {members : List (ByteString × Json)}
    (h : ∀ m ∈ members, Utf8.valid m.1 = true ∧ m.2.utf8 = true) : (Json.object members).utf8 = true := by
  apply (Json.utf8Members_iff _).mpr
  intro m hm
  obtain hm | hm := Json.mem_assign hm
  · exact h m hm
  · cases hm

namespace SecretStorageMetadata

def wireKeys : List ByteString := ["bundleHash", "createdAt", "hardwareBacked", "providerType", "label"].map ascii

theorem wireKeys_utf8 : ∀ key ∈ wireKeys, Utf8.valid key = true := by decide

theorem keys_wireMembers (m : SecretStorageMetadata) : (m.wireMembers.map Prod.fst).Nodup := by
  unfold wireMembers
  split <;> simp <;> decide

theorem keys_subset (m : SecretStorageMetadata) : m.wireMembers.map Prod.fst ⊆ wireKeys := by
  unfold wireMembers
  split <;> simp [wireKeys]

theorem find?_toJson (m : SecretStorageMetadata) {key : ByteString} {value : Json} (h : (key, value) ∈ m.wireMembers) :
    m.toJson.find? key = some value := Json.find?_object_of_mem m.keys_wireMembers h

theorem find?_label (m : SecretStorageMetadata) :
    m.toJson.find? (ascii "label") = if m.label.getD [] = [] then none else some (.str (m.label.getD [])) := by
  split
  next hempty =>
    apply Json.find?_object_of_forall_ne
    unfold wireMembers
    rw [if_pos hempty]
    simp
    decide
  next hlabel =>
    apply find?_toJson
    unfold wireMembers
    rw [if_neg hlabel]
    simp

theorem valid_toJson {m : SecretStorageMetadata} (h : m.toJson.utf8 = true) : Json.Valid F m.toJson := by
  apply Json.valid_object
  intro member hmember
  have hutf8 := utf8_of_find? h (m.find?_toJson hmember)
  have hrange := m.createdAt.toInt_lt
  have hrange' := m.createdAt.le_toInt
  have hkey : Utf8.valid member.1 = true := wireKeys_utf8 _ (m.keys_subset (List.mem_map_of_mem hmember))
  unfold wireMembers at hmember
  split at hmember
  all_goals
    simp only [List.mem_append, List.mem_cons, List.not_mem_nil, or_false] at hmember
  · obtain rfl | rfl | rfl | rfl := hmember
    · exact ⟨hkey, hutf8⟩
    · exact ⟨hkey, by simp only [Json.Valid, Json.IntRange]; omega⟩
    · exact ⟨hkey, trivial⟩
    · exact ⟨hkey, hutf8⟩
  · obtain (rfl | rfl | rfl | rfl) | rfl := hmember
    · exact ⟨hkey, hutf8⟩
    · exact ⟨hkey, by simp only [Json.Valid, Json.IntRange]; omega⟩
    · exact ⟨hkey, trivial⟩
    · exact ⟨hkey, hutf8⟩
    · exact ⟨hkey, hutf8⟩

theorem fromJson_toJson (m : SecretStorageMetadata) : fromJson m.toJson = .ok m.normalized := by
  have hbundle : m.toJson.find? (ascii "bundleHash") = some (.str m.bundleHash) := m.find?_toJson (by simp [wireMembers])
  have hcreated : m.toJson.find? (ascii "createdAt") = some (.int m.createdAt.toInt) :=
    m.find?_toJson (by simp [wireMembers])
  have hbacked : m.toJson.find? (ascii "hardwareBacked") = some (.bool m.hardwareBacked) :=
    m.find?_toJson (by simp [wireMembers])
  have hprovider : m.toJson.find? (ascii "providerType") = some (.str m.providerType) :=
    m.find?_toJson (by simp [wireMembers])
  have hlabel := m.find?_label
  have hobject : m.toJson.isObject = true := rfl
  simp only [fromJson, hobject, eitherMember, hbundle, hcreated, hprovider, readHardwareBacked, hbacked, readLabel, hlabel,
    Option.some_or, required, getString, Json.string?_str, getInt64, getBool, bind, Except.bind, pure, Except.pure,
    Bool.not_true, Bool.false_eq_true, ↓reduceIte, Int64.ofInt_toInt]
  unfold normalized
  by_cases hempty : m.label.getD [] = []
  · simp [hempty]
  · cases hm : m.label with
    | none => simp [hm] at hempty
    | some label =>
      simp only [hm, Option.getD_some] at hempty
      simp [hempty, Json.isNull, Except.map]

end SecretStorageMetadata

namespace EncryptedSecretPayload

def wireKeys : List ByteString :=
  ["version", "ciphertext", "iv", "salt", "algorithm", "iterations", "metadata"].map ascii

theorem wireKeys_utf8 : ∀ key ∈ wireKeys, Utf8.valid key = true := by decide

theorem keys_eq (p : EncryptedSecretPayload) : p.wireMembers.map Prod.fst = wireKeys := rfl

theorem keys_wireMembers (p : EncryptedSecretPayload) : (p.wireMembers.map Prod.fst).Nodup := by
  rw [keys_eq]
  decide

theorem find?_toJson (p : EncryptedSecretPayload) {key : ByteString} {value : Json} (h : (key, value) ∈ p.wireMembers) :
    p.toJson.find? key = some value := Json.find?_object_of_mem p.keys_wireMembers h

theorem valid_toJson {p : EncryptedSecretPayload} (h : p.toJson.utf8 = true) : Json.Valid F p.toJson := by
  apply Json.valid_object
  intro member hmember
  have hutf8 := utf8_of_find? h (p.find?_toJson hmember)
  have hversion := p.version.toNat_lt
  have hiterations := p.iterations.toNat_lt
  have hkey : Utf8.valid member.1 = true :=
    wireKeys_utf8 _ (p.keys_eq ▸ List.mem_map_of_mem hmember)
  simp only [wireMembers, List.mem_cons, List.not_mem_nil, or_false] at hmember
  obtain rfl | rfl | rfl | rfl | rfl | rfl | rfl := hmember
  · exact ⟨hkey, by simp only [Json.Valid, Json.IntRange]; omega⟩
  · exact ⟨hkey, hutf8⟩
  · exact ⟨hkey, hutf8⟩
  · exact ⟨hkey, hutf8⟩
  · exact ⟨hkey, hutf8⟩
  · exact ⟨hkey, by simp only [Json.Valid, Json.IntRange]; omega⟩
  · exact ⟨hkey, SecretStorageMetadata.valid_toJson hutf8⟩

theorem utf8_toJson {p : EncryptedSecretPayload} (hciphertext : Utf8.valid p.ciphertext = true)
    (hiv : Utf8.valid p.iv = true) (hsalt : Utf8.valid p.salt = true) (halgorithm : Utf8.valid p.algorithm = true)
    (hmetadata : p.metadata.toJson.utf8 = true) : p.toJson.utf8 = true := by
  apply utf8_object
  intro member hmember
  have hkey : Utf8.valid member.1 = true := wireKeys_utf8 _ (p.keys_eq ▸ List.mem_map_of_mem hmember)
  simp only [wireMembers, List.mem_cons, List.not_mem_nil, or_false] at hmember
  obtain rfl | rfl | rfl | rfl | rfl | rfl | rfl := hmember
  · exact ⟨hkey, rfl⟩
  · exact ⟨hkey, hciphertext⟩
  · exact ⟨hkey, hiv⟩
  · exact ⟨hkey, hsalt⟩
  · exact ⟨hkey, halgorithm⟩
  · exact ⟨hkey, rfl⟩
  · exact ⟨hkey, hmetadata⟩

/-- What is read back: the label counts as absent where it was empty. -/
def normalized (p : EncryptedSecretPayload) : EncryptedSecretPayload := { p with metadata := p.metadata.normalized }

theorem fromJson_toJson (p : EncryptedSecretPayload) : fromJson p.toJson = .ok p.normalized := by
  have hversion : p.toJson.find? (ascii "version") = some (.int p.version.toNat) := p.find?_toJson (by simp [wireMembers])
  have hciphertext : p.toJson.find? (ascii "ciphertext") = some (.str p.ciphertext) := p.find?_toJson (by simp [wireMembers])
  have hiv : p.toJson.find? (ascii "iv") = some (.str p.iv) := p.find?_toJson (by simp [wireMembers])
  have hsalt : p.toJson.find? (ascii "salt") = some (.str p.salt) := p.find?_toJson (by simp [wireMembers])
  have halgorithm : p.toJson.find? (ascii "algorithm") = some (.str p.algorithm) := p.find?_toJson (by simp [wireMembers])
  have hiterations : p.toJson.find? (ascii "iterations") = some (.int p.iterations.toNat) :=
    p.find?_toJson (by simp [wireMembers])
  have hmetadata : p.toJson.find? (ascii "metadata") = some p.metadata.toJson := p.find?_toJson (by simp [wireMembers])
  have hobject : p.toJson.isObject = true := rfl
  have hcast (n : UInt32) : UInt32.ofInt (n.toNat : Int) = n := by
    have hlt := n.toNat_lt
    rw [UInt32.ofInt, Int.emod_eq_of_lt (by omega) (by omega), Int.toNat_natCast, UInt32.ofNat_toNat]
  simp only [fromJson, hobject, hversion, hciphertext, hiv, hsalt, halgorithm, hiterations, hmetadata, orDefault, getString,
    Json.string?_str, getUInt32, hcast, SecretStorageMetadata.fromJson_toJson, bind, Except.bind, pure, Except.pure,
    Bool.not_true, Bool.false_eq_true, ↓reduceIte]
  rfl

/-- A payload that could be written is read back. -/
theorem fromString_text (F : Json.FloatText) {p : EncryptedSecretPayload} {text : ByteString} (h : p.text = .ok text) :
    fromString F text = .ok p.normalized := by
  obtain ⟨hutf8, rfl⟩ := dumpJson_ok h
  have hparse : parseJson F p.toJson.text = .ok p.toJson := by
    rw [parseJson, Json.parse_text F _ (valid_toJson hutf8)]
  rw [fromString, hparse]
  change Except.mapError _ (fromJson p.toJson) = _
  rw [fromJson_toJson]
  rfl

end EncryptedSecretPayload

end Text

section Sealing

variable {C : OpenSsl} {call : Nat} {secret passphrase : ByteString} {metadata : SecretStorageMetadata}
  {p : EncryptedSecretPayload}

/-- An ideal AEAD: a ciphertext opens under its key, and under whatever key it opens, to what was sealed. -/
structure OpenSsl.Ideal (C : OpenSsl) : Prop where
  decrypt_encrypt : ∀ key iv plaintext sealed, C.encrypt key iv plaintext = some sealed →
    C.decrypt key iv (sealed.take (sealed.length - 16)) (sealed.drop (sealed.length - 16)) = some plaintext
  authentic : ∀ key key' iv plaintext sealed opened, C.encrypt key iv plaintext = some sealed →
    C.decrypt key' iv (sealed.take (sealed.length - 16)) (sealed.drop (sealed.length - 16)) = some opened →
      opened = plaintext

theorem orThrow_ok {message : String} {r : Option ByteString} {bytes : ByteString} (h : orThrow message r = .ok bytes) :
    r = some bytes := by
  cases r with
  | none => cases h
  | some b => exact congrArg some (Except.ok.inj h)

/-- What a sealed payload is made of. -/
theorem sealSecret_ok (h : sealSecret C call secret passphrase metadata = .ok p) :
    ∃ salt iv key output, C.randBytes call 16 = some salt ∧ C.randBytes (call + 1) 12 = some iv ∧
      deriveKey C passphrase salt defaultIterations = .ok key ∧ C.encrypt key iv secret = some output ∧
      p = { ciphertext := encodeBase64 output, iv := encodeBase64 iv, salt := encodeBase64 salt, metadata } := by
  simp only [sealSecret, bind, Except.bind, pure, Except.pure] at h
  cases hsalt : orThrow "Failed to generate random salt" (C.randBytes call 16) with
  | error e => simp [hsalt] at h
  | ok salt =>
    cases hiv : orThrow "Failed to generate random IV" (C.randBytes (call + 1) 12) with
    | error e => simp [hsalt, hiv] at h
    | ok iv =>
      cases hkey : deriveKey C passphrase salt defaultIterations with
      | error e => simp [hsalt, hiv, hkey] at h
      | ok key =>
        cases houtput : orThrow "AES-256-GCM encryption failed" (C.encrypt key iv secret) with
        | error e => simp [hsalt, hiv, hkey, houtput] at h
        | ok output =>
          simp only [hsalt, hiv, hkey, houtput, Except.ok.injEq] at h
          exact ⟨salt, iv, key, output, orThrow_ok hsalt, orThrow_ok hiv, hkey, orThrow_ok houtput, h.symm⟩

/-- A sealed payload can be written when its metadata can. -/
theorem text_sealSecret (h : sealSecret C call secret passphrase metadata = .ok p) (hmetadata : metadata.toJson.utf8 = true) :
    ∃ text, p.text = .ok text := by
  have hbase64 (data : ByteString) : Utf8.valid (encodeBase64 data) = true :=
    Utf8.valid_of_ascii fun c hc => ascii_of_mem_toBase64 hc
  obtain ⟨salt, iv, key, output, _, _, _, _, hp⟩ := sealSecret_ok h
  have hutf8 : p.toJson.utf8 = true := by
    subst hp
    exact EncryptedSecretPayload.utf8_toJson (hbase64 output) (hbase64 iv) (hbase64 salt)
      (show Utf8.valid (ascii "AES-GCM") = true by decide) hmetadata
  exact ⟨_, by rw [EncryptedSecretPayload.text, dumpJson, Json.dump_of_utf8 hutf8]⟩

/-- Opening a sealed payload comes down to the key of the passphrase and the decryption. -/
theorem openPayload_eq (C : OpenSsl) {iv output salt : ByteString} (hiv : iv.length = 12) (houtput : 16 ≤ output.length)
    (metadata : SecretStorageMetadata) (passphrase : ByteString) :
    openPayload C { ciphertext := encodeBase64 output, iv := encodeBase64 iv, salt := encodeBase64 salt, metadata }
        passphrase =
      (deriveKey C passphrase salt defaultIterations).bind fun key =>
        match C.decrypt key iv (output.take (output.length - 16)) (output.drop (output.length - 16)) with
        | some plaintext => .ok plaintext
        | none => .error (.decryptionFailed (ascii "Authentication tag mismatch or decryption failure")) := by
  have hdecoded (name : String) (data : ByteString) : decodeField name (encodeBase64 data) = .ok data := by
    rw [decodeField, decodeBase64_encodeBase64]
    rfl
  have hlength : ¬ iv.length ≠ 12 := not_not.mpr hiv
  have hshort : ¬ output.length < 16 := not_lt.mpr houtput
  cases hkey : deriveKey C passphrase salt defaultIterations with
  | error e =>
    simp [openPayload, hdecoded, hlength, hshort, bind, Except.bind, hkey]
  | ok key =>
    cases hplain : C.decrypt key iv (output.take (output.length - 16)) (output.drop (output.length - 16)) with
    | none => simp [openPayload, hdecoded, hlength, hshort, bind, Except.bind, hkey, hplain, throw, throwThe,
        MonadExceptOf.throw]
    | some plaintext => simp [openPayload, hdecoded, hlength, hshort, bind, Except.bind, hkey, hplain, pure, Except.pure]

/-- A sealed secret opens under its passphrase. -/
theorem openPayload_sealSecret (hC : C.Ideal) (h : sealSecret C call secret passphrase metadata = .ok p) :
    openPayload C p.normalized passphrase = .ok secret := by
  obtain ⟨salt, iv, key, output, -, hiv, hkey, houtput, rfl⟩ := sealSecret_ok h
  have hlength := C.length_encrypt _ _ _ _ houtput
  rw [EncryptedSecretPayload.normalized, openPayload_eq C (C.length_randBytes _ _ _ hiv) (by omega), hkey]
  simp only [Except.bind, hC.decrypt_encrypt _ _ _ _ houtput]

/-- Whatever passphrase opens a sealed secret, it is that secret. -/
theorem openPayload_authentic (hC : C.Ideal) (h : sealSecret C call secret passphrase metadata = .ok p)
    {passphrase' opened : ByteString} (hopen : openPayload C p.normalized passphrase' = .ok opened) : opened = secret := by
  obtain ⟨salt, iv, key, output, -, hiv, _, houtput, rfl⟩ := sealSecret_ok h
  have hlength := C.length_encrypt _ _ _ _ houtput
  rw [EncryptedSecretPayload.normalized, openPayload_eq C (C.length_randBytes _ _ _ hiv) (by omega)] at hopen
  cases hkey : deriveKey C passphrase' salt defaultIterations with
  | error e => simp [hkey, Except.bind] at hopen
  | ok key' =>
    simp only [hkey, Except.bind] at hopen
    split at hopen
    next plaintext hplain =>
      obtain rfl := Except.ok.inj hopen
      exact hC.authentic _ _ _ _ _ _ houtput hplain
    next => cases hopen

end Sealing

end KnishIO
