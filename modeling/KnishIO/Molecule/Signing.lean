import KnishIO.Molecule.SignVerify

open ByteString

namespace KnishIO

namespace Molecule

section Cases

variable {H : Shake256} {secret : ByteString} {anonymous compressed : Bool} {m : Molecule} {front : Atom} {rest : List Atom}

/-- The bundle that signing leaves. -/
def signedBundle (H : Shake256) (secret : ByteString) (anonymous : Bool) (m : Molecule) : ByteString :=
  if anonymous then m.bundle else Wallet.generateBundleHash H secret

theorem sign_exec_empty (H : Shake256) (secret : ByteString) (anonymous compressed : Bool) (hatoms : m.atoms = []) :
    (sign H secret anonymous compressed).exec m = (.error .atomsNotFound, m) := by
  simp [sign, hatoms]

/-- Without a hash only the bundle has been written. -/
theorem sign_exec_unhashed (secret : ByteString) (anonymous compressed : Bool) (hatoms : m.atoms = front :: rest) {e : Exception}
    (hhash : Atom.hashAtomsBase17 H m.atoms = .error e) :
    (sign H secret anonymous compressed).exec m = (.error e, { m with bundle := signedBundle H secret anonymous m }) := by
  rw [hatoms] at hhash
  cases anonymous with
  | false => simp [sign, hatoms, hhash, signedBundle]
  | true =>
    simp only [sign, hatoms, hhash, signedBundle, Act.exec_bind, Act.exec_get, Act.andThen_ok, Act.exec_ofExcept,
      Act.andThen_error, Bool.not_true, Bool.false_eq_true, ↓reduceIte]
    rw [← hatoms]

/-- Without a key the bundle and the hash have been written. -/
theorem sign_exec_unkeyed (anonymous compressed : Bool) (hatoms : m.atoms = front :: rest) {hash : ByteString} {e : Exception}
    (hhash : Atom.hashAtomsBase17 H m.atoms = .ok hash)
    (hkey : Wallet.generateWalletKey H secret front.token front.position m.signingOtsVersion = .error e) :
    (sign H secret anonymous compressed).exec m =
      (.error e, { m with bundle := signedBundle H secret anonymous m, molecularHash := hash }) := by
  have hsignable := hashAtomsBase17_signable hhash
  have hkey' (m' : Molecule) (hsource : m'.sourceWallet = m.sourceWallet) :
      Wallet.generateWalletKey H secret front.token front.position m'.signingOtsVersion = .error e := by
    rwa [signingOtsVersion, hsource]
  rw [hatoms] at hhash
  cases anonymous <;> simp [sign, hatoms, hhash, hsignable, hkey', signedBundle]

/-- Signing throws for want of atoms, a hash or a key, or it signs. -/
theorem sign_cases (H : Shake256) (secret : ByteString) (compressed : Bool) (m : Molecule) :
    m.atoms = [] ∨ ∃ front rest, m.atoms = front :: rest ∧
      ((∃ e, Atom.hashAtomsBase17 H m.atoms = .error e) ∨
        ∃ hash, Atom.hashAtomsBase17 H m.atoms = .ok hash ∧
          ((∃ e, Wallet.generateWalletKey H secret front.token front.position m.signingOtsVersion = .error e) ∨
            ∃ key signature, Wallet.generateWalletKey H secret front.token front.position m.signingOtsVersion = .ok key ∧
              oneTimeSignature H key hash compressed = .ok signature)) := by
  cases hatoms : m.atoms with
  | nil => exact .inl rfl
  | cons front rest =>
    refine .inr ⟨front, rest, rfl, ?_⟩
    cases hhash : Atom.hashAtomsBase17 H (front :: rest) with
    | error e => exact .inl ⟨e, rfl⟩
    | ok hash =>
      refine .inr ⟨hash, rfl, ?_⟩
      cases hkey : Wallet.generateWalletKey H secret front.token front.position m.signingOtsVersion with
      | error e => exact .inl ⟨e, rfl⟩
      | ok key =>
        obtain ⟨signature, hsig, -⟩ := oneTimeSignature_ok hkey (hashAtomsBase17_signable hhash) compressed
        exact .inr ⟨key, signature, rfl, hsig⟩

end Cases

section Signable

variable {H : Shake256} {atoms : List Atom} {e : Exception}

/-- The number that big-endian bytes denote. -/
def bytesNumber (data : ByteString) : Nat := Radix.value 256 (data.map UInt8.toNat)

theorem hexNumber_toHexString (data : ByteString) : hexNumber (toHexString data) = bytesNumber data := by
  induction data using List.reverseRecOn with
  | nil => rfl
  | append_singleton data byte ih =>
    have hbyte := byte.toNat_lt
    have htext : toHexString (data ++ [byte]) =
        toHexString data ++ [Json.hexDigit (byte.toNat / 16)] ++ [Json.hexDigit (byte.toNat % 16)] := by
      simp [toHexString]
    rw [htext, hexNumber, List.map_append, List.map_append, List.map_singleton, List.map_singleton,
      Radix.value_append_singleton, Radix.value_append_singleton, (hexDigit_props (n := byte.toNat / 16) (by omega)).2.2,
      (hexDigit_props (n := byte.toNat % 16) (by omega)).2.2, bytesNumber, List.map_append, List.map_singleton,
      Radix.value_append_singleton]
    rw [hexNumber, bytesNumber] at ih
    rw [ih]
    omega

theorem mem_base17 {c : UInt8} (hc : WalletCrypto.isBase17 c = true) : c ∈ ascii "0123456789abcdefg" :=
  forall_byte_of_fin (P := fun c => WalletCrypto.isBase17 c = true → c ∈ ascii "0123456789abcdefg") (by decide +kernel) c hc

theorem hashAtoms_error (h : Atom.hashAtomsBase17 H atoms = .error e) : e = .jsonUtf8 := by
  rw [Atom.hashAtomsBase17_eq, Atom.hashAtoms] at h
  split at h
  · unfold Atom.version4ViewJson dumpJson at h
    cases hdump : (Atom.version4View atoms).dump with
    | none =>
      rw [hdump] at h
      exact (Except.error.inj h).symm
    | some text =>
      rw [hdump] at h
      cases h
  · cases h

theorem generateWalletKey_error {secret token position : ByteString} {version : Int}
    (h : Wallet.generateWalletKey H secret token position version = .error e) : e.kind = .invalidArgument := by
  obtain ⟨sum, hsum⟩ := WalletCrypto.constantTimeHexAdd_ok (Wallet.isValidHex_hexOrDigest H secret 1024 (by norm_num))
    (Wallet.isValidHex_hexOrDigest H position 256 (by norm_num))
  unfold Wallet.generateWalletKey at h
  cases hversion : Wallet.checkedOtsVersion version with
  | error e' =>
    rw [hversion] at h
    obtain rfl := Except.error.inj h
    unfold Wallet.checkedOtsVersion at hversion
    split at hversion
    · obtain rfl := Except.error.inj hversion
      rfl
    · cases hversion
  | ok checked =>
    rw [hversion, hsum] at h
    dsimp only at h
    split at h
    · obtain rfl := Except.error.inj h
      rfl
    split at h
    · obtain rfl := Except.error.inj h
      rfl
    · cases h

/-- Signing never finds a hash that it cannot sign. -/
theorem sign_error_kind {secret : ByteString} {anonymous compressed : Bool} {m : Molecule}
    (h : ((sign H secret anonymous compressed).exec m).1 = .error e) : e.kind ≠ .signatureMalformed := by
  obtain hatoms | ⟨front, rest, hatoms, ⟨e', hhash⟩ | ⟨hash, hhash, ⟨e', hkey⟩ | ⟨key, signature, hkey, hsig⟩⟩⟩ :=
    sign_cases H secret compressed m
  · rw [sign_exec_empty H secret anonymous compressed hatoms] at h
    obtain rfl := Except.error.inj h
    exact nofun
  · rw [sign_exec_unhashed secret anonymous compressed hatoms hhash] at h
    obtain rfl := Except.error.inj h
    obtain rfl := hashAtoms_error hhash
    exact nofun
  · rw [sign_exec_unkeyed anonymous compressed hatoms hhash hkey] at h
    obtain rfl := Except.error.inj h
    rw [generateWalletKey_error hkey]
    exact nofun
  · rw [sign_exec hatoms anonymous hhash hkey hsig] at h
    cases h

/-- The molecular hash of a list that can be hashed is signable, denotes the digest, and belongs to no other digest;
and no molecule at all has a hash that signing refuses. -/
theorem hashAtomsBase17_lossless (H : Shake256) (atoms : List Atom) :
    (((∀ a ∈ atoms, a.version.isSome) → ∀ a ∈ atoms, a.ValidUtf8) →
      ∃ digest hash, Atom.hashAtoms H atoms = .ok digest ∧ Atom.hashAtomsBase17 H atoms = .ok hash ∧
        digest.length = 32 ∧ hash.length = 64 ∧ (∀ c ∈ hash, c ∈ ascii "0123456789abcdefg") ∧
        WalletCrypto.isSignableHash hash = true ∧
        Radix.value 17 (hash.map hexDigitValue) = bytesNumber digest ∧
        ∀ others digest', Atom.hashAtoms H others = .ok digest' → digest' ≠ digest →
          Atom.hashAtomsBase17 H others ≠ .ok hash) ∧
      ∀ (m : Molecule) secret anonymous compressed e,
        ((sign H secret anonymous compressed).exec m).1 = .error e → e.kind ≠ .signatureMalformed := by
  refine ⟨fun hutf8 => ?_, fun m secret anonymous compressed e h => sign_error_kind h⟩
  obtain ⟨hash, hhash⟩ := Atom.hashAtomsBase17_ok H hutf8
  have hbase17 := hhash
  rw [Atom.hashAtomsBase17_eq] at hbase17
  cases hdigest : Atom.hashAtoms H atoms with
  | error e => simp [hdigest, Except.map] at hbase17
  | ok digest =>
    rw [hdigest] at hbase17
    obtain rfl := Except.ok.inj hbase17
    have hlength := Atom.length_hashAtoms hdigest
    have hsignable := Atom.isSignableHash_base17 hlength
    have hform : (Atom.base17 digest).length = 64 ∧ (Atom.base17 digest).all WalletCrypto.isBase17 = true := by
      simpa [WalletCrypto.isSignableHash] using hsignable
    refine ⟨digest, _, rfl, hhash, hlength, hform.1, fun c hc => ?_, hsignable, ?_, ?_⟩
    · exact mem_base17 (List.all_eq_true.mp hform.2 c hc)
    · rw [Atom.value_base17 hlength, hexNumber_toHexString]
    · intro others digest' hdigest' hne hsame
      rw [Atom.hashAtomsBase17_eq, hdigest'] at hsame
      exact hne (Atom.base17_injective (Atom.length_hashAtoms hdigest') hlength (Except.ok.inj hsame))

theorem hashAtomsBase17_lossless_unsigned :
    ∃ digest hash, Atom.hashAtoms (.constant 0) [unsignedAtom, { unsignedAtom with index := 1 }] = .ok digest ∧
      Atom.hashAtomsBase17 (.constant 0) [unsignedAtom, { unsignedAtom with index := 1 }] = .ok hash ∧
        WalletCrypto.isSignableHash hash = true ∧ Radix.value 17 (hash.map hexDigitValue) = bytesNumber digest := by
  obtain ⟨digest, hash, hdigest, hhash, -, -, -, hsignable, hvalue, -⟩ :=
    (hashAtomsBase17_lossless (.constant 0) [unsignedAtom, { unsignedAtom with index := 1 }]).1 (by simp [unsignedAtom])
  exact ⟨digest, hash, hdigest, hhash, hsignable, hvalue⟩

/-- A versioned list with a field that is not UTF-8 has no molecular hash. -/
theorem hashAtomsBase17_garbled : Atom.hashAtomsBase17 (.constant 0) [garbledAtom] = .error .jsonUtf8 := by
  have hview : (Atom.version4View [garbledAtom]).utf8 = false := by
    rw [Atom.version4View, List.mergeSort_singleton]
    decide
  have hversioned : Atom.allVersioned [garbledAtom] = true := rfl
  simp [Atom.hashAtomsBase17_eq, Atom.hashAtoms, hversioned, Atom.version4ViewJson, dumpJson, Json.dump, hview, Except.map]

end Signable

section Fragments

variable {H : Shake256} {m : Molecule}

/-- The arguments of one call of `sign`. -/
structure SignCall where
  secret : ByteString
  anonymous : Bool
  compressed : Bool

def SignCall.run (H : Shake256) (call : SignCall) : Act Exception Molecule ByteString :=
  sign H call.secret call.anonymous call.compressed

/-- The length of a signature of an OTS version. -/
def signatureLength (version : Int) (compressed : Bool) : Nat :=
  if version = 2 then (if compressed then 5464 else 8192) else if compressed then 1368 else 2048

/-- How many of a number of atoms a text is cut for. -/
def fragmentCount (length atoms : Nat) : Nat :=
  let size := (length + atoms - 1) / atoms
  (length + size - 1) / size

/-- How many atoms a call writes to. -/
def SignCall.writes (call : SignCall) (m : Molecule) : Nat :=
  fragmentCount (signatureLength m.signingOtsVersion call.compressed) m.atoms.length

theorem length_oneTimeSignature {secret token position key hash signature : ByteString} {version : Int} {compressed : Bool}
    (hkey : Wallet.generateWalletKey H secret token position version = .ok key)
    (hhash : WalletCrypto.isSignableHash hash = true) (hsig : oneTimeSignature H key hash compressed = .ok signature) :
    signature.length = signatureLength version compressed := by
  obtain ⟨data, hlength, -, hplain, hbase64⟩ := oneTimeSignature_bytes hkey hhash
  rw [(Wallet.generateWalletKey_form hkey).1] at hlength
  cases compressed with
  | false =>
    obtain rfl := Except.ok.inj (hplain.symm.trans hsig)
    rw [length_toHexString, hlength, signatureLength]
    rfl
  | true =>
    obtain rfl := Except.ok.inj (hbase64.symm.trans hsig)
    rw [length_toBase64, signatureLength]
    split at hlength
    next hversion =>
      rw [if_pos hversion, if_pos rfl]
      omega
    next hversion =>
      rw [if_neg hversion, if_pos rfl]
      omega

theorem length_fragmentsFor (signature : ByteString) :
    (m.fragmentsFor signature).length = fragmentCount signature.length m.atoms.length := length_blocks _

theorem fragmentsFor_ne_nil {signature fragment : ByteString} (h : fragment ∈ m.fragmentsFor signature) : fragment ≠ [] := by
  obtain ⟨i, hi, rfl⟩ := List.mem_map.mp h
  generalize (signature.length + m.atoms.length - 1) / m.atoms.length = size at hi ⊢
  have hsize : 0 < size := by
    by_contra hzero
    obtain rfl : size = 0 := by omega
    simp at hi
  have hstart : i * size < signature.length := by
    have hlt := (Nat.le_div_iff_mul_le hsize).mp (Nat.succ_le_of_lt (List.mem_range.mp hi))
    rw [Nat.succ_mul] at hlt
    omega
  refine List.ne_nil_of_length_pos ?_
  rw [List.length_take, List.length_drop]
  omega

theorem drop_assignFragments (n : Nat) (atoms : List Atom) (fragments : List ByteString) :
    (assignFragments atoms fragments).drop n = assignFragments (atoms.drop n) (fragments.drop n) := by
  induction n generalizing atoms fragments with
  | zero => rfl
  | succ n ih =>
    cases atoms with
    | nil => cases fragments <;> simp [assignFragments]
    | cons a as =>
      cases fragments with
      | nil => simp [assignFragments]
      | cons f fs => exact ih as fs

theorem assignFragments_nil (atoms : List Atom) : assignFragments atoms [] = atoms := by
  cases atoms <;> rfl

/-- Assigning twice is assigning once, unless the first call reaches an atom that the second one does not. -/
theorem assignFragments_assignFragments (atoms : List Atom) (fragments₁ fragments₂ : List ByteString) :
    assignFragments (assignFragments atoms fragments₁) fragments₂ = assignFragments atoms fragments₂ ↔
      assignFragments (atoms.drop fragments₂.length) (fragments₁.drop fragments₂.length) = atoms.drop fragments₂.length := by
  induction fragments₂ generalizing atoms fragments₁ with
  | nil => rw [assignFragments_nil, assignFragments_nil, List.length_nil, List.drop_zero, List.drop_zero]
  | cons f₂ fs₂ ih =>
    cases atoms with
    | nil => cases fragments₁ <;> simp [assignFragments]
    | cons a as =>
      cases fragments₁ with
      | nil => simp [assignFragments_nil]
      | cons f₁ fs₁ =>
        have htail := ih as fs₁
        simpa [assignFragments] using htail

/-- Atoms that are left without fragments were written nothing to. -/
theorem assignFragments_empty_iff {atoms : List Atom} {fragments : List ByteString} (hne : ∀ f ∈ fragments, f ≠ []) :
    (∀ a ∈ assignFragments atoms fragments, a.otsFragment = []) ↔
      atoms = [] ∨ fragments = [] ∧ ∀ a ∈ atoms, a.otsFragment = [] := by
  cases atoms with
  | nil => cases fragments <;> simp [assignFragments]
  | cons a as =>
    cases fragments with
    | nil => simp [assignFragments]
    | cons f fs =>
      have hf := hne f List.mem_cons_self
      simp [assignFragments, hf]

end Fragments

section Resigning

variable {H : Shake256} {m m₁ m₂ : Molecule} {first second : SignCall} {position position₁ position₂ : ByteString}

/-- The signature that a call makes. -/
def newSignature (H : Shake256) (call : SignCall) (m : Molecule) : Throws ByteString :=
  match m.atoms with
  | [] => .error .atomsNotFound
  | front :: _ => do
    let hash ← Atom.hashAtomsBase17 H m.atoms
    let key ← Wallet.generateWalletKey H call.secret front.token front.position m.signingOtsVersion
    oneTimeSignature H key hash call.compressed

/-- What a call that returns found and left. -/
theorem SignCall.run_ok {call : SignCall} (h : (call.run H).exec m = (.ok position, m₁)) :
    ∃ front rest hash key signature, m.atoms = front :: rest ∧ Atom.hashAtomsBase17 H m.atoms = .ok hash ∧
      Wallet.generateWalletKey H call.secret front.token front.position m.signingOtsVersion = .ok key ∧
      oneTimeSignature H key hash call.compressed = .ok signature ∧ newSignature H call m = .ok signature ∧
      signature.length = signatureLength m.signingOtsVersion call.compressed ∧
      m₁ = m.signed H call.secret call.anonymous hash signature := by
  cases hatoms : m.atoms with
  | nil =>
    rw [SignCall.run, sign_exec_empty H call.secret call.anonymous call.compressed hatoms] at h
    cases h
  | cons front rest =>
    obtain ⟨hash, key, signature, hhash, hkey, hsig, rfl⟩ := sign_ok_inv hatoms h
    refine ⟨front, rest, hash, key, signature, rfl, hatoms ▸ hhash, hkey, hsig, ?_,
      length_oneTimeSignature hkey (hashAtomsBase17_signable hhash) hsig, rfl⟩
    simp [newSignature, hatoms, hatoms ▸ hhash, hkey, hsig, bind, Except.bind]

theorem length_fragmentsFor_signature {call : SignCall} {signature : ByteString}
    (h : signature.length = signatureLength m.signingOtsVersion call.compressed) :
    (m.fragmentsFor signature).length = call.writes m := by
  rw [length_fragmentsFor, h]
  rfl

theorem carriedOts_signed_iff (hne : m.atoms ≠ []) (secret : ByteString) (anonymous : Bool) (hash signature : ByteString) :
    (m.signed H secret anonymous hash signature).carriedOts = signature ↔
      ∀ a ∈ m.atoms.drop (m.fragmentsFor signature).length, a.otsFragment = [] := by
  have hle : (m.fragmentsFor signature).length ≤ m.atoms.length := length_chunkSubstr_le (List.length_pos_of_ne_nil hne)
  change (assignFragments m.atoms (m.fragmentsFor signature)).flatMap (·.otsFragment) = signature ↔ _
  rw [carried_assignFragments hle, flatten_fragmentsFor hne, List.append_right_eq_self, List.flatMap_eq_nil_iff]

/-- The atoms carry the new signature only, if and only if those behind its last fragment were empty. -/
theorem carries_iff {call : SignCall} (h : (call.run H).exec m = (.ok position, m₁)) :
    newSignature H call m = .ok m₁.carriedOts ↔ ∀ a ∈ m.atoms.drop (call.writes m), a.otsFragment = [] := by
  obtain ⟨front, rest, hash, key, signature, hatoms, -, -, -, hnew, hlength, rfl⟩ := SignCall.run_ok h
  have hne : m.atoms ≠ [] := hatoms ▸ List.cons_ne_nil _ _
  rw [hnew, ← length_fragmentsFor_signature hlength, ← carriedOts_signed_iff hne call.secret call.anonymous hash, eq_comm]
  exact ⟨Except.ok.inj, congrArg _⟩

theorem lastPosition_eq (atoms : List Atom) (n : Nat) :
    (atoms.take n).getLast?.elim [] (·.position) = ((atoms.map (·.position)).take n).getLast?.getD [] := by
  rw [← List.map_take, List.getLast?_map]
  cases (atoms.take n).getLast? <;> rfl

/-- A call makes the same signature after another one. -/
theorem run_again (hfirst : (first.run H).exec m = (.ok position₁, m₁)) (hsecond : (second.run H).exec m = (.ok position₂, m₂)) :
    ∃ hash signature₁ signature₂, m₁ = m.signed H first.secret first.anonymous hash signature₁ ∧
      m₂ = m.signed H second.secret second.anonymous hash signature₂ ∧
      (m.fragmentsFor signature₁).length = first.writes m ∧ (m.fragmentsFor signature₂).length = second.writes m ∧
      m₁.fragmentsFor signature₂ = m.fragmentsFor signature₂ ∧ second.writes m₁ = second.writes m ∧
      (second.run H).exec m₁ = (.ok position₂, m₁.signed H second.secret second.anonymous hash signature₂) := by
  obtain ⟨front, rest, hash, key₁, signature₁, hatoms, hhash, -, -, -, hlength₁, rfl⟩ := SignCall.run_ok hfirst
  obtain ⟨front', rest', hash', key₂, signature₂, hatoms', hhash', hkey, hsig, -, hlength₂, rfl⟩ := SignCall.run_ok hsecond
  obtain ⟨rfl, rfl⟩ := List.cons.inj (hatoms.symm.trans hatoms')
  obtain rfl := Except.ok.inj (hhash.symm.trans hhash')
  let once := m.signed H first.secret first.anonymous hash signature₁
  obtain ⟨fragment, rest', honce⟩ := exists_front_signed hatoms H first.secret first.anonymous hash signature₁
  have hrehash : Atom.hashAtomsBase17 H once.atoms = .ok hash :=
    (Atom.hashAtomsBase17_congr H (assignFragments_unsigned _ _)).trans hhash
  have hpositions : once.atoms.map (·.position) = m.atoms.map (·.position) := by
    have hsame := congrArg (List.map (·.position)) (assignFragments_unsigned m.atoms (m.fragmentsFor signature₁))
    rw [List.map_map, List.map_map] at hsame
    exact hsame
  have hcount : once.atoms.length = m.atoms.length := by
    have hsame := congrArg List.length hpositions
    rwa [List.length_map, List.length_map] at hsame
  have hpieces : once.fragmentsFor signature₂ = m.fragmentsFor signature₂ := by rw [fragmentsFor, fragmentsFor, hcount]
  refine ⟨hash, signature₁, signature₂, rfl, rfl, length_fragmentsFor_signature hlength₁,
    length_fragmentsFor_signature hlength₂, hpieces, ?_, ?_⟩
  · rw [SignCall.writes, SignCall.writes, hcount]
    rfl
  · have hposition := congrArg Prod.fst ((sign_exec hatoms second.anonymous hhash hkey hsig).symm.trans hsecond)
    refine (sign_exec honce second.anonymous hrehash hkey hsig).trans (Prod.ext ?_ rfl)
    refine Eq.trans ?_ hposition
    rw [hpieces, lastPosition_eq, lastPosition_eq, hpositions]

/-- What the first call wrote is gone. -/
def Cleared (first second : SignCall) (m : Molecule) : Prop :=
  m.atoms.length ≤ second.writes m ∨
    first.writes m ≤ second.writes m ∧ ∀ a ∈ m.atoms.drop (second.writes m), a.otsFragment = []

/-- A second call leaves its own signature only, if and only if nothing that the first call wrote stays. -/
theorem recarries_iff (hfirst : (first.run H).exec m = (.ok position₁, m₁))
    (hsecond : (second.run H).exec m = (.ok position₂, m₂))
    {twice : Molecule} (htwice : (second.run H).exec m₁ = (.ok position, twice)) :
    newSignature H second m₁ = .ok twice.carriedOts ↔ Cleared first second m := by
  obtain ⟨hash, signature₁, signature₂, rfl, -, hlength₁, -, -, hwrites, -⟩ := run_again hfirst hsecond
  have hpiece : ∀ f ∈ (m.fragmentsFor signature₁).drop (second.writes m), f ≠ [] := fun f hf =>
    fragmentsFor_ne_nil (List.mem_of_mem_drop hf)
  have hdrop : (m.signed H first.secret first.anonymous hash signature₁).atoms.drop (second.writes m) =
      assignFragments (m.atoms.drop (second.writes m)) ((m.fragmentsFor signature₁).drop (second.writes m)) :=
    drop_assignFragments _ _ _
  rw [carries_iff htwice, hwrites, hdrop, assignFragments_empty_iff hpiece, List.drop_eq_nil_iff, List.drop_eq_nil_iff,
    hlength₁]
  rfl

theorem Cleared.assigned {signature₁ signature₂ : ByteString} (h : Cleared first second m)
    (hlength₁ : (m.fragmentsFor signature₁).length = first.writes m)
    (hlength₂ : (m.fragmentsFor signature₂).length = second.writes m) :
    assignFragments (assignFragments m.atoms (m.fragmentsFor signature₁)) (m.fragmentsFor signature₂) =
      assignFragments m.atoms (m.fragmentsFor signature₂) := by
  refine (assignFragments_assignFragments _ _ _).mpr ?_
  rw [hlength₂]
  obtain hall | ⟨hfewer, -⟩ := h
  · rw [List.drop_eq_nil_of_le hall]
    cases (m.fragmentsFor signature₁).drop (second.writes m) <;> rfl
  · rw [List.drop_eq_nil_of_le (hlength₁.trans_le hfewer), assignFragments_nil]

/-- A second call after a first one: the molecule carries the second signature only, and is what the second call alone
would have made, if and only if nothing of the first call stays. -/
theorem resigned_iff (hfirst : (first.run H).exec m = (.ok position₁, m₁))
    (hsecond : (second.run H).exec m = (.ok position₂, m₂)) :
    (∃ twice, (second.run H).exec m₁ = (.ok position₂, twice) ∧ newSignature H second m₁ = .ok twice.carriedOts ∧ twice = m₂) ↔
      Cleared first second m ∧ (second.anonymous = false ∨ signedBundle H first.secret first.anonymous m = m.bundle) := by
  obtain ⟨hash, signature₁, signature₂, rfl, rfl, hlength₁, hlength₂, hpieces, hwrites, hagain⟩ := run_again hfirst hsecond
  have hcarries := recarries_iff hfirst hsecond hagain
  have hbundle : ((m.signed H first.secret first.anonymous hash signature₁).signed H second.secret second.anonymous hash
      signature₂).bundle = (m.signed H second.secret second.anonymous hash signature₂).bundle ↔
        (second.anonymous = false ∨ signedBundle H first.secret first.anonymous m = m.bundle) := by
    cases hanonymous : second.anonymous with
    | false => simp [Molecule.signed]
    | true => simp [Molecule.signed, signedBundle]
  constructor
  · rintro ⟨twice, hrun, hnew, hsame⟩
    obtain rfl := (Prod.mk.inj (hagain.symm.trans hrun)).2
    exact ⟨hcarries.mp hnew, hbundle.mp (congrArg (·.bundle) hsame)⟩
  · rintro ⟨hcleared, hkept⟩
    refine ⟨_, hagain, hcarries.mpr hcleared, ?_⟩
    have hatoms : ((m.signed H first.secret first.anonymous hash signature₁).signed H second.secret second.anonymous hash
        signature₂).atoms = (m.signed H second.secret second.anonymous hash signature₂).atoms := by
      change assignFragments _ ((m.signed H first.secret first.anonymous hash signature₁).fragmentsFor signature₂) = _
      rw [hpieces]
      exact hcleared.assigned hlength₁ hlength₂
    have hsame := hbundle.mpr hkept
    simp only [Molecule.signed] at hatoms hsame ⊢
    rw [hatoms, hsame]

/-- A call leaves its own signature on the atoms, and a second call leaves what it would have left alone, if and only if
no atom keeps an earlier fragment, and no anonymous call an earlier bundle. -/
theorem signing_independent_iff (H : Shake256) {m m₁ m₂ : Molecule} {first second : SignCall} {position₁ position₂ : ByteString}
    (hfirst : (first.run H).exec m = (.ok position₁, m₁)) (hsecond : (second.run H).exec m = (.ok position₂, m₂)) :
    (newSignature H second m = .ok m₂.carriedOts ↔ ∀ a ∈ m.atoms.drop (second.writes m), a.otsFragment = []) ∧
      ((∃ twice, (second.run H).exec m₁ = (.ok position₂, twice) ∧ newSignature H second m₁ = .ok twice.carriedOts ∧
          twice = m₂) ↔
        Cleared first second m ∧ (second.anonymous = false ∨ signedBundle H first.secret first.anonymous m = m.bundle)) :=
  ⟨carries_iff hsecond, resigned_iff hfirst hsecond⟩

section Example

/-- A molecule of thirty-nine atoms that were never signed. -/
def thirtyNine : Molecule := { atoms := List.replicate 39 unsignedAtom, createdAt := 0 }

/-- A call with that secret. -/
def callWith (compressed : Bool) : SignCall := ⟨ascii "5ec7e7", false, compressed⟩

theorem thirtyNine_signs (compressed : Bool) :
    ∃ position m', ((callWith compressed).run (.constant 0)).exec thirtyNine = (.ok position, m') := by
  obtain ⟨hash, key, signature, hhash, hkey, -, hsig⟩ := sign_ready (m := thirtyNine) unsignedAtom
    addressAt_unsignedAtom (fun h => by simp [thirtyNine, unsignedAtom] at h) compressed
  have hatoms : thirtyNine.atoms = unsignedAtom :: List.replicate 38 unsignedAtom := rfl
  exact ⟨_, _, sign_exec hatoms false hhash hkey hsig⟩

theorem signing_independent_iff_uncompressed :
    ∃ position₁ position₂ once compressed, ((callWith false).run (.constant 0)).exec thirtyNine = (.ok position₁, once) ∧
      ((callWith true).run (.constant 0)).exec thirtyNine = (.ok position₂, compressed) ∧
      (newSignature (.constant 0) (callWith true) thirtyNine = .ok compressed.carriedOts ↔
        ∀ a ∈ thirtyNine.atoms.drop ((callWith true).writes thirtyNine), a.otsFragment = []) ∧
      ((∃ twice, ((callWith true).run (.constant 0)).exec once = (.ok position₂, twice) ∧
          newSignature (.constant 0) (callWith true) once = .ok twice.carriedOts ∧ twice = compressed) ↔
        Cleared (callWith false) (callWith true) thirtyNine ∧ ((callWith true).anonymous = false ∨
          signedBundle (.constant 0) (callWith false).secret (callWith false).anonymous thirtyNine = thirtyNine.bundle)) := by
  obtain ⟨position₁, once, hfirst⟩ := thirtyNine_signs false
  obtain ⟨position₂, compressed, hsecond⟩ := thirtyNine_signs true
  obtain ⟨hcarries, hresigned⟩ := signing_independent_iff (.constant 0) hfirst hsecond
  exact ⟨position₁, position₂, once, compressed, hfirst, hsecond, hcarries, hresigned⟩

/-- Signed again in compressed form, the last atom keeps its uncompressed fragment. -/
theorem sign_keeps_fragment :
    ∃ position₁ position₂ once twice, ((callWith false).run (.constant 0)).exec thirtyNine = (.ok position₁, once) ∧
      ((callWith true).run (.constant 0)).exec once = (.ok position₂, twice) ∧
      newSignature (.constant 0) (callWith true) once ≠ .ok twice.carriedOts := by
  obtain ⟨position₁, once, hfirst⟩ := thirtyNine_signs false
  obtain ⟨position₂, compressed, hsecond⟩ := thirtyNine_signs true
  obtain ⟨hash, signature₁, signature₂, -, -, -, -, -, -, hagain⟩ := run_again hfirst hsecond
  refine ⟨position₁, position₂, once, _, hfirst, hagain, fun hcarried => ?_⟩
  have hwrites : (callWith true).writes thirtyNine = 38 ∧ (callWith false).writes thirtyNine = 39 ∧
      thirtyNine.atoms.length = 39 := by decide
  obtain hall | ⟨hfewer, -⟩ := (recarries_iff hfirst hsecond hagain).mp hcarried <;> omega

end Example

end Resigning

end Molecule

end KnishIO
