import KnishIO.Molecule.Normalize

open ByteString

namespace KnishIO

namespace Atom

/-- The atom without its signature fragment. -/
def unsigned (atom : Atom) : Atom := { atom with otsFragment := [] }

/-- No hash reads the signature fragments. -/
theorem hashAtoms_unsigned (H : Shake256) (atoms : List Atom) : hashAtoms H (atoms.map unsigned) = hashAtoms H atoms := by
  have hversioned : allVersioned (atoms.map unsigned) = allVersioned atoms := by
    cases atoms with
    | nil => rfl
    | cons a as => simp [allVersioned, unsigned, List.all_map, Function.comp_def]
  have hsponge : molecularSponge (atoms.map unsigned) = molecularSponge atoms := by
    simp only [molecularSponge, List.flatMap_map, List.length_map]
    rfl
  have hview : version4View (atoms.map unsigned) = version4View atoms := by
    rw [version4View, version4View, ← List.map_mergeSort (r := fun a b => decide (a.index ≤ b.index))
      (f := unsigned) (fun _ _ _ _ => rfl), List.map_map]
    rfl
  rw [hashAtoms, hashAtoms, hversioned, hsponge, version4ViewJson, version4ViewJson, hview]

theorem hashAtomsBase17_congr (H : Shake256) {atoms atoms' : List Atom} (h : atoms.map unsigned = atoms'.map unsigned) :
    hashAtomsBase17 H atoms = hashAtomsBase17 H atoms' := by
  rw [hashAtomsBase17_eq, hashAtomsBase17_eq, ← hashAtoms_unsigned H atoms, h, hashAtoms_unsigned]

end Atom

namespace Molecule

/-- An accepted molecular hash is the base-17 text of the atoms' digest. -/
theorem verifyMolecularHash_ok_iff {H : Shake256} {m : Molecule} :
    verifyMolecularHash H m = .ok true ↔ m.atoms ≠ [] ∧ m.molecularHash ≠ [] ∧
      ∃ digest, Atom.hashAtoms H m.atoms = .ok digest ∧ Atom.base17 digest = m.molecularHash := by
  unfold verifyMolecularHash
  split_ifs with hne
  · rw [Atom.hashAtomsBase17_eq]
    cases hhash : Atom.hashAtoms H m.atoms with
    | error e => simp [Except.map]
    | ok digest => simp [Except.map, hne]
  · simp only [Except.ok.injEq, Bool.false_eq_true, false_iff]
    exact fun ⟨hatoms, hhash, _⟩ => hne ⟨hatoms, hhash⟩

section Fragments

theorem assignFragments_unsigned (atoms : List Atom) (fragments : List ByteString) :
    (assignFragments atoms fragments).map Atom.unsigned = atoms.map Atom.unsigned := by
  induction atoms generalizing fragments with
  | nil => cases fragments <;> rfl
  | cons a as ih =>
    cases fragments with
    | nil => rfl
    | cons f fs => simp [assignFragments, ih, Atom.unsigned]

theorem mem_assignFragments {atoms : List Atom} {fragments : List ByteString} {a : Atom}
    (h : a ∈ assignFragments atoms fragments) :
    ∃ b ∈ atoms, a = b ∨ ∃ fragment ∈ fragments, a = { b with otsFragment := fragment } := by
  induction atoms generalizing fragments with
  | nil =>
    cases fragments with
    | nil => cases h
    | cons f fs => cases h
  | cons b bs ih =>
    cases fragments with
    | nil => exact ⟨a, h, .inl rfl⟩
    | cons f fs =>
      obtain rfl | h := List.mem_cons.mp h
      · exact ⟨b, List.mem_cons_self, .inr ⟨f, List.mem_cons_self, rfl⟩⟩
      · obtain ⟨b', hb', heq⟩ := ih h
        refine ⟨b', List.mem_cons_of_mem _ hb', heq.imp_right ?_⟩
        rintro ⟨fragment, hfragment, heq⟩
        exact ⟨fragment, List.mem_cons_of_mem _ hfragment, heq⟩

/-- The atoms carry what was assigned, and behind it what the others carried before. -/
theorem carried_assignFragments {atoms : List Atom} {fragments : List ByteString}
    (hlen : fragments.length ≤ atoms.length) :
    (assignFragments atoms fragments).flatMap (·.otsFragment) =
      fragments.flatten ++ (atoms.drop fragments.length).flatMap (·.otsFragment) := by
  induction atoms generalizing fragments with
  | nil =>
    obtain rfl : fragments = [] := List.eq_nil_of_length_eq_zero (by simpa using hlen)
    rfl
  | cons a as ih =>
    cases fragments with
    | nil => rfl
    | cons f fs =>
      have htail := ih (show fs.length ≤ as.length by simpa using hlen)
      rw [assignFragments, List.flatMap_cons, htail, List.flatten_cons, List.append_assoc]
      rfl

/-- On atoms without fragments, the atoms carry exactly what was assigned. -/
theorem flatMap_assignFragments {atoms : List Atom} {fragments : List ByteString}
    (hlen : fragments.length ≤ atoms.length) (hempty : ∀ a ∈ atoms, a.otsFragment = []) :
    (assignFragments atoms fragments).flatMap (·.otsFragment) = fragments.flatten := by
  have hrest : (atoms.drop fragments.length).flatMap (·.otsFragment) = [] :=
    List.flatMap_eq_nil_iff.mpr fun a ha => hempty a (List.mem_of_mem_drop ha)
  rw [carried_assignFragments hlen, hrest, List.append_nil]

/-- Whatever the atoms carried before, what was assigned comes first. -/
theorem prefix_assignFragments {atoms : List Atom} {fragments : List ByteString}
    (hlen : fragments.length ≤ atoms.length) :
    fragments.flatten <+: (assignFragments atoms fragments).flatMap (·.otsFragment) := by
  rw [carried_assignFragments hlen]
  exact List.prefix_append _ _

/-- Cutting a text into pieces of the rounded-up size leaves no more pieces than asked for. -/
theorem length_chunkSubstr_le {s : ByteString} {n : Nat} (hn : 0 < n) :
    (chunkSubstr s ((s.length + n - 1) / n)).length ≤ n := by
  rw [chunkSubstr, length_blocks]
  rcases Nat.eq_zero_or_pos ((s.length + n - 1) / n) with hzero | hpos
  · simp [hzero]
  · have hceil : s.length ≤ (s.length + n - 1) / n * n := by
      have := Nat.div_add_mod (s.length + n - 1) n
      have hmod := Nat.mod_lt (s.length + n - 1) hn
      rw [Nat.mul_comm] at this
      omega
    rw [Nat.div_le_iff_le_mul_add_pred hpos]
    calc s.length + (s.length + n - 1) / n - 1 ≤ (s.length + n - 1) / n * n + (s.length + n - 1) / n - 1 := by omega
      _ = (s.length + n - 1) / n * n + ((s.length + n - 1) / n - 1) := by omega

end Fragments

section Chains

theorem chainStep_length (H : Shake256) (chunk : ByteString) : (Wallet.chainStep H chunk).length = 128 := by
  simp [Wallet.chainStep]

/-- Every point of a chain that starts at a chunk of 128 lower-case digits is another such chunk. -/
theorem iterate_chainStep {H : Shake256} {chunk : ByteString} (hlen : chunk.length = 128)
    (hhex : ∀ c ∈ chunk, isHexLower c = true) (n : Nat) :
    ((Wallet.chainStep H)^[n] chunk).length = 128 ∧ ∀ c ∈ (Wallet.chainStep H)^[n] chunk, isHexLower c = true := by
  cases n with
  | zero => exact ⟨hlen, hhex⟩
  | succ n =>
    rw [Function.iterate_succ_apply']
    exact ⟨chainStep_length H _, fun c hc => isHexLower_shake256Hex hc⟩

theorem mem_advance {H : Shake256} {counts : List Nat} {chunks : List ByteString} {x : ByteString}
    (hx : x ∈ HashChain.advance (Wallet.chainStep H) counts chunks) :
    ∃ n, ∃ chunk ∈ chunks, x = (Wallet.chainStep H)^[n] chunk := by
  induction counts generalizing chunks with
  | nil => simp at hx
  | cons n counts ih =>
    cases chunks with
    | nil => simp [HashChain.advance] at hx
    | cons chunk chunks =>
      rcases List.mem_cons.mp hx with rfl | hx
      · exact ⟨n, chunk, by simp, rfl⟩
      · obtain ⟨k, c, hc, rfl⟩ := ih hx
        exact ⟨k, c, by simp [hc], rfl⟩

/-- A key cut into chunks: 16 or 64 of them, each of 128 lower-case digits. -/
structure KeyChunks (key : ByteString) (chunks : List ByteString) : Prop where
  eq : chunkSubstr key 128 = chunks
  count : chunks.length ≤ 64
  total : 128 * chunks.length = key.length
  length : ∀ chunk ∈ chunks, chunk.length = 128
  hex : ∀ chunk ∈ chunks, ∀ c ∈ chunk, isHexLower c = true

theorem keyChunks_of_key {H : Shake256} {secret token position key : ByteString} {v : Int}
    (hkey : Wallet.generateWalletKey H secret token position v = .ok key) : KeyChunks key (chunkSubstr key 128) := by
  obtain ⟨hlen, hhex⟩ := Wallet.generateWalletKey_form hkey
  have hcases : key.length = 2048 ∨ key.length = 8192 := by
    split at hlen
    · exact .inr hlen
    · exact .inl hlen
  refine ⟨rfl, ?_, ?_, ?_, ?_⟩
  · rw [chunkSubstr, length_blocks]
    omega
  · rw [chunkSubstr, length_blocks]
    omega
  · exact fun chunk hchunk => length_of_mem_blocks (by omega) hchunk
  · intro chunk hchunk c hc
    refine hhex c ?_
    rw [← flatten_blocks (show 0 < 128 by norm_num) key]
    exact List.mem_flatten.mpr ⟨chunk, hchunk, hc⟩

theorem length_flatten_of_mem {xs : List ByteString} {n : Nat} (hxs : ∀ x ∈ xs, x.length = n) :
    xs.flatten.length = n * xs.length := by
  induction xs with
  | nil => simp
  | cons x xs ih =>
    rw [List.flatten_cons, List.length_append, hxs x (by simp), ih fun y hy => hxs y (by simp [hy]), List.length_cons]
    ring

theorem mem_signChunks {H : Shake256} {digits : List Int} {key x : ByteString} {chunks : List ByteString}
    (hkey : KeyChunks key chunks) (hx : x ∈ signChunks H digits chunks) :
    x.length = 128 ∧ ∀ c ∈ x, isHexLower c = true := by
  obtain ⟨n, chunk, hchunk, rfl⟩ := mem_advance hx
  exact iterate_chainStep (hkey.length chunk hchunk) (hkey.hex chunk hchunk) n

/-- The chunks of the signature are found again in its text. -/
theorem chunkSubstr_signChunks {H : Shake256} {digits : List Int} {key : ByteString} {chunks : List ByteString}
    (hkey : KeyChunks key chunks) :
    chunkSubstr (signChunks H digits chunks).flatten 128 = signChunks H digits chunks :=
  blocks_flatten (by norm_num) fun _ hx => (mem_signChunks hkey hx).1

theorem counts_add_up {digits : List Int} (hdigits : InRange digits) :
    List.Forall₂ (fun a b => a + b = 16) (digits.map fun n => (8 - n).toNat) (digits.map fun n => (8 + n).toNat) := by
  induction digits with
  | nil => exact .nil
  | cons d digits ih =>
    have hd := hdigits d (by simp)
    exact .cons (by dsimp only; omega) (ih hdigits.tail)

/-- Signer and verifier together walk sixteen steps on every chain. -/
theorem verifyChunks_signChunks {H : Shake256} {digits : List Int} {chunks : List ByteString}
    (hdigits : InRange digits) (hcount : chunks.length ≤ digits.length) :
    verifyChunks H digits (signChunks H digits chunks) = chunks.map (Wallet.chainStep H)^[16] :=
  HashChain.advance_advance _ (by simpa using hcount) (counts_add_up hdigits)

/-- A signature is as long as its key. -/
theorem length_signChunks {H : Shake256} {key hash : ByteString} (hkey : KeyChunks key (chunkSubstr key 128))
    (hhash : WalletCrypto.isSignableHash hash = true) :
    (signChunks H (normalizedHash hash) (chunkSubstr key 128)).flatten.length = key.length := by
  rw [length_flatten_of_mem fun _ hx => (mem_signChunks hkey hx).1, ← hkey.total]
  have hcount := hkey.count
  have hdigits := (normalizedHash_spec hhash).1
  simp only [signChunks, HashChain.length_advance, List.length_map]
  omega

/-- The signature of a hash by a key belongs to the key's address. -/
theorem signingAddress_signChunks {H : Shake256} {key hash : ByteString} (hkey : KeyChunks key (chunkSubstr key 128))
    (hhash : WalletCrypto.isSignableHash hash = true) :
    signingAddress H hash (signChunks H (normalizedHash hash) (chunkSubstr key 128)).flatten =
      Wallet.generateWalletAddress H key := by
  obtain ⟨hdigits, hrange, _⟩ := normalizedHash_spec hhash
  have hcount := hkey.count
  rw [signingAddress, chunkSubstr_signChunks hkey]
  change Wallet.addressOfEnds H (verifyChunks H (normalizedHash hash) _) = _
  rw [verifyChunks_signChunks hrange (by omega)]
  rfl

/-- The chunks of a signature are hexadecimal digits of some bytes, and its text is these digits or the bytes in
base64. -/
theorem oneTimeSignature_bytes {H : Shake256} {secret token position key : ByteString} {v : Int}
    (hkey : Wallet.generateWalletKey H secret token position v = .ok key) {hash : ByteString}
    (hhash : WalletCrypto.isSignableHash hash = true) :
    ∃ data, 2 * data.length = key.length ∧
      (signChunks H (normalizedHash hash) (chunkSubstr key 128)).flatten = toHexString data ∧
      oneTimeSignature H key hash false = .ok (toHexString data) ∧ oneTimeSignature H key hash true = .ok (toBase64 data) := by
  have hchunks := keyChunks_of_key hkey
  have hlength := length_signChunks (H := H) hchunks hhash
  have hkeyLength := (Wallet.generateWalletKey_form hkey).1
  have heven : key.length % 2 = 0 := by
    split at hkeyLength <;> omega
  obtain ⟨data, hdata⟩ : ∃ data, (signChunks H (normalizedHash hash) (chunkSubstr key 128)).flatten = toHexString data :=
    exists_toHexString (by omega) fun c hc => by
      obtain ⟨x, hx, hc⟩ := List.mem_flatten.mp hc
      exact (mem_signChunks hchunks hx).2 c hc
  refine ⟨data, by rw [← hlength, hdata, length_toHexString], hdata, congrArg Except.ok hdata, ?_⟩
  change hexToBase64 (signChunks H (normalizedHash hash) (chunkSubstr key 128)).flatten = _
  rw [hdata, hexToBase64, fromHexString_toHexString]
  rfl

/-- A signature text, compressed or not, decodes to the chunks it was made of. -/
theorem oneTimeSignature_ok {H : Shake256} {secret token position key : ByteString} {v : Int}
    (hkey : Wallet.generateWalletKey H secret token position v = .ok key) {hash : ByteString}
    (hhash : WalletCrypto.isSignableHash hash = true) (compressed : Bool) :
    ∃ signature, oneTimeSignature H key hash compressed = .ok signature ∧
      decodeOts signature = .ok (signChunks H (normalizedHash hash) (chunkSubstr key 128)).flatten := by
  obtain ⟨data, hlength, hdata, hplain, hbase64⟩ := oneTimeSignature_bytes hkey hhash
  have hkeyLength := (Wallet.generateWalletKey_form hkey).1
  have hcases : key.length = 2048 ∨ key.length = 8192 := by
    split at hkeyLength
    · exact .inr hkeyLength
    · exact .inl hkeyLength
  have hdigits : (toHexString data).length = key.length := by rw [length_toHexString, hlength]
  rw [hdata]
  cases compressed with
  | false =>
    refine ⟨_, hplain, ?_⟩
    rw [decodeOts, if_pos]
    exact hdigits.symm ▸ hcases
  | true =>
    refine ⟨_, hbase64, ?_⟩
    have hshort : ¬ ((toBase64 data).length = 2048 ∨ (toBase64 data).length = 8192) := by
      rw [length_toBase64]
      omega
    have hstrict : isStrictBase64 (toBase64 data) = true :=
      isStrictBase64_toBase64 (List.ne_nil_of_length_pos (by omega))
    have hback : base64ToHex (toBase64 data) = toHexString data := by rw [base64ToHex, fromBase64_toBase64]
    rw [decodeOts, if_neg hshort, hstrict, hback, if_neg (by simp), if_pos]
    exact hdigits.symm ▸ hcases

end Chains

section Sign

theorem hashAtomsBase17_signable {H : Shake256} {atoms : List Atom} {hash : ByteString}
    (h : Atom.hashAtomsBase17 H atoms = .ok hash) : WalletCrypto.isSignableHash hash = true := by
  rw [Atom.hashAtomsBase17_eq] at h
  cases hdigest : Atom.hashAtoms H atoms with
  | error e => simp [hdigest, Except.map] at h
  | ok digest =>
    simp only [hdigest, Except.map, Except.ok.injEq] at h
    rw [← h]
    exact Atom.isSignableHash_base17 (Atom.length_hashAtoms hdigest)

/-- The pieces of a signature for the atoms of the molecule. -/
def fragmentsFor (m : Molecule) (signature : ByteString) : List ByteString :=
  chunkSubstr signature ((signature.length + m.atoms.length - 1) / m.atoms.length)

/-- The molecule as a successful signing leaves it. -/
protected def signed (H : Shake256) (secret : ByteString) (anonymous : Bool) (hash signature : ByteString) (m : Molecule) :
    Molecule :=
  { m with
    bundle := if anonymous then m.bundle else Wallet.generateBundleHash H secret
    molecularHash := hash
    atoms := assignFragments m.atoms (m.fragmentsFor signature) }

/-- Signing succeeds as soon as the hash, the key and the signature exist. -/
theorem sign_exec {H : Shake256} {m : Molecule} {front : Atom} {rest : List Atom} (hatoms : m.atoms = front :: rest)
    {secret hash key signature : ByteString} {compressed : Bool} (anonymous : Bool)
    (hhash : Atom.hashAtomsBase17 H m.atoms = .ok hash)
    (hkey : Wallet.generateWalletKey H secret front.token front.position m.signingOtsVersion = .ok key)
    (hsig : oneTimeSignature H key hash compressed = .ok signature) :
    (sign H secret anonymous compressed).exec m =
      (.ok (((m.atoms.take (m.fragmentsFor signature).length).getLast?.elim [] (·.position))),
        m.signed H secret anonymous hash signature) := by
  have hsignable := hashAtomsBase17_signable hhash
  rw [hatoms] at hhash
  have hkey' (m' : Molecule) (hsource : m'.sourceWallet = m.sourceWallet) :
      Wallet.generateWalletKey H secret front.token front.position m'.signingOtsVersion = .ok key := by
    rwa [signingOtsVersion, hsource]
  cases anonymous <;>
    simp [sign, hatoms, hhash, hsignable, hkey', hsig, Molecule.signed, fragmentsFor]

/-- What a successful signing found and what it left. -/
theorem sign_ok_inv {H : Shake256} {m m' : Molecule} {front : Atom} {rest : List Atom} (hatoms : m.atoms = front :: rest)
    {secret position : ByteString} {anonymous compressed : Bool}
    (hsign : (sign H secret anonymous compressed).exec m = (.ok position, m')) :
    ∃ hash key signature, Atom.hashAtomsBase17 H m.atoms = .ok hash ∧
      Wallet.generateWalletKey H secret front.token front.position m.signingOtsVersion = .ok key ∧
      oneTimeSignature H key hash compressed = .ok signature ∧ m' = m.signed H secret anonymous hash signature := by
  cases hhash : Atom.hashAtomsBase17 H m.atoms with
  | error e =>
    rw [hatoms] at hhash
    cases anonymous <;> simp [sign, hatoms, hhash] at hsign
  | ok hash =>
    have hsignable := hashAtomsBase17_signable hhash
    cases hkey : Wallet.generateWalletKey H secret front.token front.position m.signingOtsVersion with
    | error e =>
      have hkey' (m' : Molecule) (hsource : m'.sourceWallet = m.sourceWallet) :
          Wallet.generateWalletKey H secret front.token front.position m'.signingOtsVersion = .error e := by
        rwa [signingOtsVersion, hsource]
      rw [hatoms] at hhash
      cases anonymous <;> simp [sign, hatoms, hhash, hsignable, hkey'] at hsign
    | ok key =>
      obtain ⟨signature, hsig, _⟩ := oneTimeSignature_ok hkey hsignable compressed
      rw [sign_exec hatoms anonymous hhash hkey hsig] at hsign
      exact ⟨hash, key, signature, rfl, rfl, hsig, (Prod.mk.inj hsign).2.symm⟩

/-- The pieces for the atoms are the whole signature. -/
theorem flatten_fragmentsFor {m : Molecule} (hne : m.atoms ≠ []) (signature : ByteString) :
    (m.fragmentsFor signature).flatten = signature := by
  rcases Nat.eq_zero_or_pos signature.length with hzero | hsize
  · rw [List.eq_nil_of_length_eq_zero hzero]
    simp [fragmentsFor, chunkSubstr]
  · exact flatten_blocks (Nat.div_pos (by omega) (List.length_pos_of_ne_nil hne)) signature

theorem carriedOts_signed (H : Shake256) (secret : ByteString) (anonymous : Bool) (hash signature : ByteString)
    {m : Molecule} (hpos : m.atoms ≠ []) (hempty : ∀ a ∈ m.atoms, a.otsFragment = []) :
    (m.signed H secret anonymous hash signature).carriedOts = signature := by
  have hcarried : (assignFragments m.atoms (m.fragmentsFor signature)).flatMap (·.otsFragment) =
      (m.fragmentsFor signature).flatten :=
    flatMap_assignFragments (length_chunkSubstr_le (List.length_pos_of_ne_nil hpos)) hempty
  exact hcarried.trans (flatten_fragmentsFor hpos signature)

theorem prefix_carriedOts_signed (H : Shake256) (secret : ByteString) (anonymous : Bool) (hash signature : ByteString)
    {m : Molecule} (hpos : m.atoms ≠ []) : signature <+: (m.signed H secret anonymous hash signature).carriedOts := by
  conv_lhs => rw [← flatten_fragmentsFor hpos signature]
  exact prefix_assignFragments (length_chunkSubstr_le (List.length_pos_of_ne_nil hpos))

/-- The hash does not read the fragments that signing writes. -/
theorem verifyMolecularHash_signed {H : Shake256} {m : Molecule} (hne : m.atoms ≠ []) {hash : ByteString}
    (hhash : Atom.hashAtomsBase17 H m.atoms = .ok hash) (secret signature : ByteString) (anonymous : Bool) :
    verifyMolecularHash H (m.signed H secret anonymous hash signature) = .ok true := by
  have hrehash : Atom.hashAtomsBase17 H (assignFragments m.atoms (m.fragmentsFor signature)) = .ok hash :=
    (Atom.hashAtomsBase17_congr H (assignFragments_unsigned _ _)).trans hhash
  have hassigned : assignFragments m.atoms (m.fragmentsFor signature) ≠ [] := by
    intro hnil
    have hatoms := congrArg (List.map Atom.unsigned) hnil
    rw [assignFragments_unsigned] at hatoms
    exact hne (List.map_eq_nil_iff.mp hatoms)
  have hhashNe : hash ≠ [] := by
    rintro rfl
    have hsignable := hashAtomsBase17_signable hhash
    simp [WalletCrypto.isSignableHash] at hsignable
  simp [verifyMolecularHash, Molecule.signed, hassigned, hhashNe, hrehash, Except.map]

/-- The first atom stays first. -/
theorem exists_front_signed {m : Molecule} {front : Atom} {rest : List Atom} (hatoms : m.atoms = front :: rest)
    (H : Shake256) (secret : ByteString) (anonymous : Bool) (hash signature : ByteString) :
    ∃ fragment rest', (m.signed H secret anonymous hash signature).atoms =
      { front with otsFragment := fragment } :: rest' := by
  rw [Molecule.signed]
  dsimp only
  rw [hatoms]
  cases m.fragmentsFor signature with
  | nil => exact ⟨front.otsFragment, rest, rfl⟩
  | cons f fs => exact ⟨f, _, rfl⟩

/-- Atoms without earlier fragments carry a signature of the first atom's address. -/
theorem verifyOts_signed {H : Shake256} {m : Molecule} {front : Atom} {rest : List Atom} (hatoms : m.atoms = front :: rest)
    (hempty : ∀ a ∈ m.atoms, a.otsFragment = []) {secret hash key signature : ByteString} {compressed : Bool}
    (hhash : Atom.hashAtomsBase17 H m.atoms = .ok hash)
    (hkey : Wallet.generateWalletKey H secret front.token front.position m.signingOtsVersion = .ok key)
    (haddress : Wallet.generateWalletAddress H key = front.walletAddress)
    (hsig : oneTimeSignature H key hash compressed = .ok signature) (anonymous : Bool) :
    verifyOts H (m.signed H secret anonymous hash signature) = .ok () := by
  have hsignable := hashAtomsBase17_signable hhash
  obtain ⟨signature', hsig', hdecode⟩ := oneTimeSignature_ok hkey hsignable compressed
  obtain rfl : signature' = signature := Except.ok.inj (hsig'.symm.trans hsig)
  have hne : m.atoms ≠ [] := by simp [hatoms]
  obtain ⟨fragment, rest', hfront⟩ := exists_front_signed hatoms H secret anonymous hash signature'
  have hends := (signingAddress_signChunks (H := H) (keyChunks_of_key hkey) hsignable).trans haddress
  have hcarried := carriedOts_signed H secret anonymous hash signature' hne hempty
  exact verifyOts_of_decoded hfront hsignable (by rw [hcarried, hdecode]) hends

end Sign

end Molecule

end KnishIO
