import KnishIO.Molecule.Signature

open ByteString

namespace KnishIO

namespace Molecule

/-- The strings that checking a decoded signature of a hash absorbs at one output size: the points of
the chains, then their ends, then the digest of the ends. -/
def absorbed (H : Shake256) (molecularHash ots : ByteString) (bits : Nat) : List ByteString :=
  let digits := normalizedHash molecularHash
  let chunks := chunkSubstr ots 128
  let ends := (verifyChunks H digits chunks).flatten
  if bits = 512 then
    (List.zipWith (fun n chunk => HashChain.trace (Wallet.chainStep H) (8 + n).toNat chunk) digits chunks).flatten
  else if bits = 8192 then [ends]
  else if bits = 256 then [shake256Hex H ends 8192]
  else []

/-- Two checks of a signature together absorb two distinct strings with one SHAKE256 output. -/
def ExhibitCollision (H : Shake256) (hash₁ ots₁ hash₂ ots₂ : ByteString) : Prop :=
  ∃ bits, HashChain.Collides (fun s => shake256 H s bits) (absorbed H hash₁ ots₁ bits ++ absorbed H hash₂ ots₂ bits)

/-- On some chain the second signature carries a value from which hashing on leads to the value that
the first signature published. -/
def CarriesPreimage (H : Shake256) (hash₁ ots₁ hash₂ ots₂ : ByteString) : Prop :=
  ∃ (i : Nat) (n₁ n₂ : Int) (chunk₁ chunk₂ : ByteString), (normalizedHash hash₁)[i]? = some n₁ ∧
    (normalizedHash hash₂)[i]? = some n₂ ∧ (chunkSubstr ots₁ 128)[i]? = some chunk₁ ∧
    (chunkSubstr ots₂ 128)[i]? = some chunk₂ ∧ n₁ < n₂ ∧
    (Wallet.chainStep H)^[(n₂ - n₁).toNat] chunk₂ = chunk₁

section Absorbed

variable (H : Shake256) (hash ots : ByteString)

theorem trace_subset_absorbed {i : Nat} {n : Int} {chunk : ByteString} (hn : (normalizedHash hash)[i]? = some n)
    (hchunk : (chunkSubstr ots 128)[i]? = some chunk) :
    HashChain.trace (Wallet.chainStep H) (8 + n).toNat chunk ⊆ absorbed H hash ots 512 := by
  intro x hx
  refine List.mem_flatten.mpr ⟨_, List.mem_iff_getElem?.mpr ⟨i, ?_⟩, hx⟩
  rw [List.getElem?_zipWith, hn, hchunk]

theorem mem_absorbed_ends :
    (verifyChunks H (normalizedHash hash) (chunkSubstr ots 128)).flatten ∈ absorbed H hash ots 8192 := by
  simp [absorbed]

theorem mem_absorbed_digest :
    shake256Hex H (verifyChunks H (normalizedHash hash) (chunkSubstr ots 128)).flatten 8192 ∈
      absorbed H hash ots 256 := by
  simp [absorbed]

end Absorbed

/-- Equal addresses come from equal chain ends, or the two checks exhibit a collision. -/
theorem ends_eq_or_collision {H : Shake256} {hash₁ ots₁ hash₂ ots₂ : ByteString}
    (haddress : signingAddress H hash₁ ots₁ = signingAddress H hash₂ ots₂) :
    (verifyChunks H (normalizedHash hash₁) (chunkSubstr ots₁ 128)).flatten =
        (verifyChunks H (normalizedHash hash₂) (chunkSubstr ots₂ 128)).flatten ∨
      ExhibitCollision H hash₁ ots₁ hash₂ ots₂ := by
  have hdigest := toHexString_injective haddress
  rcases HashChain.eq_or_collides (f := fun s => shake256 H s 256)
      (List.mem_append_left (absorbed H hash₂ ots₂ 256) (mem_absorbed_digest H hash₁ ots₁))
      (List.mem_append_right (absorbed H hash₁ ots₁ 256) (mem_absorbed_digest H hash₂ ots₂))
      hdigest with heq | hcollides
  · rcases HashChain.eq_or_collides (f := fun s => shake256 H s 8192)
        (List.mem_append_left (absorbed H hash₂ ots₂ 8192) (mem_absorbed_ends H hash₁ ots₁))
        (List.mem_append_right (absorbed H hash₁ ots₁ 8192) (mem_absorbed_ends H hash₂ ots₂))
        (toHexString_injective heq) with hends | hcollides
    · exact .inl hends
    · exact .inr ⟨8192, hcollides⟩
  · exact .inr ⟨256, hcollides⟩

theorem length_of_mem_verifyChunks {H : Shake256} {digits : List Int} {chunks : List ByteString}
    (hchunks : ∀ c ∈ chunks, c.length = 128) {x : ByteString} (hx : x ∈ verifyChunks H digits chunks) :
    x.length = 128 := by
  obtain ⟨n, chunk, hchunk, rfl⟩ := mem_advance hx
  cases n with
  | zero => exact hchunks chunk hchunk
  | succ n =>
    rw [Function.iterate_succ_apply']
    exact chainStep_length H _

/-- A decoded signature has 16 or 64 chunks of 128 characters. -/
theorem decodeOts_chunks {ots decoded : ByteString} (h : decodeOts ots = .ok decoded) :
    (decoded.length = 2048 ∨ decoded.length = 8192) ∧ ∀ c ∈ chunkSubstr decoded 128, c.length = 128 := by
  have hlen : decoded.length = 2048 ∨ decoded.length = 8192 := by
    unfold decodeOts at h
    split_ifs at h with h₁ h₂ h₃
    · exact Except.ok.inj h ▸ h₁
    · exact Except.ok.inj h ▸ h₃
  exact ⟨hlen, fun c hc => length_of_mem_blocks (by omega) hc⟩

/-- Where two chains end together, the later starting point is found on the way from the earlier
one, or the two walks collide. -/
theorem chunk_eq_or_collision {H : Shake256} {hash₁ ots₁ hash₂ ots₂ : ByteString} {i : Nat} {n₁ n₂ : Int}
    {chunk₁ chunk₂ : ByteString} (hn₁ : (normalizedHash hash₁)[i]? = some n₁)
    (hn₂ : (normalizedHash hash₂)[i]? = some n₂) (hc₁ : (chunkSubstr ots₁ 128)[i]? = some chunk₁)
    (hc₂ : (chunkSubstr ots₂ 128)[i]? = some chunk₂) (hlow : -8 ≤ n₁) (hlt : n₁ < n₂)
    (hend : (Wallet.chainStep H)^[(8 + n₁).toNat] chunk₁ = (Wallet.chainStep H)^[(8 + n₂).toNat] chunk₂) :
    (Wallet.chainStep H)^[(n₂ - n₁).toNat] chunk₂ = chunk₁ ∨ ExhibitCollision H hash₁ ots₁ hash₂ ots₂ := by
  have hsplit : (8 + n₂).toNat = (n₂ - n₁).toNat + (8 + n₁).toNat := by omega
  rw [hsplit, Nat.add_comm, Function.iterate_add_apply] at hend
  have htrace₂ := trace_subset_absorbed H hash₂ ots₂ hn₂ hc₂
  rw [hsplit] at htrace₂
  rcases HashChain.eq_or_collides_of_iterate (Wallet.chainStep H) hend.symm
      (fun x hx => List.mem_append_right (absorbed H hash₁ ots₁ 512)
        (htrace₂ (HashChain.trace_iterate_subset (Wallet.chainStep H) _ _ chunk₂ hx)))
      (fun x hx => List.mem_append_left (absorbed H hash₂ ots₂ 512)
        (trace_subset_absorbed H hash₁ ots₁ hn₁ hc₁ hx)) with heq | hcollides
  · exact .inl heq
  · exact .inr ⟨512, hcollides.of_injective toHexString_injective⟩

/-- The ends of two signatures of one address are the same list, or the checks exhibit a collision. -/
theorem verifyChunks_eq_or_collision {H : Shake256} {hash₁ ots₁ hash₂ ots₂ sig₁ sig₂ : ByteString}
    (h₁ : decodeOts sig₁ = .ok ots₁) (h₂ : decodeOts sig₂ = .ok ots₂) (hs₁ : WalletCrypto.isSignableHash hash₁ = true)
    (hs₂ : WalletCrypto.isSignableHash hash₂ = true) (haddress : signingAddress H hash₁ ots₁ = signingAddress H hash₂ ots₂) :
    (verifyChunks H (normalizedHash hash₁) (chunkSubstr ots₁ 128) =
        verifyChunks H (normalizedHash hash₂) (chunkSubstr ots₂ 128) ∧
      (chunkSubstr ots₁ 128).length = (chunkSubstr ots₂ 128).length) ∨
      ExhibitCollision H hash₁ ots₁ hash₂ ots₂ := by
  rcases ends_eq_or_collision haddress with heq | hcollision
  · obtain ⟨hlen₁, hc₁⟩ := decodeOts_chunks h₁
    obtain ⟨hlen₂, hc₂⟩ := decodeOts_chunks h₂
    have count {hash ots : ByteString} (hs : WalletCrypto.isSignableHash hash = true)
        (hlen : ots.length = 2048 ∨ ots.length = 8192) :
        (verifyChunks H (normalizedHash hash) (chunkSubstr ots 128)).length = (chunkSubstr ots 128).length := by
      have hdigits := (normalizedHash_spec hs).1
      rw [verifyChunks, HashChain.length_advance, List.length_map, chunkSubstr, length_blocks]
      omega
    have hflat := congrArg List.length heq
    rw [length_flatten_of_mem fun _ => length_of_mem_verifyChunks hc₁,
      length_flatten_of_mem fun _ => length_of_mem_verifyChunks hc₂] at hflat
    have hcount : (verifyChunks H (normalizedHash hash₁) (chunkSubstr ots₁ 128)).length =
        (verifyChunks H (normalizedHash hash₂) (chunkSubstr ots₂ 128)).length := by omega
    refine .inl ⟨flatten_inj_of_lengths ?_ heq, by rw [← count hs₁ hlen₁, ← count hs₂ hlen₂, hcount]⟩
    rw [List.map_eq_replicate_iff.mpr fun x hx => length_of_mem_verifyChunks hc₁ hx,
      List.map_eq_replicate_iff.mpr fun x hx => length_of_mem_verifyChunks hc₂ hx, hcount]
  · exact .inr hcollision

/-- A second hash that an address of 64 chains accepts needs, on some chain, a value from before the
one that the first signature published, unless the two checks exhibit a collision. -/
theorem accepted_needs_preimage {H : Shake256} {hash₁ ots₁ hash₂ ots₂ sig₁ sig₂ : ByteString}
    (h₁ : decodeOts sig₁ = .ok ots₁) (h₂ : decodeOts sig₂ = .ok ots₂) (hs₁ : WalletCrypto.isSignableHash hash₁ = true)
    (hs₂ : WalletCrypto.isSignableHash hash₂ = true) (hwide : ots₁.length = 8192)
    (haddress : signingAddress H hash₁ ots₁ = signingAddress H hash₂ ots₂)
    (hne : normalizedHash hash₂ ≠ normalizedHash hash₁) :
    ExhibitCollision H hash₁ ots₁ hash₂ ots₂ ∨ CarriesPreimage H hash₁ ots₁ hash₂ ots₂ := by
  rcases verifyChunks_eq_or_collision h₁ h₂ hs₁ hs₂ haddress with ⟨hends, hcount⟩ | hcollision
  · obtain ⟨hdigits₁, hrange₁, hsum₁⟩ := normalizedHash_spec hs₁
    obtain ⟨hdigits₂, hrange₂, hsum₂⟩ := normalizedHash_spec hs₂
    -- Both digit vectors sum to zero, so the second exceeds the first somewhere.
    obtain ⟨i, hi₁, hi₂, hlt⟩ := HashChain.exists_lt_of_sum_eq (by omega) (by omega) hne.symm
    have hcount₁ : (chunkSubstr ots₁ 128).length = 64 := by
      rw [chunkSubstr, length_blocks]
      omega
    have hc₁ : i < (chunkSubstr ots₁ 128).length := by omega
    have hc₂ : i < (chunkSubstr ots₂ 128).length := by omega
    have hn₁ := List.getElem?_eq_getElem hi₁
    have hn₂ := List.getElem?_eq_getElem hi₂
    have hchunk₁ := List.getElem?_eq_getElem hc₁
    have hchunk₂ := List.getElem?_eq_getElem hc₂
    have hend := congrArg (·[i]?) hends
    simp only [verifyChunks, HashChain.getElem?_advance, List.getElem?_map, hn₁, hn₂, hchunk₁, hchunk₂,
      Option.map_some, Option.bind_some, Option.some.injEq] at hend
    have hlow := (hrange₁ _ (List.getElem_mem hi₁)).1
    rcases chunk_eq_or_collision hn₁ hn₂ hchunk₁ hchunk₂ hlow hlt hend with hchunk | hcollision
    · exact .inr ⟨i, _, _, _, _, hn₁, hn₂, hchunk₁, hchunk₂, hlt, hchunk⟩
    · exact .inl hcollision
  · exact .inl hcollision

/-- What an accepted molecule was checked for. -/
theorem verifyOts_ok_inv {H : Shake256} {m : Molecule} {front : Atom} {rest : List Atom} (hatoms : m.atoms = front :: rest)
    (h : verifyOts H m = .ok ()) : WalletCrypto.isSignableHash m.molecularHash = true ∧
      ∃ ots, decodeOts m.carriedOts = .ok ots ∧ signingAddress H m.molecularHash ots = front.walletAddress := by
  rw [verifyOts, hatoms] at h
  dsimp only at h
  split at h
  · cases h
  next hsignable =>
    split at h
    · cases h
    next ots hdecode =>
      split at h
      · cases h
      next haddress => exact ⟨by simpa using hsignable, ots, hdecode, not_not.mp haddress⟩

/-- A signature of 64 chains does not extend to another hash. -/
theorem sign_not_extendable (H : Shake256) (secret key position : ByteString) (m₁ m₁' m₂ : Molecule)
    (front₁ front₂ : Atom) (rest₁ rest₂ : List Atom) (anonymous compressed : Bool)
    (hatoms₁ : m₁.atoms = front₁ :: rest₁) (hversion : m₁.signingOtsVersion = 2)
    (hkey : Wallet.generateWalletKey H secret front₁.token front₁.position 2 = .ok key)
    (hsign : (sign H secret anonymous compressed).exec m₁ = (.ok position, m₁')) (hatoms₂ : m₂.atoms = front₂ :: rest₂)
    (haddress : front₂.walletAddress = Wallet.generateWalletAddress H key) (haccept : verifyOts H m₂ = .ok ())
    (hne : normalizedHash m₂.molecularHash ≠ normalizedHash m₁'.molecularHash) :
    ∃ published ots₁ ots₂, published <+: m₁'.carriedOts ∧
      ((∀ a ∈ m₁.atoms, a.otsFragment = []) → published = m₁'.carriedOts) ∧ decodeOts published = .ok ots₁ ∧
      decodeOts m₂.carriedOts = .ok ots₂ ∧
      (ExhibitCollision H m₁'.molecularHash ots₁ m₂.molecularHash ots₂ ∨
        CarriesPreimage H m₁'.molecularHash ots₁ m₂.molecularHash ots₂) := by
  obtain ⟨hash, key', signature, hhash, hkey', hsig, rfl⟩ := sign_ok_inv hatoms₁ hsign
  have hsame : key' = key := by
    rw [hversion, hkey] at hkey'
    exact (Except.ok.inj hkey').symm
  subst hsame
  have hne₁ : m₁.atoms ≠ [] := by simp [hatoms₁]
  have hs₁ := hashAtomsBase17_signable hhash
  obtain ⟨signature', hsig', hdecode₁⟩ := oneTimeSignature_ok hkey hs₁ compressed
  obtain rfl : signature' = signature := Except.ok.inj (hsig'.symm.trans hsig)
  obtain ⟨hs₂, ots₂, hdecode₂, haddress₂⟩ := verifyOts_ok_inv hatoms₂ haccept
  have hchunks := keyChunks_of_key hkey
  have hends := signingAddress_signChunks (H := H) hchunks hs₁
  have hwide : (signChunks H (normalizedHash hash) (chunkSubstr key' 128)).flatten.length = 8192 := by
    rw [length_signChunks hchunks hs₁, (Wallet.generateWalletKey_form hkey).1, if_pos rfl]
  refine ⟨signature', _, ots₂, prefix_carriedOts_signed H secret anonymous hash signature' hne₁,
    fun hempty => (carriedOts_signed H secret anonymous hash signature' hne₁ hempty).symm, hdecode₁, hdecode₂, ?_⟩
  exact accepted_needs_preimage hdecode₁ hdecode₂ hs₁ hs₂ hwide (hends.trans (by rw [haddress₂, haddress])) hne

section Example

/-- A wallet that signs with 64 chains. -/
def wideWallet : Wallet where
  position := ascii "0a"
  token := ascii "USER"
  key := []
  address := []
  bundle := []
  mlkemPublicKey := []
  mlkemParameterSet := 1024
  otsVersion := 2

def firstMolecule : Molecule where
  atoms := [{ position := ascii "0a", walletAddress := [], isotope := ascii "M", token := ascii "USER", createdAt := 0 },
    { position := ascii "0a", walletAddress := [], isotope := ascii "I", token := ascii "USER", index := 1, createdAt := 0 }]
  createdAt := 0
  sourceWallet := some wideWallet

/-- Under a function that ignores its input every signature leads to one address. -/
def secondMolecule : Molecule where
  molecularHash := ascii "79" ++ List.replicate 62 56
  atoms := [{
    position := ascii "0a", walletAddress := shake256Hex (.constant 0) [] 256, isotope := ascii "M"
    token := ascii "USER", otsFragment := List.replicate 4096 48, createdAt := 0 }, {
    position := ascii "0a", walletAddress := shake256Hex (.constant 0) [] 256, isotope := ascii "I"
    token := ascii "USER", otsFragment := List.replicate 4096 48, index := 1, createdAt := 0 }]
  createdAt := 0

theorem verifyOts_secondMolecule : verifyOts (.constant 0) secondMolecule = .ok () := by
  have hsignable : WalletCrypto.isSignableHash secondMolecule.molecularHash = true := by decide
  have hcarried : secondMolecule.carriedOts = List.replicate 8192 48 := by
    have hfragments : secondMolecule.carriedOts = List.replicate 4096 48 ++ (List.replicate 4096 48 ++ []) := rfl
    rw [hfragments, List.append_nil, List.replicate_append_replicate]
  have hdecode : decodeOts secondMolecule.carriedOts = .ok (List.replicate 8192 48) := by
    rw [hcarried, decodeOts, if_pos (.inr List.length_replicate)]
  exact verifyOts_of_decoded rfl hsignable hdecode rfl

theorem sign_not_extendable_constant :
    ∃ key position m₁', Wallet.generateWalletKey (.constant 0) (ascii "5ec7e7") (ascii "USER") (ascii "0a") 2 = .ok key ∧
      (sign (.constant 0) (ascii "5ec7e7") false true).exec firstMolecule = (.ok position, m₁') ∧
      ∃ published ots₁ ots₂, published <+: m₁'.carriedOts ∧
        ((∀ a ∈ firstMolecule.atoms, a.otsFragment = []) → published = m₁'.carriedOts) ∧
        decodeOts published = .ok ots₁ ∧ decodeOts secondMolecule.carriedOts = .ok ots₂ ∧
        (ExhibitCollision (.constant 0) m₁'.molecularHash ots₁ secondMolecule.molecularHash ots₂ ∨
          CarriesPreimage (.constant 0) m₁'.molecularHash ots₁ secondMolecule.molecularHash ots₂) := by
  obtain ⟨sum, hkey⟩ := Wallet.generateWalletKey_eq (.constant 0) (ascii "USER") (v := 2) (.inr rfl)
    (show ascii "5ec7e7" ≠ [] by decide) (show ascii "0a" ≠ [] by decide)
  have hhash : Atom.hashAtomsBase17 (.constant 0) firstMolecule.atoms = .ok (List.replicate 64 48) := by
    have hdigest : Atom.base17 (List.replicate 32 0) = List.replicate 64 48 := by decide +kernel
    rw [Atom.hashAtomsBase17_eq]
    exact congrArg Except.ok hdigest
  obtain ⟨signature, hsig, _⟩ := oneTimeSignature_ok hkey (hashAtomsBase17_signable hhash) true
  have hsign := sign_exec rfl false hhash hkey hsig
  have hne : normalizedHash secondMolecule.molecularHash ≠ normalizedHash (List.replicate 64 48) := by decide
  exact ⟨_, _, _, hkey, hsign, sign_not_extendable (.constant 0) (ascii "5ec7e7") _ _ firstMolecule _ secondMolecule _ _
    _ _ false true rfl rfl hkey hsign rfl rfl verifyOts_secondMolecule hne⟩

end Example

end Molecule

end KnishIO
