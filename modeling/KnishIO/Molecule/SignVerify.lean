import KnishIO.Molecule.Signature

open ByteString

namespace KnishIO

namespace Atom

/-- Every string that the structured view writes is UTF-8. -/
structure ValidUtf8 (atom : Atom) : Prop where
  position : Utf8.valid atom.position = true
  walletAddress : Utf8.valid atom.walletAddress = true
  isotope : Utf8.valid atom.isotope = true
  token : Utf8.valid atom.token = true
  value : Utf8.valid atom.value = true
  batchId : Utf8.valid atom.batchId = true
  metaType : Utf8.valid atom.metaType = true
  metaId : Utf8.valid atom.metaId = true
  metas : ∀ m ∈ atom.meta, Utf8.valid m.1 = true ∧ Utf8.valid m.2 = true
  nullMetas : ∀ m ∈ atom.nullMeta, Utf8.valid m.2 = true
  version : ∀ v, atom.version = some v → Utf8.valid v = true

theorem utf8_field {s : ByteString} (hs : Utf8.valid s = true) : (field s).utf8 = true := by
  unfold field
  split
  · rfl
  · exact hs

theorem utf8_optional {s : ByteString} (hs : Utf8.valid s = true) (parsedEmpty : Bool) :
    (optional s parsedEmpty).utf8 = true := by
  unfold optional
  split
  · exact hs
  · exact utf8_field hs

theorem utf8_entry {key : String} {value : Json} (hkey : Utf8.valid (ascii key) = true) (hvalue : value.utf8 = true) :
    (entry key value).utf8 = true := by
  simp [entry, Json.utf8, Json.utf8Members, hkey, hvalue]

theorem utf8_metaItem {key : ByteString} {value : Json} (hkey : Utf8.valid key = true) (hvalue : value.utf8 = true) :
    (metaItem key value).utf8 = true := by
  have h1 : (entry "key" (.str key)).utf8 = true := utf8_entry (by decide) hkey
  have h2 : (entry "value" value).utf8 = true := utf8_entry (by decide) hvalue
  simp [metaItem, Json.utf8, Json.utf8Items, h1, h2]

theorem utf8_insertNulls {nulls : List (Nat × ByteString)} (hnulls : ∀ n ∈ nulls, Utf8.valid n.2 = true)
    {items : List Json} (hitems : ∀ j ∈ items, j.utf8 = true) :
    (∀ n ∈ (insertNulls nulls items).1, Utf8.valid n.2 = true) ∧ ∀ j ∈ (insertNulls nulls items).2, j.utf8 = true := by
  induction nulls generalizing items with
  | nil => exact ⟨by simp [insertNulls], hitems⟩
  | cons n nulls ih =>
    obtain ⟨place, key⟩ := n
    unfold insertNulls
    split
    · refine ih (fun n hn => hnulls n (by simp [hn])) fun j hj => ?_
      rcases List.mem_append.mp hj with hj | hj
      · exact hitems j hj
      · obtain rfl := List.mem_singleton.mp hj
        exact utf8_metaItem (hnulls (place, key) (by simp)) rfl
    · exact ⟨hnulls, hitems⟩

theorem utf8_viewMeta {metas : List (ByteString × ByteString)}
    (hmetas : ∀ m ∈ metas, Utf8.valid m.1 = true ∧ Utf8.valid m.2 = true) {nulls : List (Nat × ByteString)}
    (hnulls : ∀ n ∈ nulls, Utf8.valid n.2 = true) {items : List Json} (hitems : ∀ j ∈ items, j.utf8 = true) :
    ∀ j ∈ viewMeta metas nulls items, j.utf8 = true := by
  induction metas generalizing nulls items with
  | nil =>
    intro j hj
    rcases List.mem_append.mp hj with hj | hj
    · exact hitems j hj
    · obtain ⟨n, hn, rfl⟩ := List.mem_map.mp hj
      exact utf8_metaItem (hnulls n hn) rfl
  | cons m metas ih =>
    obtain ⟨key, value⟩ := m
    obtain ⟨hkey, hvalue⟩ := hmetas (key, value) (by simp)
    obtain ⟨hnulls', hitems'⟩ := utf8_insertNulls hnulls hitems
    refine ih (fun m hm => hmetas m (by simp [hm])) hnulls' fun j hj => ?_
    rcases List.mem_append.mp hj with hj | hj
    · exact hitems' j hj
    · obtain rfl := List.mem_singleton.mp hj
      exact utf8_metaItem hkey hvalue

theorem utf8_ofInt (i : Int) : Utf8.valid (Decimal.ofInt i) = true :=
  Utf8.valid_of_ascii fun _ hc => Decimal.ofInt_ascii hc

theorem utf8_view {atom : Atom} (h : atom.ValidUtf8) : atom.view.utf8 = true := by
  have hmeta : (Json.arr (viewMeta atom.meta atom.nullMeta [])).utf8 = true := by
    rw [Json.utf8, Json.utf8Items_iff]
    exact utf8_viewMeta h.metas h.nullMetas (by simp)
  rw [view, Json.utf8, Json.utf8Items_iff]
  simp only [List.mem_cons, List.not_mem_nil, or_false, forall_eq_or_imp, forall_eq]
  refine ⟨utf8_entry (by decide) (utf8_optional h.batchId _), utf8_entry (by decide) (utf8_ofInt _),
    utf8_entry (by decide) rfl, utf8_entry (by decide) (utf8_field h.isotope), utf8_entry (by decide) hmeta,
    utf8_entry (by decide) (utf8_optional h.metaId _), utf8_entry (by decide) (utf8_optional h.metaType _),
    utf8_entry (by decide) (utf8_field h.position), utf8_entry (by decide) (utf8_field h.token),
    utf8_entry (by decide) (utf8_optional h.value _), utf8_entry (by decide) ?_,
    utf8_entry (by decide) (utf8_field h.walletAddress)⟩
  cases hv : atom.version with
  | none => rfl
  | some v => exact h.version v hv

/-- The structured view of UTF-8 atoms can be written. -/
theorem version4ViewJson_ok {atoms : List Atom} (h : ∀ a ∈ atoms, a.ValidUtf8) :
    ∃ json, version4ViewJson atoms = .ok json := by
  have hutf8 : (version4View atoms).utf8 = true := by
    rw [version4View, Json.utf8, Json.utf8Items_iff]
    intro j hj
    obtain ⟨a, ha, rfl⟩ := List.mem_map.mp hj
    exact utf8_view (h a ((List.mergeSort_perm _ _).mem_iff.mp ha))
  exact ⟨_, by rw [version4ViewJson, dumpJson, Json.dump_of_utf8 hutf8]⟩

/-- A list is hashable when it is hashed by the legacy sponge or its strings are UTF-8. -/
theorem hashAtomsBase17_ok (H : Shake256) {atoms : List Atom}
    (h : (∀ a ∈ atoms, a.version.isSome) → ∀ a ∈ atoms, a.ValidUtf8) : ∃ hash, hashAtomsBase17 H atoms = .ok hash := by
  rw [hashAtomsBase17_eq, hashAtoms]
  split
  next hversioned =>
    have hall : ∀ a ∈ atoms, a.version.isSome := by
      simp only [allVersioned, Bool.and_eq_true, List.all_eq_true] at hversioned
      exact hversioned.2
    obtain ⟨json, hjson⟩ := version4ViewJson_ok (h hall)
    exact ⟨_, by rw [hjson]; rfl⟩
  · exact ⟨_, rfl⟩

end Atom

namespace Molecule

/-- At the source wallet's address there are a hash, a key of that address and a signature to sign with. -/
theorem sign_ready {H : Shake256} {secret : ByteString} {m : Molecule} (front : Atom)
    (haddress : Wallet.addressAt H secret front.token front.position m.signingOtsVersion = .ok front.walletAddress)
    (hutf8 : (∀ a ∈ m.atoms, a.version.isSome) → ∀ a ∈ m.atoms, a.ValidUtf8) (compressed : Bool) :
    ∃ hash key signature, Atom.hashAtomsBase17 H m.atoms = .ok hash ∧
      Wallet.generateWalletKey H secret front.token front.position m.signingOtsVersion = .ok key ∧
      Wallet.generateWalletAddress H key = front.walletAddress ∧ oneTimeSignature H key hash compressed = .ok signature := by
  obtain ⟨hash, hhash⟩ := Atom.hashAtomsBase17_ok H hutf8
  obtain ⟨key, hkey, haddr⟩ : ∃ key, Wallet.generateWalletKey H secret front.token front.position m.signingOtsVersion =
      .ok key ∧ Wallet.generateWalletAddress H key = front.walletAddress := by
    unfold Wallet.addressAt at haddress
    cases hkey : Wallet.generateWalletKey H secret front.token front.position m.signingOtsVersion with
    | error e => simp [hkey, Except.map] at haddress
    | ok key => exact ⟨key, rfl, by simpa [hkey, Except.map] using haddress⟩
  obtain ⟨signature, hsig, _⟩ := oneTimeSignature_ok hkey (hashAtomsBase17_signable hhash) compressed
  exact ⟨hash, key, signature, hhash, hkey, haddr, hsig⟩

/-- Signing at the source wallet's address always succeeds, and the signed molecule passes the hash
check and the signature check. -/
theorem sign_verifies (H : Shake256) (secret : ByteString) (m : Molecule) (front : Atom) (rest : List Atom)
    (hatoms : m.atoms = front :: rest) (hempty : ∀ a ∈ m.atoms, a.otsFragment = [])
    (haddress : Wallet.addressAt H secret front.token front.position m.signingOtsVersion = .ok front.walletAddress)
    (hutf8 : (∀ a ∈ m.atoms, a.version.isSome) → ∀ a ∈ m.atoms, a.ValidUtf8) (anonymous compressed : Bool) :
    ∃ position m', (sign H secret anonymous compressed).exec m = (.ok position, m') ∧
      verifyMolecularHash H m' = .ok true ∧ verifyOts H m' = .ok () := by
  obtain ⟨hash, key, signature, hhash, hkey, haddr, hsig⟩ := sign_ready front haddress hutf8 compressed
  have hne : m.atoms ≠ [] := by simp [hatoms]
  refine ⟨_, _, sign_exec hatoms anonymous hhash hkey hsig, ?_, ?_⟩
  · exact verifyMolecularHash_signed hne hhash secret signature anonymous
  · exact verifyOts_signed hatoms hempty hhash hkey haddr hsig anonymous

/-- An unsigned metadata atom at the address its secret derives. -/
def unsignedAtom : Atom where
  position := ascii "0a"
  walletAddress := (Wallet.addressAt (.constant 0) (ascii "5ec7e7") (ascii "USER") (ascii "0a") 1).toOption.getD []
  isotope := ascii "M"
  token := ascii "USER"
  createdAt := 0

theorem addressAt_unsignedAtom :
    Wallet.addressAt (.constant 0) (ascii "5ec7e7") (ascii "USER") (ascii "0a") 1 = .ok unsignedAtom.walletAddress := by
  obtain ⟨sum, hkey⟩ := Wallet.generateWalletKey_eq (.constant 0) (ascii "USER") (v := 1) (.inl rfl)
    (show ascii "5ec7e7" ≠ [] by decide) (show ascii "0a" ≠ [] by decide)
  simp [unsignedAtom, Wallet.addressAt, hkey, Except.map, Except.toOption]

/-- Three atoms, over which the signature is split. -/
def unsignedMolecule : Molecule where
  atoms := [unsignedAtom, { unsignedAtom with isotope := ascii "V", value := ascii "5", index := 1 },
    { unsignedAtom with isotope := ascii "I", «meta» := [(ascii "previousPosition", ascii "0b")], index := 2 }]
  createdAt := 0

theorem sign_verifies_unsignedMolecule :
    ∃ position m', (sign (.constant 0) (ascii "5ec7e7") false true).exec unsignedMolecule = (.ok position, m') ∧
      verifyMolecularHash (.constant 0) m' = .ok true ∧ verifyOts (.constant 0) m' = .ok () :=
  sign_verifies (.constant 0) (ascii "5ec7e7") unsignedMolecule unsignedAtom _ rfl
    (by simp [unsignedMolecule, unsignedAtom]) addressAt_unsignedAtom (by simp [unsignedMolecule, unsignedAtom]) false
    true

/-- The same atom with a version and a value that is not UTF-8. -/
def garbledAtom : Atom := { unsignedAtom with value := [0xFF], version := some (ascii "4") }

/-- A list hashed through its structured view cannot be signed when a field is not UTF-8. -/
theorem sign_garbledAtom_throws :
    Wallet.addressAt (.constant 0) (ascii "5ec7e7") garbledAtom.token garbledAtom.position 1 =
        .ok garbledAtom.walletAddress ∧
      garbledAtom.otsFragment = [] ∧
      ((sign (.constant 0) (ascii "5ec7e7") false true).exec { atoms := [garbledAtom], createdAt := 0 }).1 =
        .error .jsonUtf8 := by
  have hview : (Atom.version4View [garbledAtom]).utf8 = false := by
    rw [Atom.version4View, List.mergeSort_singleton]
    decide
  have hhash : Atom.hashAtomsBase17 (.constant 0) [garbledAtom] = .error .jsonUtf8 := by
    have hversioned : Atom.allVersioned [garbledAtom] = true := rfl
    simp [Atom.hashAtomsBase17_eq, Atom.hashAtoms, hversioned, Atom.version4ViewJson, dumpJson, Json.dump, hview,
      Except.map]
  refine ⟨addressAt_unsignedAtom, rfl, ?_⟩
  simp [sign, hhash]

end Molecule

end KnishIO
