import KnishIO.Molecule.AtomOrder
import KnishIO.Molecule.RoundTrip
import KnishIO.Molecule.ServedRoundTrip

open ByteString

namespace KnishIO

namespace Molecule

section Order

variable {F : Json.FloatText} {served served' : Json} {forcedVersion : Option ByteString}

/-- The same served object with its array of atoms in another order. -/
structure ServedPermutes (served served' : Json) : Prop where
  rest : ∀ key, key ≠ ascii "atoms" → served'.find? key = served.find? key
  atoms : ∃ servedAtoms servedAtoms', served.find? (ascii "atoms") = some (.arr servedAtoms) ∧
    served'.find? (ascii "atoms") = some (.arr servedAtoms') ∧ servedAtoms'.Perm servedAtoms

/-- The results of a permuted list are permuted. -/
theorem mapM_perm {α β : Type} {f : α → Throws β} {xs xs' : List α} {ys : List β} (hperm : xs'.Perm xs)
    (h : xs.mapM f = .ok ys) : ∃ ys', xs'.mapM f = .ok ys' ∧ ys'.Perm ys := by
  obtain ⟨ys', hys', hresults⟩ := List.perm_comp_forall₂ hperm (Throws.mapM_ok_iff.mp h)
  exact ⟨ys', Throws.mapM_ok_iff.mpr hys', hresults⟩

theorem ServedPermutes.clientFields (h : ServedPermutes served served') (atoms : List Json) :
    clientFields served' atoms = clientFields served atoms := by
  have hmember {key : String} (hkey : ascii key ≠ ascii "atoms") : member served' key = member served key := by
    rw [member, member, h.rest _ hkey]
  have hstring {key : String} (hkey : ascii key ≠ ascii "atoms") : stringMember served' key = stringMember served key := by
    rw [stringMember, stringMember, hmember hkey]
  rw [Molecule.clientFields, Molecule.clientFields, hstring (by decide), hstring (by decide), hstring (by decide),
    hstring (by decide), createdAtMember, createdAtMember, hmember (by decide)]

theorem ServedPermutes.servesVersion_iff (h : ServedPermutes served served') :
    ServesVersion served' ↔ ServesVersion served := by
  obtain ⟨servedAtoms, servedAtoms', hfind, hfind', hperm⟩ := h.atoms
  have hany : servesVersion (.arr servedAtoms') = servesVersion (.arr servedAtoms) := hperm.any_eq
  simp only [ServesVersion, hfind, hfind', Option.some.injEq, exists_eq_left', hany]

/-- The permuted document is converted to the same fields, with its atoms permuted. -/
theorem ServedPermutes.servedToClient (h : ServedPermutes served served') {client : Json}
    (hclient : servedToClient F served forcedVersion = .ok client) :
    ∃ atoms atoms', client = Json.object (Json.presentFields (Molecule.clientFields served atoms)) ∧
      servedToClient F served' forcedVersion =
        .ok (Json.object (Json.presentFields (Molecule.clientFields served atoms'))) ∧ atoms'.Perm atoms := by
  obtain ⟨servedAtoms, atoms, hfind, hatoms, hfields⟩ := servedToClient_ok hclient
  obtain ⟨found, servedAtoms', hfound, hfind', hperm⟩ := h.atoms
  obtain rfl : found = servedAtoms := Json.arr.inj (Option.some.inj (hfound.symm.trans hfind))
  obtain ⟨atoms', hatoms', hclients⟩ := mapM_perm hperm hatoms
  have hmember : member served' "atoms" = some (.arr servedAtoms') := member_of_find? hfind' nofun
  refine ⟨atoms, atoms', hfields, ?_, hclients⟩
  rw [Molecule.servedToClient, isObject_of_member hmember, hmember]
  simp only [hatoms', h.clientFields]
  rfl

/-- A permuted served molecule is read as the molecule with its atoms permuted. -/
theorem ServedPermutes.clientView (h : ServedPermutes served served') (hserved : served.Valid F)
    (hserved' : served'.Valid F) (hforced : ∀ version, forcedVersion = some version → Utf8.valid version = true)
    {now : Int64} {m : Molecule} (hview : clientView F now served forcedVersion = .ok m) :
    ∃ m', Molecule.clientView F now served' forcedVersion = .ok m' ∧ Permutes m m' := by
  obtain ⟨client, hclient, hview⟩ := Throws.bind_ok hview
  obtain ⟨text, htext, hread⟩ := Throws.bind_ok hview
  obtain ⟨atoms, atoms', hfields, hclient', hperm⟩ := h.servedToClient hclient
  have hvalid := valid_servedToClient hserved hforced hclient
  have hvalid' := valid_servedToClient hserved' hforced hclient'
  rw [(dumpJson_ok htext).2, hfields] at hread
  rw [hfields] at hvalid
  have hfound (items : List Json) :
      (Json.object (Json.presentFields (Molecule.clientFields served items))).find? (ascii "atoms") = some (.arr items) :=
    find?_clientFields (by simp [Molecule.clientFields])
  obtain ⟨read, hread', hresults⟩ : ∃ read, readAtoms F now
      (Json.object (Json.presentFields (Molecule.clientFields served atoms'))) = .ok read ∧ read.Perm m.atoms := by
    obtain ⟨json, _, _, hjson, _, _, _, _, hatoms, _⟩ := jsonToObject_ok hread
    rw [parseJson, Json.parse_text F _ hvalid] at hjson
    obtain rfl := Except.ok.inj hjson
    rw [readAtoms, hfound] at hatoms
    rw [readAtoms, hfound]
    exact mapM_perm hperm hatoms
  obtain ⟨createdAt, hmolecule, hsame⟩ := jsonToObject_headKeys hvalid hvalid' find?_headKeys hread now hread'
  obtain rfl := hsame rfl
  refine ⟨{ m with atoms := read }, ?_, rfl, hresults⟩
  simp only [Molecule.clientView, hclient', dumpJson, Json.dump_valid F _ hvalid', bind, Except.bind, hmolecule]

/-- With a version on every atom and distinct indexes the hash is the same in every order, and the verdict is as long as
what is read in order stays. A served molecule that passes, as served or under a forced version where none is served,
passes in every such order. -/
theorem verdict_permuted (F : Json.FloatText) (H : Shake256) (clock : Option ByteString → Int64) :
    (∀ m m', Permutes m m' → Atom.allVersioned m.atoms = true → (m.atoms.map Atom.index).Nodup →
      verifyMolecularHash H m' = verifyMolecularHash H m ∧
      (KeepsReading m m' → verify H m' = verify H m ∧ check H m' = check H m) ∧
      (verify H m = .ok true → m'.carriedOts = m.carriedOts → valueAtoms m'.atoms = valueAtoms m.atoms →
        (verify H m' = .ok true ↔
          m'.atoms.head?.map Atom.walletAddress = m.atoms.head?.map Atom.walletAddress))) ∧
    (∀ servedJson servedJson' served served', Json.parse F servedJson = some served →
      Json.parse F servedJson' = some served' → ServedPermutes served served' → ∀ forcedVersion m,
      (forcedVersion = none ∨
        ¬ ServesVersion served ∧ (forcedVersion = some (ascii "4") ∨ forcedVersion = some (ascii "3"))) →
      clientView F (clock forcedVersion) served forcedVersion = .ok m → Atom.allVersioned m.atoms = true →
      (m.atoms.map Atom.index).Nodup →
      ∃ m', clientView F (clock forcedVersion) served' forcedVersion = .ok m' ∧ Permutes m m' ∧
        verifyMolecularHash H m' = verifyMolecularHash H m ∧
        (KeepsReading m m' → check H m' = check H m ∧
          (forcedVersion = none →
            verifyFromServerData F H clock servedJson' = verifyFromServerData F H clock servedJson) ∧
          (check H m = .ok () → ∃ r, verifyFromServerData F H clock servedJson' = .ok r ∧ r.verified = true))) := by
  refine ⟨fun m m' hperm hversioned hdistinct => ⟨hperm.verifyMolecularHash H hversioned hdistinct, fun hkeeps =>
    ⟨hperm.verify H hversioned hdistinct hkeeps, hperm.check H hversioned hdistinct hkeeps⟩,
    fun haccepted hsignature hvalues => hperm.verify_iff hversioned hdistinct hsignature hvalues haccepted⟩, ?_⟩
  intro servedJson servedJson' served served' hparse hparse' hserved forcedVersion m hforced hview hversioned hdistinct
  have hutf8 : ∀ version, forcedVersion = some version → Utf8.valid version = true := by
    rintro version rfl
    obtain hnone | ⟨_, hversion | hversion⟩ := hforced
    · cases hnone
    · obtain rfl := Option.some.inj hversion
      decide
    · obtain rfl := Option.some.inj hversion
      decide
  have hvalid := Json.parse_valid hparse
  have hvalid' := Json.parse_valid hparse'
  obtain ⟨m', hview', hperm⟩ := hserved.clientView hvalid hvalid' hutf8 hview
  have hhash := hperm.verifyMolecularHash H hversioned hdistinct
  refine ⟨m', hview', hperm, hhash, fun hkeeps => ?_⟩
  have hcheck := hperm.check H hversioned hdistinct hkeeps
  refine ⟨hcheck, ?_, fun haccepted => ?_⟩
  · rintro rfl
    have hserves : ServesVersion served := by
      have hatoms : m.atoms ≠ [] ∧ ∀ a ∈ m.atoms, a.version.isSome = true := by simpa [Atom.allVersioned] using hversioned
      obtain ⟨a, ha⟩ := List.exists_mem_of_ne_nil m.atoms hatoms.1
      exact servesVersion_of_view hvalid hview ha (hatoms.2 a ha)
    have hclient : verifyClient F H (clock none) served' none = verifyClient F H (clock none) served none := by
      simp only [verifyClient, hview, hview', hperm.molecularHash, hhash, hcheck]
    rw [verifyFromServerData_of_servesVersion hparse hserves,
      verifyFromServerData_of_servesVersion hparse' (hserved.servesVersion_iff.mpr hserves), hclient]
  · rw [← hcheck] at haccepted
    obtain rfl | ⟨hserves, hversion⟩ := hforced
    · exact verifyFromServerData_of_verified hparse' (verifyClient_verified hview' haccepted)
    · have hserves' : ¬ ServesVersion served' := fun h => hserves (hserved.servesVersion_iff.mp h)
      obtain rfl | rfl := hversion
      · exact verifyFromServerData_of_forced hparse' hserves' (by simp) hview' haccepted
      · exact verifyFromServerData_of_forced hparse' hserves' (by simp) hview' haccepted

end Order

section Example

def listedAtom (walletAddress otsFragment : ByteString) (index : Int32) : Atom where
  position := ascii "0a"
  walletAddress := walletAddress
  isotope := ascii "M"
  token := ascii "T"
  otsFragment := otsFragment
  createdAt := 0
  index := index
  version := some (ascii "4")

/-- The signer under a hash with one output; it carries the whole signature. -/
def signerAtom : Atom := listedAtom (shake256Hex (.constant 0) [] 256) (List.replicate 2048 48) 0

def secondAtom : Atom := listedAtom (ascii "0b") [] 1

def thirdAtom : Atom := listedAtom (ascii "0c") [] 2

def listed (atoms : List Atom) : Molecule := { molecularHash := List.replicate 64 48, atoms, createdAt := 0 }

theorem validUtf8_listedAtom {walletAddress : ByteString} (h : Utf8.valid walletAddress = true) (otsFragment : ByteString)
    (index : Int32) : (listedAtom walletAddress otsFragment index).ValidUtf8 := by
  refine ⟨rfl, h, rfl, rfl, rfl, rfl, rfl, rfl, nofun, nofun, ?_⟩
  rintro _ ⟨⟩
  rfl

theorem check_listed : check (.constant 0) (listed [signerAtom, secondAtom, thirdAtom]) = .ok () := by
  have hutf8 : ∀ a ∈ [signerAtom, secondAtom, thirdAtom], a.ValidUtf8 := by
    simp only [List.forall_mem_cons, List.not_mem_nil, false_implies, implies_true, and_true]
    exact ⟨validUtf8_listedAtom (by decide) _ _, validUtf8_listedAtom (by decide) _ _, validUtf8_listedAtom (by decide) _ _⟩
  obtain ⟨text, htext⟩ := Atom.version4ViewJson_ok hutf8
  have hhash : verifyMolecularHash (.constant 0) (listed [signerAtom, secondAtom, thirdAtom]) = .ok true := by
    refine verifyMolecularHash_ok_iff.mpr ⟨nofun, nofun, List.replicate 32 0, ?_, by decide +kernel⟩
    rw [listed, Atom.hashAtoms, htext]
    rfl
  have hots : verifyOts (.constant 0) (listed [signerAtom, secondAtom, thirdAtom]) = .ok () := by
    have hsignable : WalletCrypto.isSignableHash (List.replicate 64 48) = true := by decide
    have hcarried : (listed [signerAtom, secondAtom, thirdAtom]).carriedOts = List.replicate 2048 48 := List.append_nil _
    have hdecode : decodeOts (listed [signerAtom, secondAtom, thirdAtom]).carriedOts = .ok (List.replicate 2048 48) := by
      rw [hcarried, decodeOts, if_pos (.inl List.length_replicate)]
    exact verifyOts_of_decoded rfl hsignable hdecode rfl
  exact check_ok_iff.mpr ⟨nofun, rfl, hhash, hots, rfl⟩

theorem permutes_listed {atoms atoms' : List Atom} (h : atoms'.Perm atoms) : Permutes (listed atoms) (listed atoms') :=
  ⟨rfl, h⟩

theorem keepsReading_listed :
    KeepsReading (listed [signerAtom, secondAtom, thirdAtom]) (listed [signerAtom, thirdAtom, secondAtom]) where
  signature := by simp [carriedOts, listed, secondAtom, thirdAtom, listedAtom]
  address := by simp [listed]
  token := by simp [listed]
  values := (valueAtoms_eq_nil (by decide +kernel)).trans (valueAtoms_eq_nil (by decide +kernel)).symm

/-- The served rendering of such an atom. -/
def servedListedAtom (a : Atom) : Json :=
  .obj [(ascii "createdAt", .int 0), (ascii "index", .int a.index.toInt), (ascii "isotope", .str a.isotope),
    (ascii "metasJson", .arr []), (ascii "otsFragment", .str a.otsFragment), (ascii "position", .str a.position),
    (ascii "tokenSlug", .str a.token), (ascii "version", .str (ascii "4")), (ascii "walletAddress", .str a.walletAddress)]

def servedListed (atoms : List Atom) : Json :=
  Json.object [(ascii "molecularHash", .str (List.replicate 64 48)), (ascii "createdAt", .int 0),
    (ascii "atoms", .arr (atoms.map servedListedAtom))]

theorem renders_servedListedAtom (F : Json.FloatText) (walletAddress otsFragment : ByteString) (index : Int32) :
    RendersAtom F (servedListedAtom (listedAtom walletAddress otsFragment index))
      (listedAtom walletAddress otsFragment index) where
  position := rfl
  walletAddress := rfl
  isotope := rfl
  token := .inl rfl
  value := .inr ⟨rfl, rfl, rfl⟩
  batchId := .inr ⟨rfl, rfl, rfl⟩
  metaType := .inr ⟨rfl, rfl, rfl⟩
  metaId := .inr ⟨rfl, rfl, rfl⟩
  metas := ⟨[], [], rfl, rfl, .nil, .inl rfl⟩
  otsFragment := .inl rfl
  createdAt := .inl rfl
  index := .inl rfl
  version := .inl rfl

theorem valid_servedListedAtom (F : Json.FloatText) {walletAddress otsFragment : ByteString}
    (haddress : Utf8.valid walletAddress = true) (hfragment : Utf8.valid otsFragment = true) (index : Int32) :
    (servedListedAtom (listedAtom walletAddress otsFragment index)).Valid F := by
  have hstr {s : ByteString} (hs : Utf8.valid s = true) : (Json.str s).Valid F := hs
  have hindex : (Json.int index.toInt).Valid F := by
    have hlow := index.le_toInt
    have hhigh := index.toInt_lt
    exact ⟨by omega, by omega⟩
  have hsorted : (["createdAt", "index", "isotope", "metasJson", "otsFragment", "position", "tokenSlug", "version",
      "walletAddress"].map ascii).Pairwise (· < ·) := by decide
  refine ⟨(List.pairwise_map (f := Prod.fst)).mp hsorted, (Json.validMembers_iff F _).mpr ?_⟩
  simp only [List.forall_mem_cons, List.not_mem_nil, false_implies, implies_true, and_true]
  exact ⟨⟨by decide, by norm_num, by norm_num⟩, ⟨by decide, hindex⟩, ⟨by decide, hstr rfl⟩, ⟨by decide, trivial⟩,
    ⟨by decide, hstr hfragment⟩, ⟨by decide, hstr rfl⟩, ⟨by decide, hstr rfl⟩, ⟨by decide, hstr (by decide)⟩, by decide,
    hstr haddress⟩

theorem valid_servedListed (F : Json.FloatText) {atoms : List Atom}
    (h : ∀ a ∈ atoms, (servedListedAtom a).Valid F) : (servedListed atoms).Valid F := by
  have hhash : (Json.str (List.replicate 64 48)).Valid F := show Utf8.valid (List.replicate 64 48) = true by decide
  apply Json.valid_object
  simp only [List.forall_mem_cons, List.not_mem_nil, false_implies, implies_true, and_true]
  refine ⟨⟨by decide, hhash⟩, ⟨by decide, by norm_num, by norm_num⟩, by decide, ?_⟩
  apply Json.valid_arr
  intro j hj
  obtain ⟨a, ha, rfl⟩ := List.mem_map.mp hj
  exact h a ha

theorem servedPermutes_listed {atoms atoms' : List Atom} (h : atoms'.Perm atoms) :
    ServedPermutes (servedListed atoms) (servedListed atoms') where
  rest key hkey := by
    have hobject (items : List Atom) : servedListed items = .obj [(ascii "atoms", .arr (items.map servedListedAtom)),
        (ascii "createdAt", .int 0), (ascii "molecularHash", .str (List.replicate 64 48))] := rfl
    simp only [hobject, Json.find?, Json.lookup, if_neg hkey.symm]
  atoms := ⟨_, _, rfl, rfl, h.map servedListedAtom⟩

theorem clientView_listed {atoms : List Atom} (hatoms : ∀ a ∈ atoms, ∃ walletAddress otsFragment index,
      walletAddress ≠ [] ∧ Utf8.valid walletAddress = true ∧ Utf8.valid otsFragment = true ∧
      a = listedAtom walletAddress otsFragment index) :
    (servedListed atoms).Valid integersOnly ∧ clientView integersOnly 0 (servedListed atoms) none = .ok (listed atoms) := by
  have hvalid : (servedListed atoms).Valid integersOnly := by
    apply valid_servedListed
    intro a ha
    obtain ⟨walletAddress, otsFragment, index, _, haddress, hfragment, rfl⟩ := hatoms a ha
    exact valid_servedListedAtom integersOnly haddress hfragment index
  have hfilled : ∀ a ∈ (listed atoms).atoms, filled a = true := by
    intro a ha
    obtain ⟨walletAddress, otsFragment, index, hne, _, _, rfl⟩ := hatoms a ha
    simp [filled, listedAtom, hne, ascii]
  have hrenders : Renders integersOnly (servedListed atoms) (listed atoms) := {
    bundle := .inr ⟨rfl, rfl⟩
    molecularHash := .inl rfl
    cellSlug := .inr ⟨rfl, rfl⟩
    status := .inr ⟨rfl, rfl⟩
    createdAt := .inl rfl
    atoms := by
      refine ⟨_, rfl, List.forall₂_map_left_iff.mpr (List.forall₂_same.mpr fun a ha => ?_)⟩
      obtain ⟨walletAddress, otsFragment, index, _, _, _, rfl⟩ := hatoms a ha
      exact renders_servedListedAtom integersOnly walletAddress otsFragment index }
  have hview := clientView_of_renders hvalid 0 none (by simp) hfilled ⟨rfl, rfl⟩ hrenders
  rw [map_underVersion_none] at hview
  exact ⟨hvalid, hview⟩

/-- The two atoms that carry no signature may trade places. -/
theorem verdict_permuted_listed :
    verify (.constant 0) (listed [signerAtom, thirdAtom, secondAtom]) = .ok true ∧
      ∃ r, verifyFromServerData integersOnly (.constant 0) (fun _ => 0)
        (servedListed [signerAtom, thirdAtom, secondAtom]).text = .ok r ∧ r.verified = true := by
  have hperm : [signerAtom, thirdAtom, secondAtom].Perm [signerAtom, secondAtom, thirdAtom] := .cons _ (.swap _ _ _)
  have hversioned : Atom.allVersioned (listed [signerAtom, secondAtom, thirdAtom]).atoms = true := rfl
  have hdistinct : ((listed [signerAtom, secondAtom, thirdAtom]).atoms.map Atom.index).Nodup := by decide
  have haccepted := verify_of_check check_listed
  obtain ⟨hdirect, hserved⟩ := verdict_permuted integersOnly (.constant 0) fun _ => 0
  obtain ⟨_, hkeep, _⟩ := hdirect _ _ (permutes_listed hperm) hversioned hdistinct
  refine ⟨(hkeep keepsReading_listed).1.trans haccepted, ?_⟩
  have hshape : ∀ a ∈ [signerAtom, secondAtom, thirdAtom], ∃ walletAddress otsFragment index, walletAddress ≠ [] ∧
      Utf8.valid walletAddress = true ∧ Utf8.valid otsFragment = true ∧ a = listedAtom walletAddress otsFragment index := by
    have hzeros : Utf8.valid (List.replicate 2048 48) = true :=
      Utf8.valid_of_ascii fun c hc => by rw [List.eq_of_mem_replicate hc]; decide
    simp only [List.forall_mem_cons, List.not_mem_nil, false_implies, implies_true, and_true]
    exact ⟨⟨_, _, _, by decide, by decide, hzeros, rfl⟩, ⟨_, _, _, by decide, by decide, rfl, rfl⟩,
      _, _, _, by decide, by decide, rfl, rfl⟩
  have hshape' : ∀ a ∈ [signerAtom, thirdAtom, secondAtom], ∃ walletAddress otsFragment index, walletAddress ≠ [] ∧
      Utf8.valid walletAddress = true ∧ Utf8.valid otsFragment = true ∧ a = listedAtom walletAddress otsFragment index :=
    fun a ha => hshape a (hperm.mem_iff.mp ha)
  obtain ⟨hvalid, hview⟩ := clientView_listed hshape
  obtain ⟨hvalid', hview'⟩ := clientView_listed hshape'
  obtain ⟨m', hread, _, _, hverdict⟩ := hserved _ _ _ _ (Json.parse_text _ _ hvalid) (Json.parse_text _ _ hvalid')
    (servedPermutes_listed hperm) none _ (.inl rfl) hview hversioned hdistinct
  obtain rfl := Except.ok.inj (hread.symm.trans hview')
  exact (hverdict keepsReading_listed).2.2 check_listed

/-- With another atom in front the molecule is refused, though its hash is the same. -/
theorem front_moved_refused :
    verify (.constant 0) (listed [signerAtom, secondAtom, thirdAtom]) = .ok true ∧
      ((listed [signerAtom, secondAtom, thirdAtom]).atoms.map Atom.index).Nodup ∧
      Permutes (listed [signerAtom, secondAtom, thirdAtom]) (listed [secondAtom, signerAtom, thirdAtom]) ∧
      verifyMolecularHash (.constant 0) (listed [secondAtom, signerAtom, thirdAtom]) = .ok true ∧
      verify (.constant 0) (listed [secondAtom, signerAtom, thirdAtom]) ≠ .ok true ∧
      check (.constant 0) (listed [secondAtom, signerAtom, thirdAtom]) ≠ .ok () := by
  have hperm : Permutes (listed [signerAtom, secondAtom, thirdAtom]) (listed [secondAtom, signerAtom, thirdAtom]) :=
    permutes_listed (.swap _ _ _)
  have hversioned : Atom.allVersioned (listed [signerAtom, secondAtom, thirdAtom]).atoms = true := rfl
  have hdistinct : ((listed [signerAtom, secondAtom, thirdAtom]).atoms.map Atom.index).Nodup := by decide
  have haccepted := verify_of_check check_listed
  have hrefused : verify (.constant 0) (listed [secondAtom, signerAtom, thirdAtom]) ≠ .ok true := by
    intro h
    have hsignature : (listed [secondAtom, signerAtom, thirdAtom]).carriedOts =
        (listed [signerAtom, secondAtom, thirdAtom]).carriedOts := by
      simp [carriedOts, listed, secondAtom, thirdAtom, listedAtom]
    have haddress := (hperm.verify_iff hversioned hdistinct hsignature rfl haccepted).mp h
    exact absurd haddress (by decide)
  refine ⟨haccepted, hdistinct, hperm, ?_, hrefused, fun h => hrefused (verify_of_check h)⟩
  rw [hperm.verifyMolecularHash (.constant 0) hversioned hdistinct]
  exact (verify_ok_iff.mp haccepted).1

end Example

end Molecule

end KnishIO
