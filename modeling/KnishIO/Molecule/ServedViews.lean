import KnishIO.Molecule.Binding
import KnishIO.Molecule.ServedVerdict

open ByteString

namespace KnishIO

namespace Molecule

section SameBody

variable {H : Shake256}

/-- The two atoms differ in the version and the time alone. -/
def SameBody (a a' : Atom) : Prop := a' = { a with createdAt := a'.createdAt, version := a'.version }

theorem verifyOts_sameBody {m m' : Molecule} (hatoms : List.Forall₂ SameBody m.atoms m'.atoms)
    (hhash : m'.molecularHash = m.molecularHash) : verifyOts H m' = verifyOts H m := by
  have hots : m'.carriedOts = m.carriedOts := by
    unfold carriedOts
    generalize m.atoms = xs at hatoms
    generalize m'.atoms = ys at hatoms
    clear hhash
    induction hatoms with
    | nil => rfl
    | @cons a a' _ _ hhead _ ih =>
      have hfragment : a'.otsFragment = a.otsFragment := by rw [hhead]
      rw [List.flatMap_cons, List.flatMap_cons, hfragment, ih]
  unfold verifyOts
  rw [hots, hhash]
  generalize m.atoms = xs at hatoms
  generalize m'.atoms = ys at hatoms
  cases hatoms with
  | nil => rfl
  | @cons a a' _ _ hhead _ =>
    have haddress : a'.walletAddress = a.walletAddress := by rw [hhead]
    simp only [haddress]

theorem verifyContinuId_sameBody {m m' : Molecule} (hatoms : List.Forall₂ SameBody m.atoms m'.atoms) :
    verifyContinuId m' = verifyContinuId m := by
  have hany : (m'.atoms.any fun a => a.isotope = ascii "I") = m.atoms.any fun a => a.isotope = ascii "I" := by
    generalize m.atoms = xs at hatoms
    generalize m'.atoms = ys at hatoms
    induction hatoms with
    | nil => rfl
    | @cons a a' _ _ hhead _ ih =>
      have hisotope : a'.isotope = a.isotope := by rw [hhead]
      rw [List.any_cons, List.any_cons, hisotope, ih]
  unfold verifyContinuId
  generalize m.atoms = xs at hatoms hany
  generalize m'.atoms = ys at hatoms hany
  cases hatoms with
  | nil => rfl
  | @cons a a' _ _ hhead _ =>
    have htoken : a'.token = a.token := by rw [hhead]
    simp only [htoken, hany]

theorem tokenValid_sameBody {m m' : Molecule} (hatoms : List.Forall₂ SameBody m.atoms m'.atoms)
    (hhash : m'.molecularHash = m.molecularHash) : tokenValid m' = tokenValid m := by
  have hledger : List.Forall₂ SameLedger m'.atoms m.atoms := by
    refine (hatoms.imp fun a a' (hbody : SameBody a a') => ?_).flip
    exact show SameLedger a' a by rw [hbody]; exact ⟨rfl, rfl, rfl, rfl, rfl⟩
  rw [tokenValid, tokenValid, verifyTokenIsotopeV_congr hledger hhash]

/-- What `check` asks for beside the hash does not see the versions or the times. -/
theorem check_sameBody {m m' : Molecule} (hatoms : List.Forall₂ SameBody m.atoms m'.atoms)
    (hhash : m'.molecularHash = m.molecularHash) (hcheck : check H m = .ok ())
    (hvalid : verifyMolecularHash H m' = .ok true) : check H m' = .ok () := by
  obtain ⟨_, hcontinuId, _, hots, htoken⟩ := check_ok_iff.mp hcheck
  refine check_ok_iff.mpr ⟨(verifyMolecularHash_ok_iff.mp hvalid).1, ?_, hvalid, ?_, ?_⟩
  · rw [verifyContinuId_sameBody hatoms, hcontinuId]
  · rw [verifyOts_sameBody hatoms hhash, hots]
  · rw [tokenValid_sameBody hatoms hhash, htoken]

/-- Without versions the hash is computed, never refused. -/
theorem verifyMolecularHash_unversioned {m : Molecule} (hlegacy : ∀ a ∈ m.atoms, a.version = none) :
    ∃ valid, verifyMolecularHash H m = .ok valid := by
  unfold verifyMolecularHash
  split
  · rw [Atom.hashAtomsBase17_legacy H hlegacy]
    exact ⟨_, rfl⟩
  · exact ⟨false, rfl⟩

end SameBody

section Reread

variable {F : Json.FloatText} {now : Int64} {object served servedAtom client client' : Json}
  {forcedVersion : Option ByteString} {atom : Atom}

theorem isObject_of_member {key : String} {value : Json} (h : member object key = some value) : object.isObject = true := by
  have hfind := (member_find? h).1
  cases object <;> first | rfl | cases hfind

/-- Reading an atom's own text. -/
theorem readAtom_of_ofJson {now : Int64} {client : Json} (hclient : client.Valid F)
    (h : Atom.ofJson now client = .ok atom) (hfilled : filled atom = true) : readAtom F now client = .ok atom := by
  have hread : Atom.jsonToObject F now client.text = .ok atom := by
    simp [Atom.jsonToObject, parseJson, Json.parse_text F _ hclient, bind, Except.bind, h]
  have hnot : ¬ (atom.position = [] ∨ atom.walletAddress = [] ∨ atom.isotope = []) := by
    simpa [filled, and_assoc] using hfilled
  simp only [readAtom, dumpJson, Json.dump_valid F _ hclient, bind, Except.bind, hread, pure, Except.pure, if_neg hnot]

/-- The fields of a client-format atom beside its version. -/
def bodyKeys : List String :=
  ["position", "walletAddress", "isotope", "token", "value", "batchId", "metaType", "metaId", "meta", "otsFragment",
    "createdAt", "index"]

/-- Under another version an atom is converted to the same fields. -/
theorem servedAtomToClient_forced (h : servedAtomToClient F forcedVersion servedAtom = .ok client)
    (forcedVersion' : Option ByteString) : ∃ client', servedAtomToClient F forcedVersion' servedAtom = .ok client' ∧
      ∀ key ∈ bodyKeys, client'.find? (ascii key) = client.find? (ascii key) := by
  obtain ⟨value, hvalue, rfl⟩ := servedAtomToClient_ok h
  have hobject : servedAtom.isObject = true := by
    rw [servedAtomToClient] at h
    split at h
    · cases h
    · simp_all
  have hkeep (key : String) (field : Option Json)
      (hmem : ∀ version, (ascii key, field) ∈ clientAtomFields F version servedAtom value) :
      (Json.object (Json.presentFields (clientAtomFields F forcedVersion' servedAtom value))).find? (ascii key) =
        (Json.object (Json.presentFields (clientAtomFields F forcedVersion servedAtom value))).find? (ascii key) :=
    (find?_clientAtomFields (hmem forcedVersion')).trans (find?_clientAtomFields (hmem forcedVersion)).symm
  refine ⟨Json.object (Json.presentFields (clientAtomFields F forcedVersion' servedAtom value)), ?_, ?_⟩
  · rw [servedAtomToClient, hobject, hvalue]
    rfl
  · simp only [bodyKeys, List.forall_mem_cons, List.not_mem_nil, false_implies, implies_true, and_true]
    exact ⟨hkeep "position" (stringMember servedAtom "position") (by simp [clientAtomFields]),
      hkeep "walletAddress" (stringMember servedAtom "walletAddress") (by simp [clientAtomFields]),
      hkeep "isotope" (stringMember servedAtom "isotope") (by simp [clientAtomFields]),
      hkeep "token" (tokenMember servedAtom) (by simp [clientAtomFields]),
      hkeep "value" value (by simp [clientAtomFields]),
      hkeep "batchId" (stringMember servedAtom "batchId") (by simp [clientAtomFields]),
      hkeep "metaType" (stringMember servedAtom "metaType") (by simp [clientAtomFields]),
      hkeep "metaId" (stringMember servedAtom "metaId") (by simp [clientAtomFields]),
      hkeep "meta" (some (metaMember F servedAtom)) (by simp [clientAtomFields]),
      hkeep "otsFragment" (stringMember servedAtom "otsFragment") (by simp [clientAtomFields]),
      hkeep "createdAt" (createdAtMember servedAtom) (by simp [clientAtomFields]),
      hkeep "index" (indexMember servedAtom) (by simp [clientAtomFields])⟩

/-- An atom is read from the same fields at another time. -/
theorem ofJson_sameBody (hkeys : ∀ key ∈ bodyKeys, client'.find? (ascii key) = client.find? (ascii key)) {atom : Atom}
    (h : Atom.ofJson now client = .ok atom) (now' : Int64) :
    ∃ atom', Atom.ofJson now' client' = .ok atom' ∧ SameBody atom atom' := by
  obtain ⟨metas, fragmentFlag, hposition, haddress, hisotope, htoken, hvalue, hbatchId, hmetaType, hmetaId, hmeta, hpresent,
    hnulls, hfragment, hcreatedAt, hindex, _⟩ := Atom.ofJson_ok h
  have hstring (key : String) (hkey : key ∈ bodyKeys) : Atom.readString client' key = Atom.readString client key := by
    rw [Atom.readString, Atom.readString, hkeys key hkey]
  have hoptional (key : String) (hkey : key ∈ bodyKeys) : Atom.readOptional client' key = Atom.readOptional client key := by
    rw [Atom.readOptional, Atom.readOptional, hkeys key hkey]
  have hmeta' : Atom.readMeta client' = .ok metas := by
    rw [Atom.readMeta, hkeys "meta" (by simp [bodyKeys]), ← Atom.readMeta, hmeta]
  have hindex' : Atom.readIndex client' = atom.index := by
    rw [Atom.readIndex, hkeys "index" (by simp [bodyKeys]), ← Atom.readIndex, hindex]
  obtain ⟨createdAt, hcreatedAt'⟩ : ∃ createdAt, Atom.readCreatedAt now' client' = .ok createdAt := by
    rw [Atom.readCreatedAt] at hcreatedAt
    rw [Atom.readCreatedAt, hkeys "createdAt" (by simp [bodyKeys])]
    cases hfind : client.find? (ascii "createdAt") with
    | none => exact ⟨now', rfl⟩
    | some value =>
      rw [hfind] at hcreatedAt
      cases value <;> exact ⟨atom.createdAt, hcreatedAt⟩
  refine ⟨{ atom with createdAt, version := Atom.readVersion client' }, ?_, rfl⟩
  simp only [Atom.ofJson, hstring "position" (by simp [bodyKeys]), hposition, hstring "walletAddress" (by simp [bodyKeys]),
    haddress, hstring "isotope" (by simp [bodyKeys]), hisotope, hstring "token" (by simp [bodyKeys]), htoken,
    hoptional "value" (by simp [bodyKeys]), hvalue, hoptional "batchId" (by simp [bodyKeys]), hbatchId,
    hoptional "metaType" (by simp [bodyKeys]), hmetaType, hoptional "metaId" (by simp [bodyKeys]), hmetaId, hmeta',
    hoptional "otsFragment" (by simp [bodyKeys]), hfragment, hcreatedAt', hindex', bind, Except.bind, pure, Except.pure,
    hpresent, hnulls]

/-- The fields of a client-format molecule beside its atoms. -/
def headKeys : List String := ["bundle", "molecularHash", "cellSlug", "status", "createdAt"]

theorem find?_headKeys {atoms atoms' : List Json} : ∀ key ∈ headKeys,
    (Json.object (Json.presentFields (clientFields served atoms'))).find? (ascii key) =
      (Json.object (Json.presentFields (clientFields served atoms))).find? (ascii key) := by
  have hkeep (key : String) (value : Option Json) (hmem : ∀ items, (ascii key, value) ∈ clientFields served items) :
      (Json.object (Json.presentFields (clientFields served atoms'))).find? (ascii key) =
        (Json.object (Json.presentFields (clientFields served atoms))).find? (ascii key) :=
    (find?_clientFields (hmem atoms')).trans (find?_clientFields (hmem atoms)).symm
  simp only [headKeys, List.forall_mem_cons, List.not_mem_nil, false_implies, implies_true, and_true]
  exact ⟨hkeep "bundle" (stringMember served "bundleHash") (by simp [clientFields]),
    hkeep "molecularHash" (stringMember served "molecularHash") (by simp [clientFields]),
    hkeep "cellSlug" (stringMember served "cellSlug") (by simp [clientFields]),
    hkeep "status" (stringMember served "status") (by simp [clientFields]),
    hkeep "createdAt" (createdAtMember served) (by simp [clientFields])⟩

/-- Two documents with the same fields beside their atoms are read as two molecules with the same fields. -/
theorem jsonToObject_headKeys (hvalid : client.Valid F) (hvalid' : client'.Valid F)
    (hkeys : ∀ key ∈ headKeys, client'.find? (ascii key) = client.find? (ascii key)) {m : Molecule}
    (h : jsonToObject F now client.text = .ok m) (now' : Int64) {atoms : List Atom}
    (hatoms : readAtoms F now' client' = .ok atoms) :
    ∃ createdAt, jsonToObject F now' client'.text = .ok { m with atoms, createdAt } ∧ (now' = now → createdAt = m.createdAt) := by
  obtain ⟨json, slugFlag, statusFlag, hjson, hhash, hcellSlug, hbundle, hstatus, _, hcreatedAt, hsource, hremainder⟩ :=
    jsonToObject_ok h
  rw [parseJson, Json.parse_text F _ hvalid] at hjson
  obtain rfl := Except.ok.inj hjson
  have hstring (key : String) (hkey : key ∈ headKeys) : Atom.readString client' key = Atom.readString client key := by
    rw [Atom.readString, Atom.readString, hkeys key hkey]
  have hoptional (key : String) (hkey : key ∈ headKeys) : Atom.readOptional client' key = Atom.readOptional client key := by
    rw [Atom.readOptional, Atom.readOptional, hkeys key hkey]
  obtain ⟨createdAt, hcreatedAt', hsame⟩ : ∃ createdAt, readCreatedAt now' client' = .ok createdAt ∧
      (now' = now → createdAt = m.createdAt) := by
    rw [readCreatedAt] at hcreatedAt
    rw [readCreatedAt, hkeys "createdAt" (by simp [headKeys])]
    cases hfind : client.find? (ascii "createdAt") with
    | none =>
      rw [hfind] at hcreatedAt
      exact ⟨now', rfl, fun hnow => hnow.trans (Except.ok.inj hcreatedAt)⟩
    | some value =>
      rw [hfind] at hcreatedAt
      exact ⟨m.createdAt, hcreatedAt, fun _ => rfl⟩
  refine ⟨createdAt, ?_, hsame⟩
  simp only [jsonToObject, parseJson, Json.parse_text F _ hvalid', hstring "molecularHash" (by simp [headKeys]), hhash,
    hoptional "cellSlug" (by simp [headKeys]), hcellSlug, hstring "bundle" (by simp [headKeys]), hbundle,
    hoptional "status" (by simp [headKeys]), hstatus, hatoms, hcreatedAt', bind, Except.bind, pure, Except.pure]
  rw [hsource, hremainder]

/-- A molecule that is read under a forced version is read as served too, at every time. -/
theorem clientView_sameBody (hserved : served.Valid F)
    (hforced : ∀ version, forcedVersion = some version → Utf8.valid version = true) {m : Molecule}
    (h : clientView F now served forcedVersion = .ok m) (now' : Int64) :
    ∃ m', clientView F now' served none = .ok m' ∧ m'.molecularHash = m.molecularHash ∧
      List.Forall₂ SameBody m.atoms m'.atoms := by
  obtain ⟨servedAtoms, clients, client, hfind, hclients, hfields, hparse, hread, hatoms⟩ := clientView_ok hserved hforced h
  have hmember : member served "atoms" = some (.arr servedAtoms) := member_of_find? hfind nofun
  have hvalidAtoms : ∀ a ∈ servedAtoms, a.Valid F := fun a ha =>
    Json.valid_of_elements (Json.valid_of_find? hserved hfind) ha
  obtain ⟨clients', atoms, hclients', hreads, hbodies⟩ : ∃ clients' atoms,
      List.Forall₂ (fun servedAtom client => servedAtomToClient F none servedAtom = .ok client) servedAtoms clients' ∧
        List.Forall₂ (fun client atom => readAtom F now' client = .ok atom) clients' atoms ∧
        List.Forall₂ SameBody m.atoms atoms := by
    clear hfind hfields hparse hread hmember h
    generalize m.atoms = read at hatoms
    induction hclients generalizing read with
    | nil =>
      cases hatoms
      exact ⟨[], [], .nil, .nil, .nil⟩
    | cons hhead _ ih =>
      obtain ⟨hvalidHead, hvalidAtoms⟩ := List.forall_mem_cons.mp hvalidAtoms
      cases hatoms with
      | cons hatom hatoms =>
        obtain ⟨clients', atoms, hclients', hreads, hbodies⟩ := ih hvalidAtoms _ hatoms
        obtain ⟨client', hclient', hkeys⟩ := servedAtomToClient_forced hhead none
        obtain ⟨atom', hatom', hbody⟩ := ofJson_sameBody hkeys hatom.1 now'
        have hfilled : filled atom' = true := by
          rw [hbody]
          exact hatom.2
        have hvalid' := valid_servedAtomToClient hvalidHead (by simp) hclient'
        exact ⟨client' :: clients', atom' :: atoms, .cons hclient' hclients',
          .cons (readAtom_of_ofJson hvalid' hatom' hfilled) hreads, .cons hbody hbodies⟩
  have hclient' : servedToClient F served none = .ok (Json.object (Json.presentFields (clientFields served clients'))) := by
    rw [servedToClient, isObject_of_member hmember, hmember]
    simp only [Throws.mapM_ok_iff.mpr hclients']
    rfl
  have hvalid' := valid_servedToClient hserved (by simp) hclient'
  have hreadAtoms : readAtoms F now' (Json.object (Json.presentFields (clientFields served clients'))) = .ok atoms := by
    have hfound : (Json.object (Json.presentFields (clientFields served clients'))).find? (ascii "atoms") =
        some (.arr clients') := find?_clientFields (by simp [clientFields])
    rw [readAtoms, hfound]
    exact Throws.mapM_ok_iff.mpr hreads
  obtain rfl := hfields
  obtain ⟨createdAt, hread', _⟩ := jsonToObject_headKeys (parseJson_ok hparse) hvalid' find?_headKeys hread now' hreadAtoms
  refine ⟨{ m with atoms, createdAt }, ?_, rfl, hbodies⟩
  simp only [clientView, hclient', dumpJson, Json.dump_valid F _ hvalid', bind, Except.bind, hread']

/-- As served, an atom has a version only where it was served with one. -/
theorem servesVersion_of_view (hserved : served.Valid F) {m : Molecule} (h : clientView F now served none = .ok m)
    {a : Atom} (ha : a ∈ m.atoms) (hversion : a.version.isSome = true) : ServesVersion served := by
  obtain ⟨servedAtoms, clients, client, hfind, hclients, _, _, _, hatoms⟩ := clientView_ok hserved (by simp) h
  obtain ⟨item, hitem, hread, _⟩ := (exists_of_forall₂ hatoms).2 a ha
  obtain ⟨servedAtom, hmem, hclient⟩ := (exists_of_forall₂ hclients).2 item hitem
  obtain ⟨value, _, rfl⟩ := servedAtomToClient_ok hclient
  obtain ⟨_, _, _, _, _, _, _, _, _, _, _, _, _, _, _, _, hreadVersion⟩ := Atom.ofJson_ok hread
  have hfound : (Json.object (Json.presentFields (clientAtomFields F none servedAtom value))).find? (ascii "version") =
      member servedAtom "version" := find?_clientAtomFields (by simp [clientAtomFields, versionMember])
  refine ⟨_, hfind, List.any_eq_true.mpr ⟨servedAtom, hmem, ?_⟩⟩
  rw [Atom.readVersion, hfound] at hreadVersion
  cases hnone : member servedAtom "version" with
  | some _ => rfl
  | none =>
    rw [hnone] at hreadVersion
    rw [← hreadVersion] at hversion
    cases hversion

end Reread

section Verdict

variable {F : Json.FloatText} {H : Shake256} {served : Json}

variable (F H) in
theorem retryVersions_verified (clock : Option ByteString → Int64) (served : Json) {version : String}
    {versions : List String} (hmem : version ∈ versions) (result : ServedVerification)
    (hverified : (verifyClient F H (clock (some (ascii version))) served (some (ascii version))).1.verified = true) :
    (retryVersions F H clock served versions result).verified = true := by
  induction versions generalizing result with
  | nil => cases hmem
  | cons first rest ih =>
    rw [retryVersions]
    split
    · assumption
    · rename_i hfirst
      obtain rfl | hmem := List.mem_cons.mp hmem
      · exact absurd hverified hfirst
      · exact ih hmem _

theorem verifyClient_verified {served : Json} {now : Int64} {forcedVersion : Option ByteString} {m : Molecule}
    (hview : clientView F now served forcedVersion = .ok m) (hcheck : check H m = .ok ()) :
    (verifyClient F H now served forcedVersion).1.verified = true := by
  obtain ⟨_, _, _, _, hverdict⟩ | ⟨hrejects, _⟩ := verifyClient_cases F H now served forcedVersion
  · rw [hverdict]
  · exact absurd hcheck (hrejects m hview)

theorem verifyFromServerData_of_verified {clock : Option ByteString → Int64} {servedJson : ByteString} {served : Json}
    (hserved : Json.parse F servedJson = some served)
    (hverified : (verifyClient F H (clock none) served none).1.verified = true) :
    ∃ r, verifyFromServerData F H clock servedJson = .ok r ∧ r.verified = true := by
  refine ⟨_, ?_, hverified⟩
  simp only [verifyFromServerData, hserved, hverified, Bool.true_or, if_true]

/-- Where the hash of the view as served does not match and no atom has a version, one of the retries decides. -/
theorem verifyFromServerData_of_retry {clock : Option ByteString → Int64} {servedJson : ByteString} {served : Json}
    (hserved : Json.parse F servedJson = some served) {servedAtoms : List Json}
    (hatoms : served.find? (ascii "atoms") = some (.arr servedAtoms))
    (hversions : servesVersion (.arr servedAtoms) = false) {m : Molecule}
    (hview : clientView F (clock none) served none = .ok m) (hhash : verifyMolecularHash H m = .ok false)
    {version : String} (hmem : version ∈ ["4", "3"])
    (hverified : (verifyClient F H (clock (some (ascii version))) served (some (ascii version))).1.verified = true) :
    ∃ r, verifyFromServerData F H clock servedJson = .ok r ∧ r.verified = true := by
  obtain ⟨_, hfirst, hok, _⟩ | ⟨_, hrejected, _, hmismatch⟩ := verifyClient_cases F H (clock none) served none
  · obtain rfl := Except.ok.inj (hfirst.symm.trans hview)
    cases hok.symm.trans hhash
  · refine ⟨retryVersions F H clock served ["4", "3"] (verifyClient F H (clock none) served none).1, ?_,
      retryVersions_verified F H clock served hmem _ hverified⟩
    have hmismatch := hmismatch.mpr ⟨m, hview, hhash⟩
    simp only [verifyFromServerData, hserved, hrejected, hmismatch, Bool.not_true, Bool.or_false, Bool.false_eq_true,
      if_false, hatoms, hversions]

/-- Where some atom is served with a version there is no retry. -/
theorem verifyFromServerData_of_servesVersion {clock : Option ByteString → Int64} {servedJson : ByteString}
    (hparse : Json.parse F servedJson = some served) (hserves : ServesVersion served) :
    verifyFromServerData F H clock servedJson = .ok (verifyClient F H (clock none) served none).1 := by
  obtain ⟨hnone, _⟩ | ⟨served', forcedVersion, hparse', hresult, hforced⟩ := verifyFromServerData_cases F H clock servedJson
  · cases hnone.symm.trans hparse
  · obtain rfl := Option.some.inj (hparse.symm.trans hparse')
    obtain rfl | ⟨hnot, _⟩ := hforced
    · exact hresult
    · exact absurd hserves hnot

/-- Where no atom is served with a version, a molecule that passes under a forced one verifies. -/
theorem verifyFromServerData_of_forced {clock : Option ByteString → Int64} {servedJson : ByteString}
    (hparse : Json.parse F servedJson = some served) (hserves : ¬ ServesVersion served) {version : String}
    (hmem : version ∈ ["4", "3"]) {m : Molecule}
    (hview : clientView F (clock (some (ascii version))) served (some (ascii version)) = .ok m)
    (hcheck : check H m = .ok ()) : ∃ r, verifyFromServerData F H clock servedJson = .ok r ∧ r.verified = true := by
  have hvalid := Json.parse_valid hparse
  have hutf8 : Utf8.valid (ascii version) = true := by
    simp only [List.mem_cons, List.not_mem_nil, or_false] at hmem
    obtain rfl | rfl := hmem <;> decide
  obtain ⟨m₀, hview₀, hhash₀, hbodies⟩ := clientView_sameBody hvalid (by rintro _ ⟨⟩; exact hutf8) hview (clock none)
  have hlegacy : ∀ a ∈ m₀.atoms, a.version = none := by
    intro a ha
    rw [← Option.not_isSome_iff_eq_none]
    exact fun hsome => hserves (servesVersion_of_view hvalid hview₀ ha hsome)
  obtain ⟨valid, hvalid₀⟩ := verifyMolecularHash_unversioned (H := H) hlegacy
  cases valid with
  | true =>
    have hcheck₀ := check_sameBody hbodies hhash₀ hcheck hvalid₀
    exact verifyFromServerData_of_verified hparse (verifyClient_verified hview₀ hcheck₀)
  | false =>
    obtain ⟨servedAtoms, _, _, hatoms, _⟩ := clientView_ok hvalid (by simp) hview₀
    have hversions : servesVersion (.arr servedAtoms) = false := by
      rw [← Bool.not_eq_true]
      exact fun hversion => hserves ⟨_, hatoms, hversion⟩
    exact verifyFromServerData_of_retry hparse hatoms hversions hview₀ hvalid₀ hmem (verifyClient_verified hview hcheck)

end Verdict

end Molecule

end KnishIO
