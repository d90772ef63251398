import KnishIO.Molecule.RoundTrip
import KnishIO.Molecule.ServedViews

open ByteString

namespace KnishIO

namespace Molecule

section Rendering

/-- A string under a key; an empty one may be left out. -/
def RendersString (object : Json) (key : String) (s : ByteString) : Prop :=
  member object key = some (.str s) ∨ s = [] ∧ member object key = none

/-- A string that may be null under a key; the flag says that it is `""`. -/
def RendersOptional (object : Json) (key : String) (s : ByteString) (flag : Bool) : Prop :=
  member object key = some (.str s) ∧ (flag = true ↔ s = []) ∨ s = [] ∧ flag = false ∧ member object key = none

/-- A time as an integer, or as a string that is signed as the same milliseconds. -/
def RendersTime (object : Json) (time : Int64) : Prop :=
  member object "createdAt" = some (.int time.toInt) ∨
    ∃ s normalized, member object "createdAt" = some (.str s) ∧ toSignedTimestamp s = some normalized ∧
      CInteger.strtoll normalized = time

/-- One item of a meta list; the value may be null. -/
def RendersMeta (item : Json) (m : Atom.ParsedMeta) : Prop :=
  item.find? (ascii "key") = some (.str m.1) ∧
    item.find? (ascii "value") = some (match m.2 with | some value => .str value | none => .null)

/-- A version as a string or as a number with that text. -/
def RendersVersion (object : Json) : Option ByteString → Prop
  | none => member object "version" = none
  | some version => member object "version" = some (.str version) ∨
      (∃ n, member object "version" = some (.int n) ∧ (Json.int n).text = version) ∨
      member object "version" = some (.float version)

/-- A served rendering of an atom: the token as `tokenSlug` or `token`, the metas in their order as the array
`metasJson` or as its text. -/
structure RendersAtom (F : Json.FloatText) (servedAtom : Json) (atom : Atom) : Prop where
  position : member servedAtom "position" = some (.str atom.position)
  walletAddress : member servedAtom "walletAddress" = some (.str atom.walletAddress)
  isotope : member servedAtom "isotope" = some (.str atom.isotope)
  token : member servedAtom "tokenSlug" = some (.str atom.token) ∨
    member servedAtom "tokenSlug" = none ∧ RendersString servedAtom "token" atom.token
  value : RendersOptional servedAtom "value" atom.value atom.emptyValue
  batchId : RendersOptional servedAtom "batchId" atom.batchId atom.emptyBatchId
  metaType : RendersOptional servedAtom "metaType" atom.metaType atom.emptyMetaType
  metaId : RendersOptional servedAtom "metaId" atom.metaId atom.emptyMetaId
  metas : ∃ items metas, atom.meta = Atom.presentMeta metas ∧ atom.nullMeta = Atom.nullPlaces 0 metas ∧
    List.Forall₂ RendersMeta items metas ∧
    (member servedAtom "metasJson" = some (.arr items) ∨
      ∃ text, member servedAtom "metasJson" = some (.str text) ∧ Json.parse F text = some (.arr items))
  otsFragment : RendersString servedAtom "otsFragment" atom.otsFragment
  createdAt : RendersTime servedAtom atom.createdAt
  index : member servedAtom "index" = some (.int atom.index.toInt) ∨ atom.index = 0 ∧ member servedAtom "index" = none
  version : RendersVersion servedAtom atom.version

/-- A served rendering of a molecule: the bundle as `bundleHash`, the rest under its own name. -/
structure Renders (F : Json.FloatText) (served : Json) (m : Molecule) : Prop where
  bundle : RendersString served "bundleHash" m.bundle
  molecularHash : RendersString served "molecularHash" m.molecularHash
  cellSlug : RendersString served "cellSlug" m.cellSlug
  status : RendersString served "status" m.status
  createdAt : RendersTime served m.createdAt
  atoms : ∃ servedAtoms, served.find? (ascii "atoms") = some (.arr servedAtoms) ∧
    List.Forall₂ (RendersAtom F) servedAtoms m.atoms

end Rendering

section Reading

variable {F : Json.FloatText} {object client : Json}

theorem stringMember_str {key : String} {s : ByteString} (h : member object key = some (.str s)) :
    stringMember object key = some (.str s) := by
  rw [stringMember, h]

theorem stringMember_none {key : String} (h : member object key = none) : stringMember object key = none := by
  rw [stringMember, h]

theorem readString_of_member {key target : String} {s : ByteString}
    (hfind : client.find? (ascii target) = stringMember object key) (h : RendersString object key s) :
    Atom.readString client target = .ok s := by
  obtain h | ⟨rfl, h⟩ := h
  · rw [stringMember_str h] at hfind
    exact Atom.readString_str hfind
  · rw [stringMember_none h] at hfind
    rw [Atom.readString, hfind]

theorem readOptional_str {target : String} {s : ByteString} (h : client.find? (ascii target) = some (.str s)) :
    Atom.readOptional client target = .ok (s, s = []) := by
  simp [Atom.readOptional, h, Json.isNull, getString, Except.map]

theorem readOptional_of_member {key target : String} {s : ByteString} {flag : Bool}
    (hfind : client.find? (ascii target) = stringMember object key) (h : RendersOptional object key s flag) :
    Atom.readOptional client target = .ok (s, flag) := by
  obtain ⟨h, hflag⟩ | ⟨rfl, rfl, h⟩ := h
  · rw [stringMember_str h] at hfind
    rw [readOptional_str hfind]
    simp only [← hflag, Bool.decide_eq_true]
  · rw [stringMember_none h] at hfind
    rw [Atom.readOptional, hfind]

theorem readOptional_of_string {key target : String} {s : ByteString}
    (hfind : client.find? (ascii target) = stringMember object key) (h : RendersString object key s) :
    ∃ flag, Atom.readOptional client target = .ok (s, flag) := by
  obtain h | ⟨rfl, h⟩ := h
  · exact ⟨s = [], readOptional_of_member hfind (.inl ⟨h, decide_eq_true_iff⟩)⟩
  · exact ⟨false, readOptional_of_member hfind (.inr ⟨rfl, rfl, h⟩)⟩

/-- A served time is passed on as digits of the same milliseconds. -/
theorem createdAtMember_of_renders {time : Int64} (h : RendersTime object time) :
    ∃ s, createdAtMember object = some (.str s) ∧ CInteger.strtoll s = time := by
  obtain h | ⟨s, normalized, h, hnormalized, htime⟩ := h
  · refine ⟨Decimal.ofInt time.toInt, ?_, CInteger.strtoll_ofInt time⟩
    rw [createdAtMember, h, Option.map_some, servedCreatedAt, toSignedTimestampInt, Int64.ofInt_toInt]
  · refine ⟨normalized, ?_, htime⟩
    rw [createdAtMember, h, Option.map_some, servedCreatedAt, hnormalized]

theorem tokenMember_of_renders {token : ByteString}
    (h : member object "tokenSlug" = some (.str token) ∨
      member object "tokenSlug" = none ∧ RendersString object "token" token) :
    ∃ key, tokenMember object = stringMember object key ∧ RendersString object key token := by
  obtain h | ⟨hnone, h⟩ := h
  · exact ⟨"tokenSlug", by rw [tokenMember, h]; rfl, .inl h⟩
  · exact ⟨"token", by rw [tokenMember, hnone]; rfl, h⟩

theorem valueMember_of_renders {value : ByteString} {flag : Bool} (h : RendersOptional object "value" value flag) :
    valueMember object = .ok (stringMember object "value") := by
  obtain ⟨h, _⟩ | ⟨_, _, h⟩ := h
  · rw [valueMember, stringMember, h]
  · rw [valueMember, stringMember, h]

theorem foldlM_readMetaItem {items : List Json} {metas : List Atom.ParsedMeta} (h : List.Forall₂ RendersMeta items metas)
    (before : List Atom.ParsedMeta) :
    items.foldlM Atom.readMetaItem ⟨Atom.presentMeta before, Atom.nullPlaces 0 before⟩ =
      .ok ⟨Atom.presentMeta (before ++ metas), Atom.nullPlaces 0 (before ++ metas)⟩ := by
  induction h generalizing before with
  | nil =>
    rw [List.append_nil]
    rfl
  | @cons item m items metas hhead _ ih =>
    obtain ⟨key, value⟩ := m
    obtain ⟨hkey, hvalue⟩ := hhead
    have hitem : Atom.readMetaItem ⟨Atom.presentMeta before, Atom.nullPlaces 0 before⟩ item =
        .ok ⟨Atom.presentMeta (before ++ [(key, value)]), Atom.nullPlaces 0 (before ++ [(key, value)])⟩ := by
      rw [Atom.nullPlaces_append]
      cases value with
      | none =>
        simp [Atom.readMetaItem, hkey, hvalue, getString, Atom.presentMeta, ← Atom.length_split 0 before]
      | some value => simp [Atom.readMetaItem, hkey, hvalue, getString, Atom.presentMeta]
    rw [List.foldlM_cons, hitem]
    have hrest := ih (before ++ [(key, value)])
    rw [List.append_assoc] at hrest
    exact hrest

theorem metaMember_of_renders {items : List Json}
    (h : member object "metasJson" = some (.arr items) ∨
      ∃ text, member object "metasJson" = some (.str text) ∧ Json.parse F text = some (.arr items)) :
    metaMember F object = .arr items := by
  obtain h | ⟨text, h, hparse⟩ := h
  · rw [metaMember, h]
    rfl
  · rw [metaMember, h]
    simp only [servedMeta, parsedMeta, hparse]

end Reading

section Conversion

variable {F : Json.FloatText} {servedAtom : Json} {atom : Atom}

/-- The atom under a forced version. -/
def underVersion (forcedVersion : Option ByteString) (atom : Atom) : Atom :=
  match forcedVersion with
  | some version => { atom with version := some version }
  | none => atom

theorem readVersion_of_renders {client : Json} {version : Option ByteString} (h : RendersVersion servedAtom version)
    (hfind : client.find? (ascii "version") = member servedAtom "version") : Atom.readVersion client = version := by
  cases version with
  | none =>
    rw [h] at hfind
    rw [Atom.readVersion, hfind]
  | some version =>
    obtain h | ⟨n, h, rfl⟩ | h := h
    · rw [h] at hfind
      rw [Atom.readVersion, hfind]
    · rw [h] at hfind
      rw [Atom.readVersion, hfind]
    · rw [h] at hfind
      rw [Atom.readVersion, hfind]
      rfl

/-- A rendered atom is converted to a document that is read as the atom. -/
theorem ofJson_of_renders (now : Int64) (forcedVersion : Option ByteString) (h : RendersAtom F servedAtom atom) :
    ∃ client, servedAtomToClient F forcedVersion servedAtom = .ok client ∧
      Atom.ofJson now client = .ok (underVersion forcedVersion atom) := by
  obtain ⟨items, metas, hpresent, hnulls, hitems, hmetasJson⟩ := h.metas
  obtain ⟨tokenKey, htokenMember, htoken⟩ := tokenMember_of_renders h.token
  obtain ⟨createdAt, hcreatedAtMember, hcreatedAt⟩ := createdAtMember_of_renders h.createdAt
  refine ⟨Json.object (Json.presentFields (clientAtomFields F forcedVersion servedAtom (stringMember servedAtom "value"))),
    ?_, ?_⟩
  · rw [servedAtomToClient, isObject_of_member h.position, valueMember_of_renders h.value]
    rfl
  generalize hclient : Json.object (Json.presentFields (clientAtomFields F forcedVersion servedAtom
    (stringMember servedAtom "value"))) = client
  have hfind {key : ByteString} {value : Option Json}
      (hmem : (key, value) ∈ clientAtomFields F forcedVersion servedAtom (stringMember servedAtom "value")) :
      client.find? key = value := by
    rw [← hclient]
    exact find?_clientAtomFields hmem
  have hposition : Atom.readString client "position" = .ok atom.position :=
    readString_of_member (hfind (by simp [clientAtomFields])) (.inl h.position)
  have haddress : Atom.readString client "walletAddress" = .ok atom.walletAddress :=
    readString_of_member (hfind (by simp [clientAtomFields])) (.inl h.walletAddress)
  have hisotope : Atom.readString client "isotope" = .ok atom.isotope :=
    readString_of_member (hfind (by simp [clientAtomFields])) (.inl h.isotope)
  have htoken : Atom.readString client "token" = .ok atom.token :=
    readString_of_member (hfind (by simp [clientAtomFields, htokenMember])) htoken
  have hvalue : Atom.readOptional client "value" = .ok (atom.value, atom.emptyValue) :=
    readOptional_of_member (hfind (by simp [clientAtomFields])) h.value
  have hbatchId : Atom.readOptional client "batchId" = .ok (atom.batchId, atom.emptyBatchId) :=
    readOptional_of_member (hfind (by simp [clientAtomFields])) h.batchId
  have hmetaType : Atom.readOptional client "metaType" = .ok (atom.metaType, atom.emptyMetaType) :=
    readOptional_of_member (hfind (by simp [clientAtomFields])) h.metaType
  have hmetaId : Atom.readOptional client "metaId" = .ok (atom.metaId, atom.emptyMetaId) :=
    readOptional_of_member (hfind (by simp [clientAtomFields])) h.metaId
  obtain ⟨fragmentFlag, hfragment⟩ : ∃ flag, Atom.readOptional client "otsFragment" = .ok (atom.otsFragment, flag) :=
    readOptional_of_string (hfind (by simp [clientAtomFields])) h.otsFragment
  have hmeta : Atom.readMeta client = .ok ⟨atom.meta, atom.nullMeta⟩ := by
    have hfound : client.find? (ascii "meta") = some (metaMember F servedAtom) := hfind (by simp [clientAtomFields])
    rw [Atom.readMeta, hfound, metaMember_of_renders hmetasJson, hpresent, hnulls]
    exact foldlM_readMetaItem hitems []
  have hcreatedAt : Atom.readCreatedAt now client = .ok atom.createdAt := by
    have hfound : client.find? (ascii "createdAt") = some (.str createdAt) := hfind (by simp [clientAtomFields, hcreatedAtMember])
    simp [Atom.readCreatedAt, hfound, getString, Except.map, hcreatedAt]
  have hindex : Atom.readIndex client = atom.index := by
    have hfound : client.find? (ascii "index") = indexMember servedAtom := hfind (by simp [clientAtomFields])
    obtain hint | ⟨hzero, hnone⟩ := h.index
    · rw [indexMember, hint] at hfound
      rw [Atom.readIndex, hfound]
      exact Int32.ofInt_toInt _
    · rw [indexMember, hnone] at hfound
      rw [Atom.readIndex, hfound, hzero]
  have hversion : Atom.readVersion client = (underVersion forcedVersion atom).version := by
    have hfound : client.find? (ascii "version") = versionMember servedAtom forcedVersion := hfind (by simp [clientAtomFields])
    cases forcedVersion with
    | none => exact readVersion_of_renders h.version hfound
    | some version =>
      rw [versionMember] at hfound
      rw [Atom.readVersion, hfound]
      rfl
  simp only [Atom.ofJson, hposition, haddress, hisotope, htoken, hvalue, hbatchId, hmetaType, hmetaId, hmeta, hfragment,
    hcreatedAt, hindex, hversion, bind, Except.bind, pure, Except.pure]
  cases forcedVersion <;> rfl

theorem filled_underVersion (forcedVersion : Option ByteString) (atom : Atom) :
    filled (underVersion forcedVersion atom) = filled atom := by
  cases forcedVersion <;> rfl

/-- The atoms are converted and read one after another. -/
theorem readAtoms_of_renders (now : Int64) {forcedVersion : Option ByteString}
    (hforced : ∀ version, forcedVersion = some version → Utf8.valid version = true) {servedAtoms : List Json}
    {atoms : List Atom} (hvalid : ∀ a ∈ servedAtoms, a.Valid F) (hfilled : ∀ a ∈ atoms, filled a = true)
    (h : List.Forall₂ (RendersAtom F) servedAtoms atoms) :
    ∃ clients, List.Forall₂ (fun servedAtom client => servedAtomToClient F forcedVersion servedAtom = .ok client)
        servedAtoms clients ∧
      List.Forall₂ (fun client atom => readAtom F now client = .ok atom) clients (atoms.map (underVersion forcedVersion)) := by
  induction h with
  | nil => exact ⟨[], .nil, .nil⟩
  | cons hhead _ ih =>
    obtain ⟨hvalidHead, hvalid⟩ := List.forall_mem_cons.mp hvalid
    obtain ⟨hfilledHead, hfilled⟩ := List.forall_mem_cons.mp hfilled
    obtain ⟨client, hclient, hread⟩ := ofJson_of_renders now forcedVersion hhead
    obtain ⟨clients, hclients, hreads⟩ := ih hvalid hfilled
    have hclientValid := valid_servedAtomToClient hvalidHead hforced hclient
    refine ⟨client :: clients, .cons hclient hclients, .cons ?_ hreads⟩
    exact readAtom_of_ofJson hclientValid hread ((filled_underVersion forcedVersion _).trans hfilledHead)

/-- A rendered molecule is converted to a document that is read as the molecule. -/
theorem clientView_of_renders {served : Json} {m : Molecule} (hserved : served.Valid F) (now : Int64)
    (forcedVersion : Option ByteString) (hforced : ∀ version, forcedVersion = some version → Utf8.valid version = true)
    (hfilled : ∀ a ∈ m.atoms, filled a = true) (hwallets : m.sourceWallet = none ∧ m.remainderWallet = none)
    (h : Renders F served m) :
    clientView F now served forcedVersion = .ok { m with atoms := m.atoms.map (underVersion forcedVersion) } := by
  obtain ⟨servedAtoms, hservedAtoms, hatoms⟩ := h.atoms
  have hvalidAtoms : ∀ a ∈ servedAtoms, a.Valid F := fun a ha =>
    Json.valid_of_elements (Json.valid_of_find? hserved hservedAtoms) ha
  obtain ⟨clients, hclients, hreads⟩ := readAtoms_of_renders now hforced hvalidAtoms hfilled hatoms
  have hmember : member served "atoms" = some (.arr servedAtoms) := member_of_find? hservedAtoms nofun
  have hclient : servedToClient F served forcedVersion =
      .ok (Json.object (Json.presentFields (clientFields served clients))) := by
    rw [servedToClient, isObject_of_member hmember, hmember]
    simp only [Throws.mapM_ok_iff.mpr hclients]
    rfl
  have hvalid := valid_servedToClient hserved hforced hclient
  generalize hfields : Json.object (Json.presentFields (clientFields served clients)) = client at hclient hvalid
  have hfind {key : ByteString} {value : Option Json} (hmem : (key, value) ∈ clientFields served clients) :
      client.find? key = value := by
    rw [← hfields]
    exact find?_clientFields hmem
  have hhash : Atom.readString client "molecularHash" = .ok m.molecularHash :=
    readString_of_member (hfind (by simp [clientFields])) h.molecularHash
  have hbundle : Atom.readString client "bundle" = .ok m.bundle :=
    readString_of_member (hfind (by simp [clientFields])) h.bundle
  obtain ⟨slugFlag, hcellSlug⟩ : ∃ flag, Atom.readOptional client "cellSlug" = .ok (m.cellSlug, flag) :=
    readOptional_of_string (hfind (by simp [clientFields])) h.cellSlug
  obtain ⟨statusFlag, hstatus⟩ : ∃ flag, Atom.readOptional client "status" = .ok (m.status, flag) :=
    readOptional_of_string (hfind (by simp [clientFields])) h.status
  have hreadAtoms : readAtoms F now client = .ok (m.atoms.map (underVersion forcedVersion)) := by
    have hfound : client.find? (ascii "atoms") = some (.arr clients) := hfind (by simp [clientFields])
    rw [readAtoms, hfound]
    exact Throws.mapM_ok_iff.mpr hreads
  have hcreatedAt : readCreatedAt now client = .ok m.createdAt := by
    obtain ⟨createdAt, hcreatedAtMember, htime⟩ := createdAtMember_of_renders h.createdAt
    have hfound : client.find? (ascii "createdAt") = some (.str createdAt) := hfind (by simp [clientFields, hcreatedAtMember])
    simp [readCreatedAt, hfound, getString, Except.map, htime]
  simp only [clientView, hclient, dumpJson, Json.dump_valid F _ hvalid, jsonToObject, parseJson, Json.parse_text F _ hvalid,
    hhash, hcellSlug, hbundle, hstatus, hreadAtoms, hcreatedAt, bind, Except.bind, pure, Except.pure]
  obtain ⟨hsource, hremainder⟩ := hwallets
  rw [hsource, hremainder]

end Conversion

section RoundTrip

variable {F : Json.FloatText} {H : Shake256}

theorem map_underVersion_none (atoms : List Atom) : atoms.map (underVersion none) = atoms := List.map_id _

/-- The molecule with each atom changed. -/
def mapAtoms (f : Atom → Atom) (m : Molecule) : Molecule := { m with atoms := m.atoms.map f }

def unversioned (atom : Atom) : Atom := { atom with version := none }

/-- A rendering of atoms without versions serves none, and one of an atom with a version serves one. -/
theorem servesVersion_of_renders {servedAtoms : List Json} {atoms : List Atom}
    (h : List.Forall₂ (RendersAtom F) servedAtoms atoms) :
    servesVersion (.arr servedAtoms) = atoms.any fun a => a.version.isSome := by
  unfold servesVersion
  rw [Json.elements_arr]
  induction h with
  | nil => rfl
  | @cons servedAtom atom _ _ hhead _ ih =>
    have hversion : (member servedAtom "version").isSome = atom.version.isSome := by
      have hrenders := hhead.version
      cases hsome : atom.version with
      | none =>
        rw [hsome] at hrenders
        rw [show member servedAtom "version" = none from hrenders]
        rfl
      | some version =>
        rw [hsome] at hrenders
        obtain hmember | ⟨n, hmember, _⟩ | hmember := hrenders <;> rw [hmember] <;> rfl
    rw [List.any_cons, List.any_cons, hversion, ih]

/-- A molecule that verifies under one version on every atom verifies when it is served without versions. -/
theorem verifies_without_versions (clock : Option ByteString → Int64) {m : Molecule} {servedJson : ByteString}
    {served : Json} (hserved : Json.parse F servedJson = some served) (hrenders : Renders F served (m.mapAtoms unversioned))
    (hfilled : ∀ a ∈ m.atoms, filled a = true) (hwallets : m.sourceWallet = none ∧ m.remainderWallet = none)
    {version : String} (hmem : version ∈ ["4", "3"]) (hversion : ∀ a ∈ m.atoms, a.version = some (ascii version))
    (hcheck : check H m = .ok ()) : ∃ r, verifyFromServerData F H clock servedJson = .ok r ∧ r.verified = true := by
  have hvalid := Json.parse_valid hserved
  have hfilled' : ∀ a ∈ (m.mapAtoms unversioned).atoms, filled a = true := by
    intro a ha
    obtain ⟨b, hb, rfl⟩ := List.mem_map.mp ha
    exact hfilled b hb
  have hutf8 : Utf8.valid (ascii version) = true := by
    simp only [List.mem_cons, List.not_mem_nil, or_false] at hmem
    obtain rfl | rfl := hmem <;> decide
  have hforced := clientView_of_renders hvalid (clock (some (ascii version))) (some (ascii version))
    (by rintro _ ⟨⟩; exact hutf8) hfilled' hwallets hrenders
  have hsame : (m.mapAtoms unversioned).atoms.map (underVersion (some (ascii version))) = m.atoms := by
    rw [mapAtoms, List.map_map]
    refine (List.map_congr_left fun a ha => ?_).trans (List.map_id _)
    have hatom := hversion a ha
    cases a
    dsimp only at hatom
    subst hatom
    rfl
  have hview : clientView F (clock (some (ascii version))) served (some (ascii version)) = .ok m := by
    rw [hforced, hsame]
    rfl
  have hserves : ¬ ServesVersion served := by
    rintro ⟨atoms, hatoms, hserved⟩
    obtain ⟨servedAtoms, hservedAtoms, hrendersAtoms⟩ := hrenders.atoms
    obtain rfl := Option.some.inj (hservedAtoms.symm.trans hatoms)
    rw [servesVersion_of_renders hrendersAtoms, mapAtoms, List.any_map] at hserved
    simp [unversioned] at hserved
  exact verifyFromServerData_of_forced hserved hserves hmem hview hcheck

/-- A served rendering of a parsed molecule is read as the molecule. It verifies when the molecule passes `check`, and
only then where some atom has a version; and where all atoms have the version 4, or all the version 3, a rendering
without the versions verifies too. -/
theorem fromServerData_renders (F : Json.FloatText) (H : Shake256) (clock : Option ByteString → Int64) (now : Int64)
    (text : ByteString) (m : Molecule) (hparse : jsonToObject F now text = .ok m) :
    (∀ servedJson served, Json.parse F servedJson = some served → Renders F served m →
      (∀ now', fromServerData F now' servedJson = .ok m) ∧
      (check H m = .ok () → ∃ r, verifyFromServerData F H clock servedJson = .ok r ∧ r.verified = true) ∧
      ((∃ a ∈ m.atoms, a.version.isSome) → ∀ r, verifyFromServerData F H clock servedJson = .ok r → r.verified = true →
        check H m = .ok ())) ∧
    ((∀ a ∈ m.atoms, a.version = some (ascii "4")) ∨ (∀ a ∈ m.atoms, a.version = some (ascii "3")) →
      check H m = .ok () → ∀ servedJson served, Json.parse F servedJson = some served →
        Renders F served (m.mapAtoms unversioned) →
        ∃ r, verifyFromServerData F H clock servedJson = .ok r ∧ r.verified = true) := by
  obtain ⟨json, _, _, hjson, _, _, _, _, hatoms, _, hwallets⟩ := jsonToObject_ok hparse
  have hfilled : ∀ a ∈ m.atoms, filled a = true := by
    intro a ha
    obtain ⟨_, _, _, hfilled⟩ := (exists_of_forall₂ (readAtoms_ok (parseJson_ok hjson) hatoms)).2 a ha
    exact hfilled
  constructor
  · intro servedJson served hserved hrenders
    have hvalid := Json.parse_valid hserved
    have hview (now' : Int64) : clientView F now' served none = .ok m := by
      rw [clientView_of_renders hvalid now' none (by simp) hfilled hwallets hrenders, map_underVersion_none]
    refine ⟨fun now' => ?_, fun hcheck => ?_, fun hversion r hr hverified => ?_⟩
    · rw [fromServerData, parseJson, hserved]
      exact hview now'
    · exact verifyFromServerData_of_verified hserved (verifyClient_verified (hview _) hcheck)
    · obtain ⟨servedAtoms, hservedAtoms, hrendersAtoms⟩ := hrenders.atoms
      have hserves : ServesVersion served := by
        refine ⟨_, hservedAtoms, ?_⟩
        rw [servesVersion_of_renders hrendersAtoms, List.any_eq_true]
        exact hversion
      obtain rfl := Except.ok.inj ((verifyFromServerData_of_servesVersion hserved hserves).symm.trans hr)
      obtain ⟨m', hview', _, hcheck, _⟩ | ⟨_, hrejected, _⟩ := verifyClient_cases F H (clock none) served none
      · obtain rfl := Except.ok.inj ((hview _).symm.trans hview')
        exact hcheck
      · rw [hrejected] at hverified
        cases hverified
  · rintro (hversion | hversion) hcheck servedJson served hserved hrenders
    · exact verifies_without_versions clock hserved hrenders hfilled hwallets (by simp) hversion hcheck
    · exact verifies_without_versions clock hserved hrenders hfilled hwallets (by simp) hversion hcheck

end RoundTrip

section Document

variable {F : Json.FloatText} {atom : Atom} {m : Molecule}

/-- The members of a plain atom that is served, with its empty optional fields null. -/
def servedFields (atom : Atom) : List (ByteString × Json) :=
  [(ascii "position", .str atom.position), (ascii "walletAddress", .str atom.walletAddress),
    (ascii "isotope", .str atom.isotope), (ascii "tokenSlug", .str atom.token), (ascii "value", Atom.field atom.value),
    (ascii "batchId", Atom.field atom.batchId), (ascii "metaType", Atom.field atom.metaType),
    (ascii "metaId", Atom.field atom.metaId), (ascii "metasJson", .arr (atom.meta.map Atom.metaObject)),
    (ascii "otsFragment", .str atom.otsFragment), (ascii "createdAt", .int atom.createdAt.toInt),
    (ascii "index", .int atom.index.toInt), (ascii "version", (atom.version.map Json.str).getD .null)]

/-- A molecule of plain atoms as it is served. -/
def servedForm (m : Molecule) : Json :=
  Json.object [(ascii "bundleHash", .str m.bundle), (ascii "molecularHash", .str m.molecularHash),
    (ascii "cellSlug", .str m.cellSlug), (ascii "status", .str m.status), (ascii "createdAt", .int m.createdAt.toInt),
    (ascii "atoms", .arr (m.atoms.map fun a => Json.object (servedFields a)))]

theorem find?_servedFields {key : ByteString} {value : Json} (hmem : (key, value) ∈ servedFields atom) :
    (Json.object (servedFields atom)).find? key = some value := by
  apply Json.find?_object_of_mem _ hmem
  show (["position", "walletAddress", "isotope", "tokenSlug", "value", "batchId", "metaType", "metaId", "metasJson",
    "otsFragment", "createdAt", "index", "version"].map ascii).Nodup
  decide

theorem rendersOptional_of_find? {object : Json} {key : String} {s : ByteString}
    (h : object.find? (ascii key) = some (Atom.field s)) : RendersOptional object key s false := by
  by_cases hs : s = []
  · refine .inr ⟨hs, rfl, ?_⟩
    rw [member, h, Atom.field, if_pos hs]
  · refine .inl ⟨?_, by simp [hs]⟩
    rw [Atom.field, if_neg hs] at h
    exact member_of_find? h (by simp)

theorem rendersMeta_metaObject (metas : List (ByteString × ByteString)) :
    List.Forall₂ RendersMeta (metas.map Atom.metaObject) (metas.map fun item => (item.1, some item.2)) := by
  induction metas with
  | nil => exact .nil
  | cons item metas ih =>
    refine .cons ⟨?_, ?_⟩ ih
    · exact Json.find?_object_of_mem (show (["key", "value"].map ascii).Nodup by decide) (by simp)
    · exact Json.find?_object_of_mem (show (["key", "value"].map ascii).Nodup by decide) (by simp)

/-- The served members of a plain atom render it. -/
theorem renders_servedFields (F : Json.FloatText) (h : atom.Plain) : RendersAtom F (Json.object (servedFields atom)) atom := by
  obtain ⟨hnull, hvalue, hbatchId, hmetaType, hmetaId⟩ := h
  have hstring {key : String} {s : ByteString} (hmem : (ascii key, Json.str s) ∈ servedFields atom) :
      member (Json.object (servedFields atom)) key = some (.str s) :=
    member_of_find? (find?_servedFields hmem) nofun
  have hoptional {key : String} {s : ByteString} (hmem : (ascii key, Atom.field s) ∈ servedFields atom) :
      RendersOptional (Json.object (servedFields atom)) key s false :=
    rendersOptional_of_find? (find?_servedFields hmem)
  refine {
    position := hstring (by simp [servedFields])
    walletAddress := hstring (by simp [servedFields])
    isotope := hstring (by simp [servedFields])
    token := .inl (hstring (by simp [servedFields]))
    value := hvalue ▸ hoptional (by simp [servedFields])
    batchId := hbatchId ▸ hoptional (by simp [servedFields])
    metaType := hmetaType ▸ hoptional (by simp [servedFields])
    metaId := hmetaId ▸ hoptional (by simp [servedFields])
    metas := ⟨_, _, (Atom.presentMeta_some atom.meta).symm, hnull.trans (Atom.nullPlaces_some 0 atom.meta).symm,
      rendersMeta_metaObject atom.meta, .inl (member_of_find? (find?_servedFields (by simp [servedFields])) nofun)⟩
    otsFragment := .inl (hstring (by simp [servedFields]))
    createdAt := .inl (member_of_find? (find?_servedFields (by simp [servedFields])) nofun)
    index := .inl (member_of_find? (find?_servedFields (by simp [servedFields])) nofun)
    version := ?_ }
  have hfound : (Json.object (servedFields atom)).find? (ascii "version") = some ((atom.version.map Json.str).getD .null) :=
    find?_servedFields (by simp [servedFields])
  cases hversion : atom.version with
  | none =>
    rw [hversion] at hfound
    exact show member _ "version" = none by rw [member, hfound]; rfl
  | some version =>
    rw [hversion] at hfound
    exact .inl (member_of_find? hfound nofun)

/-- The served form renders the molecule. -/
theorem renders_servedForm (F : Json.FloatText) (h : ∀ a ∈ m.atoms, a.Plain) : Renders F m.servedForm m := by
  have hfound {key : ByteString} {value : Json} (hmem : (key, value) ∈
      [(ascii "bundleHash", Json.str m.bundle), (ascii "molecularHash", .str m.molecularHash),
        (ascii "cellSlug", .str m.cellSlug), (ascii "status", .str m.status), (ascii "createdAt", .int m.createdAt.toInt),
        (ascii "atoms", .arr (m.atoms.map fun a => Json.object (servedFields a)))]) : m.servedForm.find? key = some value := by
    apply Json.find?_object_of_mem _ hmem
    show (["bundleHash", "molecularHash", "cellSlug", "status", "createdAt", "atoms"].map ascii).Nodup
    decide
  have hatoms : List.Forall₂ (RendersAtom F) (m.atoms.map fun a => Json.object (servedFields a)) m.atoms := by
    rw [List.forall₂_map_left_iff, List.forall₂_same]
    exact fun a ha => renders_servedFields F (h a ha)
  exact {
    bundle := .inl (member_of_find? (hfound (by simp)) nofun)
    molecularHash := .inl (member_of_find? (hfound (by simp)) nofun)
    cellSlug := .inl (member_of_find? (hfound (by simp)) nofun)
    status := .inl (member_of_find? (hfound (by simp)) nofun)
    createdAt := .inl (member_of_find? (hfound (by simp)) nofun)
    atoms := ⟨_, hfound (by simp), hatoms⟩ }

theorem valid_servedFields (F : Json.FloatText) (h : atom.WireUtf8) : (Json.object (servedFields atom)).Valid F := by
  have hmeta : (Json.arr (atom.meta.map Atom.metaObject)).Valid F := by
    apply Json.valid_arr
    intro j hj
    obtain ⟨item, hitem, rfl⟩ := List.mem_map.mp hj
    obtain ⟨hkey, hvalue⟩ := h.metas item hitem
    apply Json.valid_object
    simp only [List.forall_mem_cons, List.not_mem_nil, false_implies, implies_true, and_true]
    exact ⟨⟨by decide, hkey⟩, by decide, hvalue⟩
  have hcreatedAt : (Json.int atom.createdAt.toInt).Valid F := by
    have hlow := atom.createdAt.le_toInt
    have hhigh := atom.createdAt.toInt_lt
    exact ⟨by omega, by omega⟩
  have hindex : (Json.int atom.index.toInt).Valid F := by
    have hlow := atom.index.le_toInt
    have hhigh := atom.index.toInt_lt
    exact ⟨by omega, by omega⟩
  have hversion : ((atom.version.map Json.str).getD .null).Valid F := by
    cases hsome : atom.version with
    | none => trivial
    | some version => exact h.version version hsome
  apply Json.valid_object
  simp only [servedFields, List.forall_mem_cons, List.not_mem_nil, false_implies, implies_true, and_true]
  exact ⟨⟨by decide, h.position⟩, ⟨by decide, h.walletAddress⟩, ⟨by decide, h.isotope⟩, ⟨by decide, h.token⟩,
    ⟨by decide, Atom.valid_field h.value⟩, ⟨by decide, Atom.valid_field h.batchId⟩, ⟨by decide, Atom.valid_field h.metaType⟩,
    ⟨by decide, Atom.valid_field h.metaId⟩, ⟨by decide, hmeta⟩, ⟨by decide, h.otsFragment⟩, ⟨by decide, hcreatedAt⟩,
    ⟨by decide, hindex⟩, by decide, hversion⟩

/-- The served form of a UTF-8 molecule can be written and parsed. -/
theorem valid_servedForm (F : Json.FloatText) (h : m.WireUtf8) : m.servedForm.Valid F := by
  have hatoms : (Json.arr (m.atoms.map fun a => Json.object (servedFields a))).Valid F := by
    apply Json.valid_arr
    intro j hj
    obtain ⟨a, ha, rfl⟩ := List.mem_map.mp hj
    exact valid_servedFields F (h.atoms a ha)
  have hcreatedAt : (Json.int m.createdAt.toInt).Valid F := by
    have hlow := m.createdAt.le_toInt
    have hhigh := m.createdAt.toInt_lt
    exact ⟨by omega, by omega⟩
  apply Json.valid_object
  simp only [List.forall_mem_cons, List.not_mem_nil, false_implies, implies_true, and_true]
  exact ⟨⟨by decide, h.bundle⟩, ⟨by decide, h.molecularHash⟩, ⟨by decide, h.cellSlug⟩, ⟨by decide, h.status⟩,
    ⟨by decide, hcreatedAt⟩, by decide, hatoms⟩

end Document

section Example

/-- The transfer with the version 4 on its three atoms. -/
def versionedTransfer : Molecule := (transfer payee).mapAtoms (underVersion (some (ascii "4")))

/-- The transfer under a version, signed, written and parsed. -/
theorem versionedTransfer_parsed (F : Json.FloatText) (now : Int64) : ∃ text m, jsonToObject F now text = .ok m ∧
    m.atoms.map Atom.unsigned = versionedTransfer.atoms ∧ check (.constant 0) m = .ok () ∧ m.WireUtf8 ∧
    ∀ a ∈ m.atoms, a.Plain := by
  obtain ⟨haddress, hvalid, -⟩ := addressAt_payer
  have hplain : ∀ a ∈ versionedTransfer.atoms, a.Plain ∧ a.isotope ≠ [] := by
    intro a ha
    obtain ⟨b, hb, rfl⟩ := List.mem_map.mp ha
    obtain ⟨⟨hnull, hvalue, hbatchId, hmetaType, hmetaId⟩, hisotope⟩ := plain_transfer payee b hb
    exact ⟨⟨hnull, hvalue, hbatchId, hmetaType, hmetaId⟩, hisotope⟩
  have hutf8 : versionedTransfer.WireUtf8 := by
    have htransfer := wireUtf8_transfer (.inr rfl) hvalid
    refine { htransfer with atoms := fun a ha => ?_ }
    obtain ⟨b, hb, rfl⟩ := List.mem_map.mp ha
    exact { htransfer.atoms b hb with version := fun v hv => by obtain rfl := Option.some.inj hv; decide }
  have hconserved (hash : ByteString) (hhash : hash ≠ []) :
      verifyTokenIsotopeV { versionedTransfer with molecularHash := hash } = .ok true := by
    have hsums : tokenSums [] versionedTransfer.atoms = .ok true := by decide +kernel
    exact (verifyTokenIsotopeV_rehashed (List.cons_ne_nil _ _) (by decide) hhash).trans hsums
  have hcontinuId : verifyContinuId versionedTransfer = true :=
    verifyContinuId_of_token rfl (show ascii "T" ≠ ascii "USER" by decide)
  obtain ⟨position, m, hsign, hcheck, hwire, hsource, -⟩ := sign_accepted (m := versionedTransfer) rfl
    (by simp [versionedTransfer, mapAtoms, underVersion, transfer, Atom.new]) haddress hcontinuId hconserved hutf8 false true
  have hbalance : m.ReadableBalance := by
    intro w hw
    rw [hsource] at hw
    obtain rfl := Option.some.inj hw
    exact .inr ⟨7, by decide⟩
  exact signed_parsed F now rfl hplain addressed_transfer hsign hcheck hbalance hwire

/-- The signed transfer under the version 4 verifies as it is served, with its versions and without them. -/
theorem fromServerData_renders_transfer : ∃ text m servedJson bare, jsonToObject integersOnly 0 text = .ok m ∧
    m.atoms.map Atom.unsigned = versionedTransfer.atoms ∧ fromServerData integersOnly 0 servedJson = .ok m ∧
    (∃ r, verifyFromServerData integersOnly (.constant 0) (fun _ => 0) servedJson = .ok r ∧ r.verified = true) ∧
    ∃ r, verifyFromServerData integersOnly (.constant 0) (fun _ => 0) bare = .ok r ∧ r.verified = true := by
  obtain ⟨text, m, hparse, hatoms, hcheck, hutf8, hplain⟩ := versionedTransfer_parsed integersOnly 0
  have hbare : (m.mapAtoms unversioned).WireUtf8 ∧ ∀ a ∈ (m.mapAtoms unversioned).atoms, a.Plain := by
    refine ⟨{ hutf8 with atoms := fun a ha => ?_ }, fun a ha => ?_⟩
    · obtain ⟨b, hb, rfl⟩ := List.mem_map.mp ha
      exact { hutf8.atoms b hb with version := nofun }
    · obtain ⟨b, hb, rfl⟩ := List.mem_map.mp ha
      obtain ⟨hnull, hvalue, hbatchId, hmetaType, hmetaId⟩ := hplain b hb
      exact ⟨hnull, hvalue, hbatchId, hmetaType, hmetaId⟩
  have hversion : ∀ a ∈ m.atoms, a.version = some (ascii "4") := by
    intro a ha
    have hmem : a.unsigned ∈ versionedTransfer.atoms := hatoms ▸ List.mem_map_of_mem ha
    obtain ⟨b, -, hb⟩ := List.mem_map.mp hmem
    exact (congrArg Atom.version hb).symm
  obtain ⟨hserved, hforced⟩ := fromServerData_renders integersOnly (.constant 0) (fun _ => 0) 0 text m hparse
  obtain ⟨hread, hverified, -⟩ := hserved _ _ (Json.parse_text _ _ (valid_servedForm _ hutf8)) (renders_servedForm _ hplain)
  exact ⟨text, m, _, _, hparse, hatoms, hread 0, hverified hcheck,
    hforced (.inl hversion) hcheck _ _ (Json.parse_text _ _ (valid_servedForm _ hbare.1)) (renders_servedForm _ hbare.2)⟩

end Example

end Molecule

end KnishIO
