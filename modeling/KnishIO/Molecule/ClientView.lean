import KnishIO.Molecule.Served

open ByteString

namespace KnishIO

namespace Molecule

section Valid

variable {F : Json.FloatText} {object served servedAtom : Json}

theorem member_find? {key : String} {value : Json} (h : member object key = some value) :
    object.find? (ascii key) = some value ∧ value ≠ .null := by
  unfold member at h
  split at h
  · cases h
  · rename_i hnull
    exact ⟨h, fun hvalue => hnull (hvalue ▸ h)⟩

theorem member_of_find? {key : String} {value : Json} (h : object.find? (ascii key) = some value) (hne : value ≠ .null) :
    member object key = some value := by
  rw [member, h]
  cases value <;> first | rfl | exact absurd rfl hne

theorem valid_member (hobject : object.Valid F) {key : String} {value : Json} (h : member object key = some value) :
    value.Valid F := Json.valid_of_find? hobject (member_find? h).1

theorem valid_stringMember (hobject : object.Valid F) {key : String} {value : Json}
    (h : stringMember object key = some value) : value.Valid F := by
  unfold stringMember at h
  split at h
  · rename_i s hmember
    obtain rfl := Option.some.inj h
    exact valid_member hobject hmember
  · cases h

theorem valid_toSignedTimestamp {s normalized : ByteString} (hs : Utf8.valid s = true)
    (h : toSignedTimestamp s = some normalized) : Utf8.valid normalized = true := by
  unfold toSignedTimestamp at h
  split at h
  · cases h
  split at h
  · obtain rfl := Option.some.inj h
    exact hs
  split at h
  · obtain rfl := Option.some.inj h
    exact Atom.utf8_ofInt _
  · obtain rfl := Option.some.inj h
    exact hs

theorem valid_servedCreatedAt {value : Json} (hvalue : value.Valid F) : (servedCreatedAt value).Valid F := by
  cases value with
  | int n => exact Atom.utf8_ofInt _
  | str s =>
    rw [servedCreatedAt]
    split
    · rename_i normalized hnormalized
      exact valid_toSignedTimestamp hvalue hnormalized
    · trivial
  | _ => trivial

theorem valid_createdAtMember (hobject : object.Valid F) {value : Json} (h : createdAtMember object = some value) :
    value.Valid F := by
  unfold createdAtMember at h
  split at h
  · cases h
  · obtain ⟨createdAt, hmember, rfl⟩ := Option.map_eq_some_iff.mp h
    exact valid_servedCreatedAt (valid_member hobject hmember)

theorem valid_parsedMeta {metasJson parsed : Json} (hmetas : metasJson.Valid F) (h : parsedMeta F metasJson = some parsed) :
    parsed.Valid F := by
  cases metasJson with
  | str s => exact Json.parse_valid h
  | _ =>
    obtain rfl := Option.some.inj h
    exact hmetas

theorem valid_servedMeta {metasJson : Json} (h : metasJson.Valid F) : (servedMeta F metasJson).Valid F := by
  unfold servedMeta
  split
  · rename_i items hparsed
    exact valid_parsedMeta h hparsed
  · rename_i members hparsed
    have hmembers := valid_parsedMeta h hparsed
    apply Json.valid_arr
    intro j hj
    obtain ⟨item, hitem, rfl⟩ := List.mem_map.mp hj
    obtain ⟨hkey, hvalue⟩ := (Json.validMembers_iff F members).mp hmembers.2 item hitem
    apply Json.valid_object
    simp only [List.forall_mem_cons, List.not_mem_nil, false_implies, implies_true, and_true]
    exact ⟨⟨by decide, hkey⟩, by decide, hvalue⟩
  · trivial

theorem valid_metaMember (h : servedAtom.Valid F) : (metaMember F servedAtom).Valid F := by
  unfold metaMember
  split
  · rename_i metas hmetas
    exact valid_servedMeta (valid_member h hmetas)
  · trivial

theorem valid_tokenMember (h : servedAtom.Valid F) {value : Json} (htoken : tokenMember servedAtom = some value) :
    value.Valid F := by
  unfold tokenMember at htoken
  split at htoken
  · exact valid_stringMember h htoken
  · exact valid_stringMember h htoken

theorem valid_valueMember (h : servedAtom.Valid F) {value : Option Json} (hvalue : valueMember servedAtom = .ok value) :
    ∀ v, value = some v → v.Valid F := by
  rintro v rfl
  unfold valueMember at hvalue
  split at hvalue
  · cases hvalue
  · rename_i s hmember
    obtain rfl := Option.some.inj (Except.ok.inj hvalue)
    exact valid_member h hmember
  · rename_i j _ hmember
    cases htext : dumpJson j with
    | error e => simp [htext, Except.map] at hvalue
    | ok text =>
      rw [htext] at hvalue
      obtain rfl := Option.some.inj (Except.ok.inj hvalue)
      have hj := Json.valid_text j (valid_member h hmember)
      rw [(dumpJson_ok htext).2]
      exact hj

theorem valid_indexMember (h : servedAtom.Valid F) {value : Json} (hindex : indexMember servedAtom = some value) :
    value.Valid F := by
  unfold indexMember at hindex
  split at hindex
  · rename_i n hmember
    obtain rfl := Option.some.inj hindex
    exact valid_member h hmember
  · cases hindex

theorem valid_versionMember (h : servedAtom.Valid F) {forcedVersion : Option ByteString}
    (hforced : ∀ version, forcedVersion = some version → Utf8.valid version = true) {value : Json}
    (hversion : versionMember servedAtom forcedVersion = some value) : value.Valid F := by
  cases forcedVersion with
  | none => exact valid_member h hversion
  | some version =>
    obtain rfl := Option.some.inj hversion
    exact hforced version rfl

/-- A converted atom: its fields. -/
theorem servedAtomToClient_ok {forcedVersion : Option ByteString} {client : Json}
    (h : servedAtomToClient F forcedVersion servedAtom = .ok client) :
    ∃ value, valueMember servedAtom = .ok value ∧
      client = Json.object (Json.presentFields (clientAtomFields F forcedVersion servedAtom value)) := by
  unfold servedAtomToClient at h
  split at h
  · cases h
  · cases hvalue : valueMember servedAtom with
    | error e => simp [hvalue, Except.map] at h
    | ok value =>
      rw [hvalue] at h
      exact ⟨value, rfl, (Except.ok.inj h).symm⟩

theorem valid_servedAtomToClient (h : servedAtom.Valid F) {forcedVersion : Option ByteString}
    (hforced : ∀ version, forcedVersion = some version → Utf8.valid version = true) {client : Json}
    (hclient : servedAtomToClient F forcedVersion servedAtom = .ok client) : client.Valid F := by
  obtain ⟨value, hvalue, rfl⟩ := servedAtomToClient_ok hclient
  apply Json.valid_presentFields
  simp only [clientAtomFields, List.forall_mem_cons, List.not_mem_nil, false_implies, implies_true, and_true]
  refine ⟨⟨by decide, ?_⟩, ⟨by decide, ?_⟩, ⟨by decide, ?_⟩, ⟨by decide, ?_⟩, ⟨by decide, ?_⟩, ⟨by decide, ?_⟩,
    ⟨by decide, ?_⟩, ⟨by decide, ?_⟩, ⟨by decide, ?_⟩, ⟨by decide, ?_⟩, ⟨by decide, ?_⟩, ⟨by decide, ?_⟩, by decide, ?_⟩
  · exact fun v => valid_stringMember h
  · exact fun v => valid_stringMember h
  · exact fun v => valid_stringMember h
  · exact fun v => valid_stringMember h
  · exact fun v => valid_stringMember h
  · exact fun v => valid_stringMember h
  · exact fun v => valid_stringMember h
  · exact fun v => valid_tokenMember h
  · exact valid_valueMember h hvalue
  · exact fun v => valid_indexMember h
  · exact fun v => valid_createdAtMember h
  · exact fun v => valid_versionMember h hforced
  · rintro _ ⟨⟩
    exact valid_metaMember h

/-- What was converted is an object with an array of atoms. -/
theorem servedToClient_ok {forcedVersion : Option ByteString} {client : Json}
    (h : servedToClient F served forcedVersion = .ok client) :
    ∃ servedAtoms atoms, served.find? (ascii "atoms") = some (.arr servedAtoms) ∧
      servedAtoms.mapM (servedAtomToClient F forcedVersion) = .ok atoms ∧
      client = Json.object (Json.presentFields (clientFields served atoms)) := by
  unfold servedToClient at h
  split at h
  · cases h
  · split at h
    · rename_i servedAtoms hatoms
      cases hconverted : servedAtoms.mapM (servedAtomToClient F forcedVersion) with
      | error e => simp [hconverted, Except.map] at h
      | ok atoms =>
        rw [hconverted] at h
        exact ⟨servedAtoms, atoms, (member_find? hatoms).1, hconverted, (Except.ok.inj h).symm⟩
    · cases h

theorem valid_servedToClient (hserved : served.Valid F) {forcedVersion : Option ByteString}
    (hforced : ∀ version, forcedVersion = some version → Utf8.valid version = true) {client : Json}
    (h : servedToClient F served forcedVersion = .ok client) : client.Valid F := by
  obtain ⟨servedAtoms, atoms, hfind, hatoms, rfl⟩ := servedToClient_ok h
  have hvalidAtoms : (Json.arr atoms).Valid F := by
    apply Json.valid_arr
    intro atom hatom
    obtain ⟨servedAtom, hmem, hconverted⟩ := (exists_of_forall₂ (Throws.mapM_ok_iff.mp hatoms)).2 atom hatom
    have hservedAtom : servedAtom.Valid F := Json.valid_of_elements (Json.valid_of_find? hserved hfind) hmem
    exact valid_servedAtomToClient hservedAtom hforced hconverted
  apply Json.valid_presentFields
  simp only [clientFields, List.forall_mem_cons, List.not_mem_nil, false_implies, implies_true, and_true]
  refine ⟨⟨by decide, ?_⟩, ⟨by decide, ?_⟩, ⟨by decide, ?_⟩, ⟨by decide, ?_⟩, ⟨by decide, ?_⟩, by decide, ?_⟩
  · exact fun v => valid_stringMember hserved
  · exact fun v => valid_stringMember hserved
  · exact fun v => valid_stringMember hserved
  · exact fun v => valid_stringMember hserved
  · exact fun v => valid_createdAtMember hserved
  · rintro _ ⟨⟩
    exact hvalidAtoms

end Valid

section Fields

variable {F : Json.FloatText} {served servedAtom : Json}

theorem find?_clientFields {atoms : List Json} {key : ByteString} {value : Option Json}
    (hmem : (key, value) ∈ clientFields served atoms) :
    (Json.object (Json.presentFields (clientFields served atoms))).find? key = value := by
  apply Json.find?_presentFields _ hmem
  show (["bundle", "molecularHash", "cellSlug", "status", "createdAt", "atoms"].map ascii).Nodup
  decide

theorem find?_clientAtomFields {forcedVersion : Option ByteString} {v : Option Json} {key : ByteString}
    {value : Option Json} (hmem : (key, value) ∈ clientAtomFields F forcedVersion servedAtom v) :
    (Json.object (Json.presentFields (clientAtomFields F forcedVersion servedAtom v))).find? key = value := by
  apply Json.find?_presentFields _ hmem
  show (["position", "walletAddress", "isotope", "batchId", "metaType", "metaId", "otsFragment", "token", "value", "index",
    "createdAt", "version", "meta"].map ascii).Nodup
  decide

/-- A molecule that was read from a served one: its fields and its atoms are those of the converted document. -/
theorem clientView_ok (hserved : served.Valid F) {now : Int64} {forcedVersion : Option ByteString}
    (hforced : ∀ version, forcedVersion = some version → Utf8.valid version = true) {m : Molecule}
    (h : clientView F now served forcedVersion = .ok m) :
    ∃ servedAtoms atoms client, served.find? (ascii "atoms") = some (.arr servedAtoms) ∧
      List.Forall₂ (fun servedAtom atom => servedAtomToClient F forcedVersion servedAtom = .ok atom) servedAtoms atoms ∧
      client = Json.object (Json.presentFields (clientFields served atoms)) ∧ parseJson F client.text = .ok client ∧
      jsonToObject F now client.text = .ok m ∧
      List.Forall₂ (fun item atom => Atom.ofJson now item = .ok atom ∧ filled atom = true) atoms m.atoms := by
  obtain ⟨client, hclient, h⟩ := Throws.bind_ok h
  obtain ⟨text, htext, h⟩ := Throws.bind_ok h
  have hvalid := valid_servedToClient hserved hforced hclient
  obtain ⟨servedAtoms, atoms, hfind, hatoms, hfields⟩ := servedToClient_ok hclient
  rw [(dumpJson_ok htext).2] at h
  have hparse : parseJson F client.text = .ok client := by
    rw [parseJson, Json.parse_text F client hvalid]
  obtain ⟨json, _, _, hjson, _, _, _, _, hread, _⟩ := jsonToObject_ok h
  obtain rfl := Except.ok.inj (hparse.symm.trans hjson)
  have helements : atomElements client = atoms := by
    have hclientAtoms : client.find? (ascii "atoms") = some (.arr atoms) := by
      rw [hfields]
      exact find?_clientFields (by simp [clientFields])
    rw [atomElements, hclientAtoms]
    rfl
  have hreadAtoms := readAtoms_ok hvalid hread
  rw [helements] at hreadAtoms
  exact ⟨servedAtoms, atoms, client, hfind, Throws.mapM_ok_iff.mp hatoms, hfields, hparse, h, hreadAtoms⟩

/-- The hash that was read is the served one. -/
theorem clientView_molecularHash (hserved : served.Valid F) {now : Int64} {forcedVersion : Option ByteString}
    (hforced : ∀ version, forcedVersion = some version → Utf8.valid version = true) {m : Molecule}
    (h : clientView F now served forcedVersion = .ok m) (hne : m.molecularHash ≠ []) :
    member served "molecularHash" = some (.str m.molecularHash) := by
  obtain ⟨_, atoms, client, _, _, hfields, hparse, hread, _⟩ := clientView_ok hserved hforced h
  obtain ⟨json, _, _, hjson, hhash, _⟩ := jsonToObject_ok hread
  obtain rfl := Except.ok.inj (hparse.symm.trans hjson)
  have hfind : client.find? (ascii "molecularHash") = stringMember served "molecularHash" := by
    rw [hfields]
    exact find?_clientFields (by simp [clientFields])
  unfold Atom.readString at hhash
  rw [hfind] at hhash
  cases hstring : stringMember served "molecularHash" with
  | none =>
    rw [hstring] at hhash
    exact absurd (Except.ok.inj hhash).symm hne
  | some value =>
    rw [hstring] at hhash
    obtain rfl := getString_ok hhash
    unfold stringMember at hstring
    split at hstring
    · rename_i s hmember
      rw [hmember, hstring]
    · cases hstring

/-- Under a forced version every atom carries it. -/
theorem clientView_version (hserved : served.Valid F) {now : Int64} {version : ByteString}
    (hversion : Utf8.valid version = true) {m : Molecule} (h : clientView F now served (some version) = .ok m) :
    ∀ a ∈ m.atoms, a.version = some version := by
  have hforced : ∀ v, some version = some v → Utf8.valid v = true := by
    rintro _ ⟨⟩
    exact hversion
  obtain ⟨servedAtoms, atoms, _, _, hconverted, _, _, _, hatoms⟩ := clientView_ok hserved hforced h
  intro a ha
  obtain ⟨item, hitem, hread, _⟩ := (exists_of_forall₂ hatoms).2 a ha
  obtain ⟨servedAtom, _, hclient⟩ := (exists_of_forall₂ hconverted).2 item hitem
  obtain ⟨value, _, rfl⟩ := servedAtomToClient_ok hclient
  obtain ⟨_, _, _, _, _, _, _, _, _, _, _, _, _, _, _, _, hreadVersion⟩ := Atom.ofJson_ok hread
  have hfind : (Json.object (Json.presentFields (clientAtomFields F (some version) servedAtom value))).find?
      (ascii "version") = some (.str version) :=
    find?_clientAtomFields (by simp [clientAtomFields, versionMember])
  rw [Atom.readVersion, hfind] at hreadVersion
  exact hreadVersion.symm

end Fields

end Molecule

end KnishIO
