import KnishIO.Molecule.ClientView

open ByteString

namespace KnishIO

namespace Molecule

section Forms

/-- A served atom given its `metasJson`. -/
def servedAtomWith (fields : List (ByteString × Json)) (metasJson : Json) : Json :=
  .obj (Json.insert (ascii "metasJson") metasJson fields)

/-- A served molecule given its atoms. -/
def servedWith (fields : List (ByteString × Json)) (atoms : List Json) : Json :=
  .obj (Json.insert (ascii "atoms") (.arr atoms) fields)

/-- One entry as an item of the array form. -/
def metaEntry (m : ByteString × Json) : Json := Json.object [(ascii "key", .str m.1), (ascii "value", m.2)]

def arrayForm (metas : List (ByteString × Json)) : Json := .arr (metas.map metaEntry)

/-- An object with the entries in the order of the metas: inline, as the parser assigns them, and as text. -/
def objectForms (metas : List (ByteString × Json)) : List Json := [Json.object metas, .str (Json.obj metas).text]

/-- The meta list that a served atom is read with. -/
def servedMetas (F : Json.FloatText) (forcedVersion : Option ByteString) (servedAtom : Json) : Throws Atom.MetaState := do
  let client ← servedAtomToClient F forcedVersion servedAtom
  Atom.readMeta client

end Forms

section Reading

variable {F : Json.FloatText}

theorem servedMeta_array (metas : List (ByteString × Json)) : servedMeta F (arrayForm metas) = arrayForm metas := rfl

/-- An object is taken in the order of its keys. -/
theorem servedMeta_objectForms {metas : List (ByteString × Json)} (hmetas : Json.ValidMembers F metas) {form : Json}
    (hform : form ∈ objectForms metas) : servedMeta F form = arrayForm (Json.assign metas []) := by
  obtain rfl | hform := List.mem_cons.mp hform
  · rfl
  · obtain rfl := List.mem_singleton.mp hform
    rw [servedMeta, parsedMeta, Json.parse_written F metas hmetas]
    rfl

/-- What an entry is read as: null is kept apart, and what is no string is read as its text. -/
def parsedEntry (m : ByteString × Json) : Atom.ParsedMeta :=
  (m.1, match m.2 with
    | .null => none
    | .str s => some s
    | v => some v.text)

theorem readMetaItem_metaEntry {m : ByteString × Json} (hvalue : m.2.Valid F) (items : List Atom.ParsedMeta) :
    Atom.readMetaItem ⟨Atom.presentMeta items, Atom.nullPlaces 0 items⟩ (metaEntry m) =
      .ok ⟨Atom.presentMeta (items ++ [parsedEntry m]), Atom.nullPlaces 0 (items ++ [parsedEntry m])⟩ := by
  obtain ⟨key, value⟩ := m
  have hkey : (metaEntry (key, value)).find? (ascii "key") = some (.str key) := rfl
  have hfind : (metaEntry (key, value)).find? (ascii "value") = some value := rfl
  have hdump : dumpJson value = .ok value.text := by rw [dumpJson, Json.dump_valid F value hvalue]
  have hlength := Atom.length_split 0 items
  cases value <;> simp [Atom.readMetaItem, hkey, hfind, getString, parsedEntry, Atom.presentMeta, Atom.nullPlaces_append,
    ← hlength, hdump, Except.map]

theorem foldlM_metaEntry {metas : List (ByteString × Json)} (hmetas : Json.ValidMembers F metas)
    (front : List Atom.ParsedMeta) :
    (metas.map metaEntry).foldlM Atom.readMetaItem ⟨Atom.presentMeta front, Atom.nullPlaces 0 front⟩ =
      .ok ⟨Atom.presentMeta (front ++ metas.map parsedEntry), Atom.nullPlaces 0 (front ++ metas.map parsedEntry)⟩ := by
  induction metas generalizing front with
  | nil => simp [pure, Except.pure]
  | cons m metas ih =>
    rw [List.map_cons, List.foldlM_cons, Throws.bind_of_ok (readMetaItem_metaEntry hmetas.2.1 front), ih hmetas.2.2]
    simp

/-- An object has its keys in the order of the entries when they are sorted. -/
theorem keys_assign_iff {metas : List (ByteString × Json)} :
    (Json.assign metas []).map Prod.fst = metas.map Prod.fst ↔ Json.Sorted metas := by
  constructor
  · intro hkeys
    have hsorted : (metas.map Prod.fst).Pairwise (· < ·) := by
      rw [← hkeys]
      exact List.pairwise_map.mpr (Json.sorted_assign metas List.Pairwise.nil)
    exact List.pairwise_map.mp hsorted
  · intro hsorted
    rw [@Json.assign_of_sorted _ [] hsorted, List.nil_append]

theorem validMembers_assign {metas : List (ByteString × Json)} (hmetas : Json.ValidMembers F metas) :
    Json.ValidMembers F (Json.assign metas []) := by
  rw [Json.validMembers_iff] at hmetas ⊢
  intro m hm
  obtain hm | hm := Json.mem_assign hm
  · exact hmetas m hm
  · cases hm

/-- Lists that are read alike have their keys in one order. -/
theorem keys_of_foldlM {xs ys : List (ByteString × Json)} (hx : Json.ValidMembers F xs) (hy : Json.ValidMembers F ys)
    (h : (xs.map metaEntry).foldlM Atom.readMetaItem ⟨[], []⟩ = (ys.map metaEntry).foldlM Atom.readMetaItem ⟨[], []⟩) :
    xs.map Prod.fst = ys.map Prod.fst := by
  have hxs := foldlM_metaEntry hx []
  have hys := foldlM_metaEntry hy []
  simp only [List.nil_append] at hxs hys
  have hstate := Except.ok.inj (hxs.symm.trans (h.trans hys))
  obtain ⟨hpresent, hnulls⟩ := Atom.MetaState.mk.inj hstate
  have hmerged := Atom.viewMeta_split (xs.map parsedEntry) []
  rw [List.length_nil, hpresent, hnulls] at hmerged
  have hitems := hmerged.symm.trans (Atom.viewMeta_split (ys.map parsedEntry) [])
  have hparsed : xs.map parsedEntry = ys.map parsedEntry := List.map_injective_iff.mpr Atom.parsedItem_injective hitems
  simpa [parsedEntry, Function.comp_def] using congrArg (List.map Prod.fst) hparsed

end Reading

section Molecules

variable {F : Json.FloatText} {fields : List (ByteString × Json)}

theorem member_servedAtomWith (metasJson : Json) {key : String} (hkey : ascii "metasJson" ≠ ascii key) :
    member (servedAtomWith fields metasJson) key = member (.obj fields) key := by
  rw [member, member, servedAtomWith, Json.find?, Json.find?, Json.lookup_insert, if_neg hkey]

theorem member_servedWith (atoms : List Json) {key : String} (hkey : ascii "atoms" ≠ ascii key) :
    member (servedWith fields atoms) key = member (.obj fields) key := by
  rw [member, member, servedWith, Json.find?, Json.find?, Json.lookup_insert, if_neg hkey]

theorem find?_servedWith (atoms : List Json) : (servedWith fields atoms).find? (ascii "atoms") = some (.arr atoms) := by
  rw [servedWith, Json.find?, Json.lookup_insert, if_pos rfl]

theorem metaMember_servedAtomWith {metasJson : Json} (hne : metasJson ≠ .null) :
    metaMember F (servedAtomWith fields metasJson) = servedMeta F metasJson := by
  have hfind : (servedAtomWith fields metasJson).find? (ascii "metasJson") = some metasJson := by
    rw [servedAtomWith, Json.find?, Json.lookup_insert, if_pos rfl]
  rw [metaMember, member_of_find? hfind hne]

/-- Two atoms that differ in the form of their metas are converted alike when the forms are. -/
theorem servedAtomToClient_congr {x y : Json} (hx : x ≠ .null) (hy : y ≠ .null) (hmeta : servedMeta F x = servedMeta F y)
    (forcedVersion : Option ByteString) :
    servedAtomToClient F forcedVersion (servedAtomWith fields x) =
      servedAtomToClient F forcedVersion (servedAtomWith fields y) := by
  have hmember (key : String) (hkey : ascii "metasJson" ≠ ascii key) :
      member (servedAtomWith fields x) key = member (servedAtomWith fields y) key := by
    rw [member_servedAtomWith x hkey, member_servedAtomWith y hkey]
  have hstring (key : String) (hkey : ascii "metasJson" ≠ ascii key) :
      stringMember (servedAtomWith fields x) key = stringMember (servedAtomWith fields y) key := by
    rw [stringMember, stringMember, hmember key hkey]
  have hvalue : valueMember (servedAtomWith fields x) = valueMember (servedAtomWith fields y) := by
    rw [valueMember, valueMember, hmember "value" (by decide)]
  have hfields (value : Option Json) : clientAtomFields F forcedVersion (servedAtomWith fields x) value =
      clientAtomFields F forcedVersion (servedAtomWith fields y) value := by
    simp only [clientAtomFields, tokenMember, indexMember, createdAtMember, versionMember,
      hstring "position" (by decide), hstring "walletAddress" (by decide), hstring "isotope" (by decide),
      hstring "batchId" (by decide), hstring "metaType" (by decide), hstring "metaId" (by decide),
      hstring "otsFragment" (by decide), hstring "tokenSlug" (by decide), hstring "token" (by decide),
      hmember "tokenSlug" (by decide), hmember "index" (by decide), hmember "createdAt" (by decide),
      hmember "version" (by decide), metaMember_servedAtomWith hx, metaMember_servedAtomWith hy, hmeta]
  rw [servedAtomToClient, servedAtomToClient, hvalue]
  simp only [hfields]
  rfl

/-- Molecules whose atoms are converted alike are read alike. -/
theorem clientView_congr {xs ys : List Json} (now : Int64) (forcedVersion : Option ByteString)
    (h : xs.mapM (servedAtomToClient F forcedVersion) = ys.mapM (servedAtomToClient F forcedVersion)) :
    clientView F now (servedWith fields xs) forcedVersion = clientView F now (servedWith fields ys) forcedVersion := by
  have hmember (key : String) (hkey : ascii "atoms" ≠ ascii key) :
      member (servedWith fields xs) key = member (servedWith fields ys) key := by
    rw [member_servedWith xs hkey, member_servedWith ys hkey]
  have hatoms (atoms : List Json) : member (servedWith fields atoms) "atoms" = some (.arr atoms) :=
    member_of_find? (find?_servedWith atoms) nofun
  have hfields (atoms : List Json) : clientFields (servedWith fields xs) atoms = clientFields (servedWith fields ys) atoms := by
    simp only [clientFields, stringMember, createdAtMember, hmember "bundleHash" (by decide), hmember "molecularHash" (by decide),
      hmember "cellSlug" (by decide), hmember "status" (by decide), hmember "createdAt" (by decide)]
  have hclient : servedToClient F (servedWith fields xs) forcedVersion =
      servedToClient F (servedWith fields ys) forcedVersion := by
    rw [servedToClient, servedToClient, hatoms, hatoms]
    simp only [h, hfields]
    rfl
  rw [clientView, clientView, hclient]

theorem verifyClient_congr (H : Shake256) (fields : List (ByteString × Json)) {xs ys : List Json} (now : Int64)
    (forcedVersion : Option ByteString)
    (h : xs.mapM (servedAtomToClient F forcedVersion) = ys.mapM (servedAtomToClient F forcedVersion)) :
    verifyClient F H now (servedWith fields xs) forcedVersion = verifyClient F H now (servedWith fields ys) forcedVersion := by
  rw [verifyClient, verifyClient, clientView_congr now forcedVersion h]

theorem retryVersions_congr {H : Shake256} {x y : Json} (clock : Option ByteString → Int64)
    (h : ∀ now forcedVersion, verifyClient F H now x forcedVersion = verifyClient F H now y forcedVersion)
    (versions : List String) (result : ServedVerification) :
    retryVersions F H clock x versions result = retryVersions F H clock y versions result := by
  induction versions generalizing result with
  | nil => rfl
  | cons version versions ih => simp only [retryVersions, h, ih]

/-- The meta list is read from the form alone. -/
theorem servedMetas_eq (hatom : (Json.obj fields).Valid F) {metasJson : Json} (hne : metasJson ≠ .null)
    (forcedVersion : Option ByteString) :
    servedMetas F forcedVersion (servedAtomWith fields metasJson) =
      (servedMeta F metasJson).elements.foldlM Atom.readMetaItem ⟨[], []⟩ := by
  obtain ⟨value, hvalue⟩ : ∃ value, valueMember (servedAtomWith fields metasJson) = .ok value := by
    rw [valueMember, member_servedAtomWith metasJson (by decide)]
    cases hmember : member (.obj fields) "value" with
    | none => exact ⟨none, rfl⟩
    | some v =>
      have hdump : dumpJson v = .ok v.text := by rw [dumpJson, Json.dump_valid F v (valid_member hatom hmember)]
      cases v with
      | str s => exact ⟨_, rfl⟩
      | _ => exact ⟨_, congrArg (Except.map fun text => some (Json.str text)) hdump⟩
  have hclient : servedAtomToClient F forcedVersion (servedAtomWith fields metasJson) =
      .ok (Json.object (Json.presentFields (clientAtomFields F forcedVersion (servedAtomWith fields metasJson) value))) := by
    rw [servedAtomToClient, hvalue]
    rfl
  have hfind : (Json.object (Json.presentFields (clientAtomFields F forcedVersion (servedAtomWith fields metasJson) value))).find?
      (ascii "meta") = some (servedMeta F metasJson) :=
    find?_clientAtomFields (by simp [clientAtomFields, metaMember_servedAtomWith hne])
  rw [servedMetas, Throws.bind_of_ok hclient, Atom.readMeta, hfind]

/-- The object form of an atom's metas, inline or as text, means what the array form means: the meta list that the
atom is read with, the molecule, and the verdict on it. -/
structure SameMeaning (F : Json.FloatText) (H : Shake256) (clock : Option ByteString → Int64)
    (fields : List (ByteString × Json)) (before after : List Json) (atomFields metas : List (ByteString × Json)) : Prop where
  metaList : ∀ form ∈ objectForms metas, ∀ forcedVersion, servedMetas F forcedVersion (servedAtomWith atomFields form) =
    servedMetas F forcedVersion (servedAtomWith atomFields (arrayForm metas))
  molecule : ∀ form ∈ objectForms metas, ∀ now forcedVersion,
    clientView F now (servedWith fields (before ++ servedAtomWith atomFields form :: after)) forcedVersion =
      clientView F now (servedWith fields (before ++ servedAtomWith atomFields (arrayForm metas) :: after)) forcedVersion
  verdict : ∀ form ∈ objectForms metas, ∀ text text',
    Json.parse F text = some (servedWith fields (before ++ servedAtomWith atomFields form :: after)) →
    Json.parse F text' = some (servedWith fields (before ++ servedAtomWith atomFields (arrayForm metas) :: after)) →
      verifyFromServerData F H clock text = verifyFromServerData F H clock text'

theorem form_ne_null {metas : List (ByteString × Json)} {form : Json} (hform : form ∈ objectForms metas) : form ≠ .null := by
  obtain rfl | hform := List.mem_cons.mp hform
  · nofun
  · obtain rfl := List.mem_singleton.mp hform
    nofun

/-- Both forms mean the same exactly for metas whose keys stand in byte order. -/
theorem sameMeaning_iff (F : Json.FloatText) (H : Shake256) (clock : Option ByteString → Int64)
    (fields : List (ByteString × Json)) (before after : List Json) {atomFields metas : List (ByteString × Json)}
    (hatom : (Json.obj atomFields).Valid F) (hmetas : Json.ValidMembers F metas) :
    SameMeaning F H clock fields before after atomFields metas ↔ Json.Sorted metas := by
  have harray : arrayForm metas ≠ .null := nofun
  constructor
  · intro h
    have hlists := h.metaList (Json.object metas) List.mem_cons_self none
    rw [servedMetas_eq hatom (form_ne_null List.mem_cons_self), servedMetas_eq hatom harray] at hlists
    exact keys_assign_iff.mp (keys_of_foldlM (validMembers_assign hmetas) hmetas hlists)
  · intro hsorted
    have hforms (form : Json) (hform : form ∈ objectForms metas) : servedMeta F form = servedMeta F (arrayForm metas) := by
      rw [servedMeta_objectForms hmetas hform, @Json.assign_of_sorted _ [] hsorted, List.nil_append, servedMeta_array]
    have hatoms (form : Json) (hform : form ∈ objectForms metas) (forcedVersion : Option ByteString) :
        servedAtomToClient F forcedVersion (servedAtomWith atomFields form) =
          servedAtomToClient F forcedVersion (servedAtomWith atomFields (arrayForm metas)) :=
      servedAtomToClient_congr (form_ne_null hform) harray (hforms form hform) forcedVersion
    have hlists (form : Json) (hform : form ∈ objectForms metas) (forcedVersion : Option ByteString) :
        (before ++ servedAtomWith atomFields form :: after).mapM (servedAtomToClient F forcedVersion) =
          (before ++ servedAtomWith atomFields (arrayForm metas) :: after).mapM (servedAtomToClient F forcedVersion) := by
      rw [List.mapM_append, List.mapM_append, List.mapM_cons, List.mapM_cons, hatoms form hform forcedVersion]
    refine ⟨fun form hform forcedVersion => ?_, fun form hform now forcedVersion => ?_, fun form hform text text' h h' => ?_⟩
    · rw [servedMetas, servedMetas, hatoms form hform forcedVersion]
    · exact clientView_congr now forcedVersion (hlists form hform forcedVersion)
    · have hverify (now : Int64) (forcedVersion : Option ByteString) := verifyClient_congr H fields now forcedVersion
        (hlists form hform forcedVersion)
      have hversion : member (servedAtomWith atomFields form) "version" =
          member (servedAtomWith atomFields (arrayForm metas)) "version" := by
        rw [member_servedAtomWith _ (by decide), member_servedAtomWith _ (by decide)]
      have hserves : servesVersion (.arr (before ++ servedAtomWith atomFields form :: after)) =
          servesVersion (.arr (before ++ servedAtomWith atomFields (arrayForm metas) :: after)) := by
        simp only [servesVersion, Json.elements_arr, List.any_append, List.any_cons, hversion]
      have hretry := retryVersions_congr clock hverify
      rw [verifyFromServerData, verifyFromServerData, h, h']
      simp only [hverify, find?_servedWith, hserves, hretry]

end Molecules

section Example

def sortedMetas : List (ByteString × Json) := [(ascii "a", .str (ascii "1")), (ascii "b", .str (ascii "2"))]

def unsortedMetas : List (ByteString × Json) := [(ascii "b", .str (ascii "2")), (ascii "a", .str (ascii "1"))]

theorem validMembers_sortedMetas : Json.ValidMembers integersOnly sortedMetas := by
  refine ⟨by decide, ?_, by decide, ?_, trivial⟩
  · exact show Utf8.valid (ascii "1") = true by decide
  · exact show Utf8.valid (ascii "2") = true by decide

theorem valid_noFields : (Json.obj []).Valid integersOnly := ⟨List.Pairwise.nil, trivial⟩

theorem sameMeaning_iff_sorted :
    SameMeaning integersOnly (.constant 0) (fun _ => 0) [] [] [] [] sortedMetas ↔ Json.Sorted sortedMetas :=
  sameMeaning_iff integersOnly (.constant 0) (fun _ => 0) [] [] [] valid_noFields validMembers_sortedMetas

/-- Two metas that are not in the order of their keys are read the other way round. -/
theorem sameMeaning_unsorted :
    (unsortedMetas.map Prod.fst).Nodup ∧
      servedMetas integersOnly none (servedAtomWith [] (Json.object unsortedMetas)) =
        .ok ⟨[(ascii "a", ascii "1"), (ascii "b", ascii "2")], []⟩ ∧
      servedMetas integersOnly none (servedAtomWith [] (arrayForm unsortedMetas)) =
        .ok ⟨[(ascii "b", ascii "2"), (ascii "a", ascii "1")], []⟩ ∧
      ¬SameMeaning integersOnly (.constant 0) (fun _ => 0) [] [] [] [] unsortedMetas := by
  have hobject : servedMetas integersOnly none (servedAtomWith [] (Json.object unsortedMetas)) =
      .ok ⟨[(ascii "a", ascii "1"), (ascii "b", ascii "2")], []⟩ := rfl
  have harray : servedMetas integersOnly none (servedAtomWith [] (arrayForm unsortedMetas)) =
      .ok ⟨[(ascii "b", ascii "2"), (ascii "a", ascii "1")], []⟩ := rfl
  refine ⟨by decide, hobject, harray, fun hsame => ?_⟩
  have hlists := hsame.metaList (Json.object unsortedMetas) List.mem_cons_self none
  rw [hobject, harray] at hlists
  have hmetas := congrArg Atom.MetaState.metaValues (Except.ok.inj hlists)
  revert hmetas
  decide

end Example

end Molecule

end KnishIO
