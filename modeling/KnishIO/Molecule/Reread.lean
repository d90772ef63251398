import KnishIO.Library.Json.Sound
import KnishIO.Atom.Version4

open ByteString

namespace KnishIO

theorem getString_ok {j : Json} {s : ByteString} (h : getString j = .ok s) : j = .str s := by
  cases j with
  | str t =>
    obtain rfl := Except.ok.inj h
    rfl
  | _ => cases h

theorem parseJson_ok {F : Json.FloatText} {text : ByteString} {json : Json} (h : parseJson F text = .ok json) :
    json.Valid F := by
  unfold parseJson at h
  cases hparse : Json.parse F text with
  | none => simp [hparse] at h
  | some j =>
    rw [hparse] at h
    obtain rfl := Except.ok.inj h
    exact Json.parse_valid hparse

namespace Atom

section Parsed

variable {F : Json.FloatText} {json : Json}

theorem valid_of_readString (hjson : json.Valid F) {key : String} {s : ByteString} (h : readString json key = .ok s) :
    Utf8.valid s = true := by
  unfold readString at h
  split at h
  · obtain rfl := Except.ok.inj h
    rfl
  · rename_i value hfind
    obtain rfl := getString_ok h
    exact Json.valid_of_find? hjson hfind

/-- An optional field is absent or null, or a string; the flag says that it is the empty one. -/
theorem readOptional_ok {key : String} {s : ByteString} {flag : Bool} (h : readOptional json key = .ok (s, flag)) :
    (json.find? (ascii key) = none ∨ json.find? (ascii key) = some .null) ∧ s = [] ∧ flag = false ∨
      json.find? (ascii key) = some (.str s) ∧ (flag = true ↔ s = []) := by
  unfold readOptional at h
  cases hfind : json.find? (ascii key) with
  | none =>
    rw [hfind] at h
    obtain ⟨rfl, rfl⟩ := Prod.mk.inj (Except.ok.inj h)
    exact .inl ⟨.inl rfl, rfl, rfl⟩
  | some value =>
    simp only [hfind] at h
    split_ifs at h with hnull
    · obtain ⟨rfl, rfl⟩ := Prod.mk.inj (Except.ok.inj h)
      cases value with
      | null => exact .inl ⟨.inr rfl, rfl, rfl⟩
      | _ => cases hnull
    · cases hstring : getString value with
      | error e => simp [hstring, Except.map] at h
      | ok t =>
        rw [hstring] at h
        obtain ⟨rfl, rfl⟩ := Prod.mk.inj (Except.ok.inj h)
        exact .inr ⟨congrArg some (getString_ok hstring), decide_eq_true_iff⟩

theorem valid_of_readOptional (hjson : json.Valid F) {key : String} {s : ByteString} {flag : Bool}
    (h : readOptional json key = .ok (s, flag)) : Utf8.valid s = true := by
  obtain ⟨_, rfl, _⟩ | ⟨hfind, _⟩ := readOptional_ok h
  · rfl
  · exact Json.valid_of_find? hjson hfind

/-- The metas read so far are UTF-8. -/
structure MetaState.ValidUtf8 (s : MetaState) : Prop where
  metaValues : ∀ m ∈ s.metaValues, Utf8.valid m.1 = true ∧ Utf8.valid m.2 = true
  nullMeta : ∀ m ∈ s.nullMeta, Utf8.valid m.2 = true

/-- What one item adds: a null meta, a meta, or nothing. -/
theorem readMetaItem_ok {s s' : MetaState} {item : Json} (h : readMetaItem s item = .ok s') :
    (∃ key, item.find? (ascii "key") = some (.str key) ∧ item.find? (ascii "value") = some .null ∧
        s' = { s with nullMeta := s.nullMeta ++ [(s.metaValues.length + s.nullMeta.length, key)] }) ∨
      (∃ key v value, item.find? (ascii "key") = some (.str key) ∧ item.find? (ascii "value") = some v ∧ v ≠ .null ∧
        (v = .str value ∨ dumpJson v = .ok value) ∧ s' = { s with metaValues := s.metaValues ++ [(key, value)] }) ∨
      (item.find? (ascii "key") = none ∨ item.find? (ascii "value") = none) ∧ s' = s := by
  unfold readMetaItem at h
  split at h
  · rename_i k v hk hv
    cases hkey : getString k with
    | error e => simp [hkey] at h
    | ok key =>
      obtain rfl := getString_ok hkey
      simp only [hkey] at h
      split at h
      · exact .inl ⟨key, hk, hv, (Except.ok.inj h).symm⟩
      · rename_i value
        exact .inr (.inl ⟨key, .str value, value, hk, hv, nofun, .inl rfl, (Except.ok.inj h).symm⟩)
      · rename_i hnull _
        cases htext : dumpJson v with
        | error e => simp [htext, Except.map] at h
        | ok value =>
          rw [htext] at h
          exact .inr (.inl ⟨key, v, value, hk, hv, hnull, .inr htext, (Except.ok.inj h).symm⟩)
  · rename_i hmissing
    obtain rfl := Except.ok.inj h
    refine .inr (.inr ⟨?_, rfl⟩)
    cases hk : item.find? (ascii "key") with
    | none => exact .inl rfl
    | some k =>
      cases hv : item.find? (ascii "value") with
      | none => exact .inr rfl
      | some v => exact absurd hv (hmissing k v hk)

theorem readMetaItem_validUtf8 {s s' : MetaState} {item : Json} (hs : s.ValidUtf8) (hitem : item.Valid F)
    (h : readMetaItem s item = .ok s') : s'.ValidUtf8 := by
  obtain ⟨key, hkey, _, rfl⟩ | ⟨key, v, value, hkey, hv, _, hvalue, rfl⟩ | ⟨_, rfl⟩ := readMetaItem_ok h
  · refine ⟨hs.metaValues, List.forall_mem_append.mpr ⟨hs.nullMeta, ?_⟩⟩
    simp only [List.mem_singleton, forall_eq]
    exact Json.valid_of_find? hitem hkey
  · have hvalid : Utf8.valid value = true := by
      have hv := Json.valid_of_find? hitem hv
      obtain rfl | htext := hvalue
      · exact hv
      · rw [(dumpJson_ok htext).2]
        exact Json.valid_text v hv
    refine ⟨List.forall_mem_append.mpr ⟨hs.metaValues, ?_⟩, hs.nullMeta⟩
    simp only [List.mem_singleton, forall_eq]
    exact ⟨Json.valid_of_find? hitem hkey, hvalid⟩
  · exact hs

theorem readMeta_validUtf8 (hjson : json.Valid F) {s : MetaState} (h : readMeta json = .ok s) : s.ValidUtf8 := by
  have hfold : ∀ (items : List Json) (s s' : MetaState), (∀ item ∈ items, item.Valid F) → s.ValidUtf8 →
      items.foldlM readMetaItem s = .ok s' → s'.ValidUtf8 := by
    intro items
    induction items with
    | nil =>
      intro s s' _ hs h
      obtain rfl := Except.ok.inj h
      exact hs
    | cons item items ih =>
      intro s s' hitems hs h
      rw [List.foldlM_cons] at h
      obtain ⟨t, ht, hrest⟩ := Throws.bind_ok h
      obtain ⟨hitem, hitems⟩ := List.forall_mem_cons.mp hitems
      exact ih t s' hitems (readMetaItem_validUtf8 hs hitem ht) hrest
  unfold readMeta at h
  split at h
  · obtain rfl := Except.ok.inj h
    exact ⟨by simp, by simp⟩
  · rename_i value hfind
    exact hfold _ _ _ (fun item hitem => Json.valid_of_elements (Json.valid_of_find? hjson hfind) hitem)
      ⟨by simp, by simp⟩ h

theorem valid_of_readVersion (hjson : json.Valid F) {version : ByteString} (h : readVersion json = some version) :
    Utf8.valid version = true := by
  unfold readVersion at h
  split at h
  · rename_i s hfind
    obtain rfl := Option.some.inj h
    exact Json.valid_of_find? hjson hfind
  · rename_i n hfind
    obtain rfl := Option.some.inj h
    exact Json.valid_text _ (Json.valid_of_find? hjson hfind)
  · rename_i t hfind
    obtain rfl := Option.some.inj h
    exact Json.valid_text _ (Json.valid_of_find? hjson hfind)
  · cases h

/-- The strings of a parsed atom are UTF-8. -/
theorem ofJson_wireUtf8 (hjson : json.Valid F) {now : Int64} {atom : Atom} (h : ofJson now json = .ok atom) :
    atom.WireUtf8 := by
  obtain ⟨metas, fragmentFlag, hposition, haddress, hisotope, htoken, hvalue, hbatchId, hmetaType, hmetaId, hmetas, hpresent,
    hnulls, hfragment, _, _, hversion⟩ := ofJson_ok h
  have hmetas := readMeta_validUtf8 hjson hmetas
  exact {
    position := valid_of_readString hjson hposition
    walletAddress := valid_of_readString hjson haddress
    isotope := valid_of_readString hjson hisotope
    token := valid_of_readString hjson htoken
    value := valid_of_readOptional hjson hvalue
    batchId := valid_of_readOptional hjson hbatchId
    metaType := valid_of_readOptional hjson hmetaType
    metaId := valid_of_readOptional hjson hmetaId
    metas := hpresent ▸ hmetas.metaValues
    nullMetas := hnulls ▸ hmetas.nullMeta
    version := fun version hsome => valid_of_readVersion hjson (hversion.trans hsome)
    otsFragment := valid_of_readOptional hjson hfragment }

end Parsed

section Restored

/-- What an atom is read back as: neither its flags nor its null metas are written. -/
def restored (atom : Atom) : Atom :=
  { atom with
    nullMeta := []
    emptyValue := false
    emptyBatchId := false
    emptyMetaType := false
    emptyMetaId := false }

theorem plain_restored (atom : Atom) : atom.restored.Plain := ⟨rfl, rfl, rfl, rfl, rfl⟩

theorem restored_of_plain {atom : Atom} (h : atom.Plain) : atom.restored = atom := by
  obtain ⟨hnull, hvalue, hbatchId, hmetaType, hmetaId⟩ := h
  cases atom
  simp_all [restored]

theorem WireUtf8.restored {atom : Atom} (h : atom.WireUtf8) : atom.restored.WireUtf8 :=
  { h with nullMetas := by simp [Atom.restored] }

/-- The fields that are a string or null. -/
def optionalKeys : List String := ["value", "batchId", "metaType", "metaId"]

/-- The document says what a written atom cannot say: that an optional field is `""`, or that a meta is null. -/
def Unwritten (json : Json) : Prop :=
  (∃ key ∈ optionalKeys, json.find? (ascii key) = some (.str [])) ∨
    ∃ metas, json.find? (ascii "meta") = some metas ∧
      ∃ item ∈ metas.elements, (item.find? (ascii "key")).isSome ∧ item.find? (ascii "value") = some .null

theorem readOptional_flag {json : Json} {key : String} {s : ByteString} {flag : Bool}
    (h : readOptional json key = .ok (s, flag)) : flag = true ↔ json.find? (ascii key) = some (.str []) := by
  obtain ⟨hfind, _, rfl⟩ | ⟨hfind, hflag⟩ := readOptional_ok h
  · obtain hfind | hfind := hfind <;> simp [hfind]
  · simp [hflag, hfind]

theorem readMeta_nullMeta {json : Json} {s : MetaState} (h : readMeta json = .ok s) :
    s.nullMeta = [] ↔ ¬ ∃ metas, json.find? (ascii "meta") = some metas ∧
      ∃ item ∈ metas.elements, (item.find? (ascii "key")).isSome ∧ item.find? (ascii "value") = some .null := by
  have hfold : ∀ (items : List Json) (s s' : MetaState), items.foldlM readMetaItem s = .ok s' →
      (s'.nullMeta = [] ↔ s.nullMeta = [] ∧
        ¬ ∃ item ∈ items, (item.find? (ascii "key")).isSome ∧ item.find? (ascii "value") = some .null) := by
    intro items
    induction items with
    | nil =>
      intro s s' h
      obtain rfl := Except.ok.inj h
      simp
    | cons item items ih =>
      intro s s' h
      rw [List.foldlM_cons] at h
      obtain ⟨t, ht, hrest⟩ := Throws.bind_ok h
      rw [ih t s' hrest]
      simp only [List.exists_mem_cons_iff, not_or]
      obtain ⟨key, hkey, hvalue, rfl⟩ | ⟨key, v, value, hkey, hvalue, hnull, _, rfl⟩ | ⟨hmissing, rfl⟩ := readMetaItem_ok ht
      · simp [hkey, hvalue]
      · simp [hkey, hvalue, hnull]
      · obtain hmissing | hmissing := hmissing <;> simp [hmissing]
  unfold readMeta at h
  cases hfind : json.find? (ascii "meta") with
  | none =>
    rw [hfind] at h
    obtain rfl := Except.ok.inj h
    simp
  | some metas =>
    rw [hfind] at h
    simpa using hfold metas.elements _ s h

/-- An atom is plain exactly when its document says nothing that cannot be written. -/
theorem plain_iff_not_unwritten {now : Int64} {json : Json} {atom : Atom} (h : ofJson now json = .ok atom) :
    atom.Plain ↔ ¬ Unwritten json := by
  obtain ⟨metas, fragmentFlag, _, _, _, _, hvalue, hbatchId, hmetaType, hmetaId, hmetas, _, hnulls, _⟩ := ofJson_ok h
  have hplain : atom.Plain ↔ (¬ atom.emptyValue = true ∧ ¬ atom.emptyBatchId = true ∧ ¬ atom.emptyMetaType = true ∧
      ¬ atom.emptyMetaId = true) ∧ metas.nullMeta = [] := by
    simp only [Bool.not_eq_true, hnulls]
    exact ⟨fun ⟨hnull, hv, hb, ht, hi⟩ => ⟨⟨hv, hb, ht, hi⟩, hnull⟩, fun ⟨⟨hv, hb, ht, hi⟩, hnull⟩ => ⟨hnull, hv, hb, ht, hi⟩⟩
  rw [hplain, readOptional_flag hvalue, readOptional_flag hbatchId, readOptional_flag hmetaType, readOptional_flag hmetaId,
    readMeta_nullMeta hmetas, Unwritten, not_or]
  simp [optionalKeys]

end Restored

end Atom

theorem exists_of_forall₂ {α β : Type} {R : α → β → Prop} {xs : List α} {ys : List β} (h : List.Forall₂ R xs ys) :
    (∀ x ∈ xs, ∃ y ∈ ys, R x y) ∧ ∀ y ∈ ys, ∃ x ∈ xs, R x y := by
  induction h with
  | nil => simp
  | cons hhead _ ih =>
    simp only [List.forall_mem_cons, List.exists_mem_cons_iff]
    exact ⟨⟨.inl hhead, fun x hx => .inr (ih.1 x hx)⟩, .inl hhead, fun y hy => .inr (ih.2 y hy)⟩

namespace Molecule

section Parsed

variable {F : Json.FloatText} {now : Int64}

/-- The atoms of a document, as the reader visits them. -/
def atomElements (json : Json) : List Json :=
  match json.find? (ascii "atoms") with
  | none => []
  | some value => value.elements

/-- An atom that was read: its document is read once more from its own text, and the required fields are filled. -/
theorem readAtom_ok {jsonAtom : Json} (hvalid : jsonAtom.Valid F) {atom : Atom} (h : readAtom F now jsonAtom = .ok atom) :
    Atom.ofJson now jsonAtom = .ok atom ∧ filled atom = true := by
  obtain ⟨text, htext, h⟩ := Throws.bind_ok h
  obtain ⟨parsed, hparsed, h⟩ := Throws.bind_ok h
  split_ifs at h with hempty
  · obtain rfl := Except.ok.inj h
    obtain ⟨json, hjson, hread⟩ := Throws.bind_ok hparsed
    rw [(dumpJson_ok htext).2, parseJson, Json.parse_text F jsonAtom hvalid] at hjson
    obtain rfl := Except.ok.inj hjson
    refine ⟨hread, ?_⟩
    simp only [not_or] at hempty
    simp [filled, hempty]

theorem mapM_readAtom_ok {items : List Json} (hvalid : ∀ item ∈ items, item.Valid F) {atoms : List Atom}
    (h : items.mapM (readAtom F now) = .ok atoms) :
    List.Forall₂ (fun item atom => Atom.ofJson now item = .ok atom ∧ filled atom = true) items atoms := by
  have hread := Throws.mapM_ok_iff.mp h
  clear h
  induction hread with
  | nil => exact .nil
  | cons hhead _ ih =>
    obtain ⟨hitem, hitems⟩ := List.forall_mem_cons.mp hvalid
    exact .cons (readAtom_ok hitem hhead) (ih hitems)

theorem valid_of_atomElements {json : Json} (hvalid : json.Valid F) : ∀ item ∈ atomElements json, item.Valid F := by
  intro item hitem
  unfold atomElements at hitem
  split at hitem
  · cases hitem
  · rename_i value hfind
    exact Json.valid_of_elements (Json.valid_of_find? hvalid hfind) hitem

theorem readAtoms_ok {json : Json} (hvalid : json.Valid F) {atoms : List Atom} (h : readAtoms F now json = .ok atoms) :
    List.Forall₂ (fun item atom => Atom.ofJson now item = .ok atom ∧ filled atom = true) (atomElements json) atoms := by
  apply mapM_readAtom_ok (valid_of_atomElements hvalid)
  unfold readAtoms at h
  unfold atomElements
  cases hfind : json.find? (ascii "atoms") with
  | none =>
    rw [hfind] at h
    exact h
  | some value =>
    rw [hfind] at h
    exact h

/-- What a parse read. -/
theorem jsonToObject_ok {text : ByteString} {m : Molecule} (h : jsonToObject F now text = .ok m) :
    ∃ json cellSlugFlag statusFlag, parseJson F text = .ok json ∧
      Atom.readString json "molecularHash" = .ok m.molecularHash ∧
      Atom.readOptional json "cellSlug" = .ok (m.cellSlug, cellSlugFlag) ∧
      Atom.readString json "bundle" = .ok m.bundle ∧ Atom.readOptional json "status" = .ok (m.status, statusFlag) ∧
      readAtoms F now json = .ok m.atoms ∧ readCreatedAt now json = .ok m.createdAt ∧
      m.sourceWallet = none ∧ m.remainderWallet = none := by
  obtain ⟨json, hjson, h⟩ := Throws.bind_ok h
  obtain ⟨molecularHash, hhash, h⟩ := Throws.bind_ok h
  obtain ⟨cellSlug, hcellSlug, h⟩ := Throws.bind_ok h
  obtain ⟨bundle, hbundle, h⟩ := Throws.bind_ok h
  obtain ⟨status, hstatus, h⟩ := Throws.bind_ok h
  obtain ⟨atoms, hatoms, h⟩ := Throws.bind_ok h
  obtain ⟨createdAt, hcreatedAt, h⟩ := Throws.bind_ok h
  obtain rfl := Except.ok.inj h
  exact ⟨json, cellSlug.2, status.2, hjson, hhash, hcellSlug, hbundle, hstatus, hatoms, hcreatedAt, rfl, rfl⟩

end Parsed

section Restored

variable {F : Json.FloatText} {now : Int64} {text : ByteString} {m : Molecule}

def restored (m : Molecule) : Molecule := { m with atoms := m.atoms.map Atom.restored }

theorem toJson_restored (m : Molecule) : m.restored.toJson = m.toJson := by
  have hatoms : m.restored.atoms.map Atom.toJson = m.atoms.map Atom.toJson := by
    rw [restored, List.map_map]
    rfl
  have hmembers : m.restored.wireMembers = m.wireMembers := by
    rw [wireMembers, wireMembers, hatoms]
    rfl
  rw [toJson, toJson, hmembers]
  rfl

/-- The strings of a parsed molecule are UTF-8. -/
theorem jsonToObject_wireUtf8 (h : jsonToObject F now text = .ok m) : m.WireUtf8 := by
  obtain ⟨json, _, _, hjson, hhash, hcellSlug, hbundle, hstatus, hatoms, _, hsource, hremainder⟩ := jsonToObject_ok h
  have hvalid := parseJson_ok hjson
  refine ⟨Atom.valid_of_readString hvalid hhash, Atom.valid_of_readOptional hvalid hcellSlug,
    Atom.valid_of_readString hvalid hbundle, Atom.valid_of_readOptional hvalid hstatus, fun atom hatom => ?_, ?_⟩
  · obtain ⟨item, hitem, hread, _⟩ := (exists_of_forall₂ (readAtoms_ok hvalid hatoms)).2 atom hatom
    exact Atom.ofJson_wireUtf8 (valid_of_atomElements hvalid item hitem) hread
  · rw [hsource, hremainder]
    nofun

theorem WireUtf8.restored (h : m.WireUtf8) : m.restored.WireUtf8 := by
  refine { h with atoms := fun atom hatom => ?_ }
  obtain ⟨a, ha, rfl⟩ := List.mem_map.mp hatom
  exact (h.atoms a ha).restored

/-- A parsed molecule can be written, and what is read back has lost the flags and the null metas. -/
theorem jsonToObject_reread (now' : Int64) (h : jsonToObject F now text = .ok m) :
    ∃ text', m.toJson = .ok text' ∧ jsonToObject F now' text' = .ok m.restored := by
  obtain ⟨json, _, _, hjson, _, _, _, _, hatoms, _, hsource, hremainder⟩ := jsonToObject_ok h
  have hbalance : m.restored.ReadableBalance := by
    intro w hw
    exact absurd (hsource.symm.trans hw) nofun
  have hplain : ∀ a ∈ m.restored.atoms, a.Plain := by
    intro a ha
    obtain ⟨b, _, rfl⟩ := List.mem_map.mp ha
    exact b.plain_restored
  obtain ⟨text', htext, hread⟩ := jsonToObject_toJson F now' hbalance (jsonToObject_wireUtf8 h).restored hplain
  refine ⟨text', m.toJson_restored ▸ htext, ?_⟩
  have hfilled : m.restored.atoms.all filled = true := by
    refine List.all_eq_true.mpr fun a ha => ?_
    obtain ⟨b, hb, rfl⟩ := List.mem_map.mp ha
    obtain ⟨_, _, _, hb⟩ := (exists_of_forall₂ (readAtoms_ok (parseJson_ok hjson) hatoms)).2 b hb
    exact hb
  have hwallets : { m.restored with sourceWallet := none, remainderWallet := none } = m.restored := by
    cases m
    simp_all [restored]
  rw [hread, if_pos hfilled, hwallets]

end Restored

section Rehash

variable {F : Json.FloatText} {m : Molecule}

/-- Two lists have different structured views with one digest. -/
def ViewCollision (H : Shake256) (atoms₁ atoms₂ : List Atom) : Prop :=
  ∃ text₁ text₂, Atom.version4ViewJson atoms₁ = .ok text₁ ∧ Atom.version4ViewJson atoms₂ = .ok text₂ ∧ text₁ ≠ text₂ ∧
    shake256 H text₁ 256 = shake256 H text₂ 256

theorem hashAtoms_view (H : Shake256) {atoms : List Atom} (hne : atoms ≠ []) (h : ∀ a ∈ atoms, a.version.isSome) :
    Atom.hashAtoms H atoms = (Atom.version4ViewJson atoms).map fun text => shake256 H text 256 := by
  have hversioned : Atom.allVersioned atoms = true := by
    simp only [Atom.allVersioned, Bool.and_eq_true, decide_eq_true_eq, List.all_eq_true]
    exact ⟨hne, h⟩
  rw [Atom.hashAtoms, if_pos hversioned]

/-- The restored atoms have the view of the atoms only where nothing was lost. -/
theorem plain_of_version4View {atoms : List Atom} (hwell : ∀ a ∈ atoms, a.WellFormed)
    (h : Atom.version4View (atoms.map Atom.restored) = Atom.version4View atoms) : ∀ a ∈ atoms, a.Plain := by
  have hrestored : ∀ a ∈ atoms.map Atom.restored, a.Plain := by
    intro a ha
    obtain ⟨b, _, rfl⟩ := List.mem_map.mp ha
    exact b.plain_restored
  have hsame := Atom.version4View_injective (fun a ha => (hrestored a ha).wellFormed) hwell h
  intro a ha
  have hmem : a.unsigned ∈ (Atom.byIndex (atoms.map Atom.restored)).map Atom.unsigned := by
    rw [hsame]
    exact List.mem_map_of_mem ((List.mergeSort_perm _ _).mem_iff.mpr ha)
  obtain ⟨b, hb, heq⟩ := List.mem_map.mp hmem
  obtain ⟨hnull, hvalue, hbatchId, hmetaType, hmetaId⟩ := hrestored b ((List.mergeSort_perm _ _).mem_iff.mp hb)
  exact ⟨(congrArg Atom.nullMeta heq).symm.trans hnull, (congrArg Atom.emptyValue heq).symm.trans hvalue,
    (congrArg Atom.emptyBatchId heq).symm.trans hbatchId, (congrArg Atom.emptyMetaType heq).symm.trans hmetaType,
    (congrArg Atom.emptyMetaId heq).symm.trans hmetaId⟩

theorem map_restored_of_plain {atoms : List Atom} (h : ∀ a ∈ atoms, a.Plain) : atoms.map Atom.restored = atoms := by
  have hsame : atoms.map Atom.restored = atoms.map id := List.map_congr_left fun a ha => Atom.restored_of_plain (h a ha)
  rw [hsame, List.map_id]

theorem hashAtoms_restored_iff (H : Shake256) {atoms : List Atom} (hutf8 : ∀ a ∈ atoms, a.WireUtf8)
    (hwell : ∀ a ∈ atoms, a.WellFormed) (hversion : ∀ a ∈ atoms, a.version.isSome) :
    Atom.hashAtoms H (atoms.map Atom.restored) = Atom.hashAtoms H atoms ↔
      (∀ a ∈ atoms, a.Plain) ∨ ViewCollision H (atoms.map Atom.restored) atoms := by
  by_cases hne : atoms = []
  · simp [hne]
  have hrestored : ∀ a ∈ atoms.map Atom.restored, a.WireUtf8 ∧ a.Plain ∧ a.version.isSome := by
    intro a ha
    obtain ⟨b, hb, rfl⟩ := List.mem_map.mp ha
    exact ⟨(hutf8 b hb).restored, b.plain_restored, hversion b hb⟩
  obtain ⟨text₁, htext₁⟩ := Atom.version4ViewJson_ok fun a ha => (hrestored a ha).1.toValidUtf8
  obtain ⟨text₂, htext₂⟩ := Atom.version4ViewJson_ok fun a ha => (hutf8 a ha).toValidUtf8
  have hne' : atoms.map Atom.restored ≠ [] := mt List.map_eq_nil_iff.mp hne
  rw [hashAtoms_view H hne' fun a ha => (hrestored a ha).2.2, hashAtoms_view H hne hversion, htext₁, htext₂]
  constructor
  · intro hdigest
    by_cases hsame : text₁ = text₂
    · obtain ⟨hvalid₁, hview₁⟩ := Atom.version4ViewJson_ok_inv htext₁
      obtain ⟨hvalid₂, hview₂⟩ := Atom.version4ViewJson_ok_inv htext₂
      have hexact₁ := Atom.exact_version4View fun a ha => (hrestored a ha).2.1.wellFormed
      have hexact₂ := Atom.exact_version4View hwell
      apply Or.inl
      apply plain_of_version4View hwell
      exact Json.text_injective (F := integersOnly) (hexact₁.valid _ _ hvalid₁) (hexact₂.valid _ _ hvalid₂)
        (hview₁.symm.trans (hsame.trans hview₂))
    · exact .inr ⟨text₁, text₂, htext₁, htext₂, hsame, Except.ok.inj hdigest⟩
  · rintro (hplain | ⟨t₁, t₂, ht₁, ht₂, _, hcollision⟩)
    · rw [map_restored_of_plain hplain, htext₂] at htext₁
      rw [Except.ok.inj htext₁]
    · obtain rfl := Except.ok.inj (htext₁.symm.trans ht₁)
      obtain rfl := Except.ok.inj (htext₂.symm.trans ht₂)
      exact congrArg Except.ok hcollision

theorem verifyMolecularHash_restored_iff {H : Shake256} (h : verifyMolecularHash H m = .ok true) :
    verifyMolecularHash H m.restored = .ok true ↔ Atom.hashAtoms H m.restored.atoms = Atom.hashAtoms H m.atoms := by
  obtain ⟨hatoms, hhash, digest, hdigest, hbase⟩ := verifyMolecularHash_ok_iff.mp h
  have hatoms' : m.restored.atoms ≠ [] := mt List.map_eq_nil_iff.mp hatoms
  rw [verifyMolecularHash_ok_iff, hdigest]
  constructor
  · rintro ⟨_, _, digest', hdigest', hbase'⟩
    rw [hdigest', Atom.base17_injective (Atom.length_hashAtoms hdigest') (Atom.length_hashAtoms hdigest)
      (hbase'.trans hbase.symm)]
  · exact fun hsame => ⟨hatoms', hhash, digest, hsame, hbase⟩

/-- A parsed molecule can be written and read again. If every atom carries a version, the hash stays the same exactly
when no atom of the document has a field that is `""` or a meta that is null, up to a collision; then the molecule
stays the same. -/
theorem reread_hash_iff (F : Json.FloatText) (H : Shake256) (now now' : Int64) (text : ByteString) (m : Molecule)
    (hparse : jsonToObject F now text = .ok m) (hversion : ∀ a ∈ m.atoms, a.version.isSome) :
    ∃ json text' m', Json.parse F text = some json ∧ m.toJson = .ok text' ∧ jsonToObject F now' text' = .ok m' ∧
      (Atom.hashAtoms H m'.atoms = Atom.hashAtoms H m.atoms ↔
        (∀ item ∈ atomElements json, ¬ Atom.Unwritten item) ∨ ViewCollision H m'.atoms m.atoms) ∧
      (verifyMolecularHash H m = .ok true →
        (verifyMolecularHash H m' = .ok true ↔
          (∀ item ∈ atomElements json, ¬ Atom.Unwritten item) ∨ ViewCollision H m'.atoms m.atoms)) ∧
      ((∀ item ∈ atomElements json, ¬ Atom.Unwritten item) → m' = m) := by
  obtain ⟨text', htext', hreread⟩ := jsonToObject_reread now' hparse
  obtain ⟨json, _, _, hjson, _, _, _, _, hatoms, _⟩ := jsonToObject_ok hparse
  have hjson' : Json.parse F text = some json := by
    unfold parseJson at hjson
    cases hparsed : Json.parse F text with
    | none => simp [hparsed] at hjson
    | some j =>
      rw [hparsed] at hjson
      exact congrArg some (Except.ok.inj hjson)
  have hread := exists_of_forall₂ (readAtoms_ok (parseJson_ok hjson) hatoms)
  have hplain : (∀ a ∈ m.atoms, a.Plain) ↔ ∀ item ∈ atomElements json, ¬ Atom.Unwritten item := by
    constructor
    · intro h item hitem
      obtain ⟨a, ha, hreadAtom, _⟩ := hread.1 item hitem
      exact (Atom.plain_iff_not_unwritten hreadAtom).mp (h a ha)
    · intro h a ha
      obtain ⟨item, hitem, hreadAtom, _⟩ := hread.2 a ha
      exact (Atom.plain_iff_not_unwritten hreadAtom).mpr (h item hitem)
  have hwell : ∀ a ∈ m.atoms, a.WellFormed := by
    intro a ha
    obtain ⟨_, _, hreadAtom, _⟩ := hread.2 a ha
    exact Atom.ofJson_wellFormed hreadAtom
  have hhash := hashAtoms_restored_iff H (jsonToObject_wireUtf8 hparse).atoms hwell hversion
  refine ⟨json, text', m.restored, hjson', htext', hreread, ?_, fun hverified => ?_, fun h => ?_⟩
  · rw [← hplain]
    exact hhash
  · rw [verifyMolecularHash_restored_iff hverified, ← hplain]
    exact hhash
  · rw [restored, map_restored_of_plain (hplain.mpr h)]

end Rehash

section Example

/-- A document of one atom with a version. -/
def versionedDocument (value : Json) : Json :=
  Json.object [(ascii "molecularHash", .str (ascii "0a")), (ascii "bundle", .str (ascii "0c")),
    (ascii "createdAt", .str (ascii "7")),
    (ascii "atoms", .arr [Json.object [(ascii "position", .str (ascii "aa")), (ascii "walletAddress", .str (ascii "bb")),
      (ascii "isotope", .str (ascii "M")), (ascii "token", .str (ascii "USER")), (ascii "value", value),
      (ascii "createdAt", .str (ascii "7")), (ascii "version", .str (ascii "4"))]])]

theorem valid_versionedDocument (F : Json.FloatText) {value : Json} (h : value.Valid F) :
    (versionedDocument value).Valid F := by
  have hstr (s : String) (hs : Utf8.valid (ascii s) = true) : (Json.str (ascii s)).Valid F := hs
  apply Json.valid_object
  simp only [List.forall_mem_cons, List.not_mem_nil, false_implies, implies_true, and_true]
  refine ⟨⟨by decide, hstr _ (by decide)⟩, ⟨by decide, hstr _ (by decide)⟩, ⟨by decide, hstr _ (by decide)⟩, by decide, ?_⟩
  apply Json.valid_arr
  simp only [List.mem_singleton, forall_eq]
  apply Json.valid_object
  simp only [List.forall_mem_cons, List.not_mem_nil, false_implies, implies_true, and_true]
  exact ⟨⟨by decide, hstr _ (by decide)⟩, ⟨by decide, hstr _ (by decide)⟩, ⟨by decide, hstr _ (by decide)⟩,
    ⟨by decide, hstr _ (by decide)⟩, ⟨by decide, h⟩, ⟨by decide, hstr _ (by decide)⟩, by decide, hstr _ (by decide)⟩

/-- What the document is read as, with the value `""`. -/
def emptyValueMolecule : Molecule where
  molecularHash := ascii "0a"
  bundle := ascii "0c"
  atoms := [{ Atom.versionedAtom with token := ascii "USER", emptyValue := true }]
  createdAt := 7

/-- A function whose output shows the length of its input. -/
def lengthHash : Shake256 := ⟨fun str size => List.replicate size (UInt8.ofNat str.length), by simp⟩

theorem reread_hash_iff_null :
    ∃ m m' text', jsonToObject integersOnly 0 (versionedDocument .null).text = .ok m ∧
      m.toJson = .ok text' ∧ jsonToObject integersOnly 0 text' = .ok m' ∧ m' = m := by
  have hparse : jsonToObject integersOnly 0 (versionedDocument .null).text =
      .ok { emptyValueMolecule with atoms := [{ Atom.versionedAtom with token := ascii "USER" }] } := by
    decide +kernel
  obtain ⟨json, text', m', hjson, htext', hreread, _, _, hsame⟩ :=
    reread_hash_iff integersOnly (.constant 0) 0 0 _ _ hparse (by simp [Atom.versionedAtom])
  have hdocument : Json.parse integersOnly (versionedDocument .null).text =
      some (versionedDocument .null) := Json.parse_text _ _ (valid_versionedDocument _ trivial)
  obtain rfl := Option.some.inj (hdocument.symm.trans hjson)
  obtain ⟨item, hitem, hvalue, hbatchId, hmetaType, hmetaId, hmeta⟩ : ∃ item, atomElements (versionedDocument .null) = [item] ∧
      item.find? (ascii "value") = some .null ∧ item.find? (ascii "batchId") = none ∧
      item.find? (ascii "metaType") = none ∧ item.find? (ascii "metaId") = none ∧ item.find? (ascii "meta") = none :=
    ⟨_, rfl, rfl, rfl, rfl, rfl, rfl⟩
  refine ⟨_, m', text', hparse, htext', hreread, hsame ?_⟩
  rw [hitem]
  simp [Atom.Unwritten, Atom.optionalKeys, hvalue, hbatchId, hmetaType, hmetaId, hmeta]

/-- A value that is read as `""` is written as null, and the hash of the molecule changes. -/
theorem emptyValue_rehashed :
    jsonToObject integersOnly 0 (versionedDocument (.str [])).text = .ok emptyValueMolecule ∧
      ∃ m' text', emptyValueMolecule.toJson = .ok text' ∧
        jsonToObject integersOnly 0 text' = .ok m' ∧
        Atom.hashAtoms lengthHash m'.atoms ≠ Atom.hashAtoms lengthHash emptyValueMolecule.atoms := by
  have hparse : jsonToObject integersOnly 0 (versionedDocument (.str [])).text =
      .ok emptyValueMolecule := by
    decide +kernel
  have hview (a : Atom) : Atom.version4View [a] = .arr [a.view] := by
    rw [Atom.version4View, List.mergeSort_singleton]
    rfl
  obtain ⟨text', htext', hreread⟩ := jsonToObject_reread 0 hparse
  refine ⟨hparse, _, text', htext', hreread, ?_⟩
  have hhash (a : Atom) (h : a.version.isSome) {text : ByteString} (htext : dumpJson (.arr [a.view]) = .ok text) :
      Atom.hashAtoms lengthHash [a] = .ok (List.replicate 32 (UInt8.ofNat text.length)) := by
    rw [hashAtoms_view lengthHash (by simp) (by simpa using h), Atom.version4ViewJson, hview, htext]
    rfl
  have hdump (j : Json) (h : j.utf8 = true) : dumpJson j = .ok j.text := by
    rw [dumpJson, Json.dump_of_utf8 h]
  have hwritten := hhash { Atom.versionedAtom with token := ascii "USER" } rfl (hdump _ (by decide +kernel))
  have hread := hhash { Atom.versionedAtom with token := ascii "USER", emptyValue := true } rfl (hdump _ (by decide +kernel))
  intro hsame
  have hlengths := Except.ok.inj (hwritten.symm.trans (hsame.trans hread))
  revert hlengths
  decide +kernel

end Example

end Molecule

end KnishIO
