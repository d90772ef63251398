import KnishIO.Molecule.Json

open ByteString

namespace KnishIO

namespace Atom

/-- One item of a meta list as it was parsed; the value may be null. -/
abbrev ParsedMeta := ByteString × Option ByteString

section MergedMeta

/-- The items that have a value. -/
def presentMeta (items : List ParsedMeta) : List (ByteString × ByteString) :=
  items.filterMap fun m => m.2.map (m.1, ·)

/-- The items that have none, each with its place in the list. -/
def nullPlaces : Nat → List ParsedMeta → List (Nat × ByteString)
  | _, [] => []
  | place, (key, none) :: items => (place, key) :: nullPlaces (place + 1) items
  | place, (_, some _) :: items => nullPlaces (place + 1) items

def parsedItem (m : ParsedMeta) : Json := metaItem m.1 (match m.2 with | some value => .str value | none => .null)

theorem nullPlaces_append (place : Nat) (items : List ParsedMeta) (m : ParsedMeta) :
    nullPlaces place (items ++ [m]) =
      nullPlaces place items ++ if m.2.isNone then [(place + items.length, m.1)] else [] := by
  induction items generalizing place with
  | nil => rcases m with ⟨key, _ | value⟩ <;> simp [nullPlaces]
  | cons item items ih =>
    rcases item with ⟨key, _ | value⟩
    · rw [List.cons_append, nullPlaces, ih, nullPlaces, List.cons_append, List.length_cons]
      simp only [Nat.add_assoc, Nat.add_comm 1]
    · rw [List.cons_append, nullPlaces, ih, nullPlaces, List.length_cons]
      simp only [Nat.add_assoc, Nat.add_comm 1]

theorem length_split (place : Nat) (items : List ParsedMeta) :
    (presentMeta items).length + (nullPlaces place items).length = items.length := by
  induction items generalizing place with
  | nil => rfl
  | cons item items ih =>
    have hrest := ih (place + 1)
    rcases item with ⟨key, _ | value⟩ <;> simp only [presentMeta, nullPlaces, List.filterMap_cons, Option.map_none,
      Option.map_some, List.length_cons] at hrest ⊢ <;> omega

theorem le_of_mem_nullPlaces {place : Nat} {items : List ParsedMeta} {n : Nat × ByteString}
    (h : n ∈ nullPlaces place items) : place ≤ n.1 := by
  induction items generalizing place with
  | nil => cases h
  | cons item items ih =>
    rcases item with ⟨key, _ | value⟩
    · obtain rfl | h := List.mem_cons.mp h
      · exact Nat.le_refl _
      · exact Nat.le_of_succ_le (ih h)
    · exact Nat.le_of_succ_le (ih h)

/-- A null item whose place has been reached comes next. -/
theorem viewMeta_null {place : Nat} {key : ByteString} {nulls : List (Nat × ByteString)} {items : List Json}
    (hplace : place ≤ items.length) (metas : List (ByteString × ByteString)) :
    viewMeta metas ((place, key) :: nulls) items = viewMeta metas nulls (items ++ [metaItem key .null]) := by
  cases metas with
  | nil => simp [viewMeta]
  | cons m metas => simp only [viewMeta, insertNulls, if_pos hplace]

/-- An item with a value comes next where no null item is due. -/
theorem viewMeta_present {nulls : List (Nat × ByteString)} {items : List Json}
    (hnulls : ∀ n ∈ nulls, items.length < n.1) (key value : ByteString) (metas : List (ByteString × ByteString)) :
    viewMeta ((key, value) :: metas) nulls items = viewMeta metas nulls (items ++ [metaItem key (.str value)]) := by
  have hinsert : insertNulls nulls items = (nulls, items) := by
    cases nulls with
    | nil => rfl
    | cons n nulls =>
      obtain ⟨place, key⟩ := n
      exact if_neg (not_le.mpr (hnulls (place, key) List.mem_cons_self))
  simp only [viewMeta, hinsert]

/-- The two lists that a parse keeps merge back into the list that was read. -/
theorem viewMeta_split (metas : List ParsedMeta) (items : List Json) :
    viewMeta (presentMeta metas) (nullPlaces items.length metas) items = items ++ metas.map parsedItem := by
  induction metas generalizing items with
  | nil => simp [presentMeta, nullPlaces, viewMeta]
  | cons m metas ih =>
    rcases m with ⟨key, _ | value⟩
    · have hnext := ih (items ++ [metaItem key .null])
      rw [List.length_append, List.length_singleton] at hnext
      have hpresent : presentMeta ((key, none) :: metas) = presentMeta metas := rfl
      rw [hpresent, nullPlaces, viewMeta_null (Nat.le_refl _), hnext, List.append_assoc]
      rfl
    · have hnext := ih (items ++ [metaItem key (.str value)])
      rw [List.length_append, List.length_singleton] at hnext
      have hpresent : presentMeta ((key, some value) :: metas) = (key, value) :: presentMeta metas := rfl
      rw [hpresent, nullPlaces, viewMeta_present (fun n hn => le_of_mem_nullPlaces hn), hnext, List.append_assoc]
      rfl

theorem metaItem_injective {key key' : ByteString} {value value' : Json} (h : metaItem key value = metaItem key' value') :
    key = key' ∧ value = value' := by
  simpa [metaItem, entry] using h

theorem parsedItem_injective : Function.Injective parsedItem := by
  rintro ⟨key, value⟩ ⟨key', value'⟩ h
  obtain ⟨rfl, hvalue⟩ := metaItem_injective h
  cases value <;> cases value' <;> simp_all

end MergedMeta

section WellFormed

/-- What holds of every atom that was parsed or constructed: a flag stands at an empty field only, and the metas
and the null metas are the two parts of one list. -/
structure WellFormed (atom : Atom) : Prop where
  value : atom.emptyValue = true → atom.value = []
  batchId : atom.emptyBatchId = true → atom.batchId = []
  metaType : atom.emptyMetaType = true → atom.metaType = []
  metaId : atom.emptyMetaId = true → atom.metaId = []
  parsedMeta : ∃ items, atom.meta = presentMeta items ∧ atom.nullMeta = nullPlaces 0 items

theorem presentMeta_some (metas : List (ByteString × ByteString)) :
    presentMeta (metas.map fun m => (m.1, some m.2)) = metas := by
  simp [presentMeta, List.filterMap_map]

theorem nullPlaces_some (place : Nat) (metas : List (ByteString × ByteString)) :
    nullPlaces place (metas.map fun m => (m.1, some m.2)) = [] := by
  induction metas generalizing place with
  | nil => rfl
  | cons m metas ih => exact ih (place + 1)

theorem Plain.wellFormed {atom : Atom} (h : atom.Plain) : atom.WellFormed where
  value := by simp [h.value]
  batchId := by simp [h.batchId]
  metaType := by simp [h.metaType]
  metaId := by simp [h.metaId]
  parsedMeta := ⟨_, (presentMeta_some atom.meta).symm, by rw [h.nullMeta, nullPlaces_some]⟩

theorem readOptional_empty {json : Json} {key : String} {r : ByteString × Bool} (h : readOptional json key = .ok r) :
    r.2 = true → r.1 = [] := by
  unfold readOptional at h
  cases hfind : json.find? (ascii key) with
  | none =>
    rw [hfind] at h
    obtain rfl := Except.ok.inj h
    nofun
  | some value =>
    rw [hfind] at h
    dsimp only at h
    split at h
    · obtain rfl := Except.ok.inj h
      nofun
    · cases hstring : getString value with
      | error e => simp [hstring, Except.map] at h
      | ok s =>
        rw [hstring] at h
        obtain rfl := Except.ok.inj h
        simp

/-- The metas read so far are the two parts of one list. -/
def MetaState.IsSplit (s : MetaState) : Prop := ∃ items, s.metaValues = presentMeta items ∧ s.nullMeta = nullPlaces 0 items

theorem MetaState.IsSplit.push {s : MetaState} (h : s.IsSplit) (key value : ByteString) :
    MetaState.IsSplit { s with metaValues := s.metaValues ++ [(key, value)] } := by
  obtain ⟨items, hpresent, hnulls⟩ := h
  refine ⟨items ++ [(key, some value)], ?_, ?_⟩
  · simp [presentMeta, hpresent]
  · simp [nullPlaces_append, hnulls]

theorem MetaState.IsSplit.pushNull {s : MetaState} (h : s.IsSplit) (key : ByteString) :
    MetaState.IsSplit { s with nullMeta := s.nullMeta ++ [(s.metaValues.length + s.nullMeta.length, key)] } := by
  obtain ⟨items, hpresent, hnulls⟩ := h
  have hlength : s.metaValues.length + s.nullMeta.length = items.length := by rw [hpresent, hnulls, length_split]
  refine ⟨items ++ [(key, none)], ?_, ?_⟩
  · simp [presentMeta, hpresent]
  · rw [nullPlaces_append, ← hnulls, Nat.zero_add, ← hlength]
    rfl

theorem readMetaItem_isSplit {s s' : MetaState} {item : Json} (hs : s.IsSplit) (h : readMetaItem s item = .ok s') :
    s'.IsSplit := by
  unfold readMetaItem at h
  split at h
  · rename_i k v _ _
    cases hkey : getString k with
    | error e => simp [hkey] at h
    | ok key =>
      simp only [hkey] at h
      split at h
      · obtain rfl := Except.ok.inj h
        exact hs.pushNull key
      · obtain rfl := Except.ok.inj h
        exact hs.push key _
      · cases htext : dumpJson v with
        | error e => simp [htext, Except.map] at h
        | ok text =>
          rw [htext] at h
          obtain rfl := Except.ok.inj h
          exact hs.push key text
  · obtain rfl := Except.ok.inj h
    exact hs

theorem readMeta_isSplit {json : Json} {s : MetaState} (h : readMeta json = .ok s) : s.IsSplit := by
  have hfold : ∀ (items : List Json) (s s' : MetaState), s.IsSplit → items.foldlM readMetaItem s = .ok s' → s'.IsSplit := by
    intro items
    induction items with
    | nil =>
      intro s s' hs h
      obtain rfl := Except.ok.inj h
      exact hs
    | cons item items ih =>
      intro s s' hs h
      rw [List.foldlM_cons] at h
      obtain ⟨t, ht, hrest⟩ := Throws.bind_ok h
      exact ih t s' (readMetaItem_isSplit hs ht) hrest
  unfold readMeta at h
  split at h
  · obtain rfl := Except.ok.inj h
    exact ⟨[], rfl, rfl⟩
  · exact hfold _ _ _ ⟨[], rfl, rfl⟩ h

/-- What a parse read. -/
theorem ofJson_ok {now : Int64} {json : Json} {atom : Atom} (h : ofJson now json = .ok atom) :
    ∃ metas otsFragment, readString json "position" = .ok atom.position ∧
      readString json "walletAddress" = .ok atom.walletAddress ∧ readString json "isotope" = .ok atom.isotope ∧
      readString json "token" = .ok atom.token ∧ readOptional json "value" = .ok (atom.value, atom.emptyValue) ∧
      readOptional json "batchId" = .ok (atom.batchId, atom.emptyBatchId) ∧
      readOptional json "metaType" = .ok (atom.metaType, atom.emptyMetaType) ∧
      readOptional json "metaId" = .ok (atom.metaId, atom.emptyMetaId) ∧ readMeta json = .ok metas ∧
      metas.metaValues = atom.meta ∧ metas.nullMeta = atom.nullMeta ∧
      readOptional json "otsFragment" = .ok (atom.otsFragment, otsFragment) ∧
      readCreatedAt now json = .ok atom.createdAt ∧ readIndex json = atom.index ∧ readVersion json = atom.version := by
  obtain ⟨position, hposition, h⟩ := Throws.bind_ok h
  obtain ⟨walletAddress, haddress, h⟩ := Throws.bind_ok h
  obtain ⟨isotope, hisotope, h⟩ := Throws.bind_ok h
  obtain ⟨token, htoken, h⟩ := Throws.bind_ok h
  obtain ⟨value, hvalue, h⟩ := Throws.bind_ok h
  obtain ⟨batchId, hbatchId, h⟩ := Throws.bind_ok h
  obtain ⟨metaType, hmetaType, h⟩ := Throws.bind_ok h
  obtain ⟨metaId, hmetaId, h⟩ := Throws.bind_ok h
  obtain ⟨metas, hmetas, h⟩ := Throws.bind_ok h
  obtain ⟨otsFragment, hfragment, h⟩ := Throws.bind_ok h
  obtain ⟨createdAt, hcreatedAt, h⟩ := Throws.bind_ok h
  obtain rfl := Except.ok.inj h
  exact ⟨metas, otsFragment.2, hposition, haddress, hisotope, htoken, hvalue, hbatchId, hmetaType, hmetaId, hmetas, rfl,
    rfl, hfragment, hcreatedAt, rfl, rfl⟩

theorem ofJson_wellFormed {now : Int64} {json : Json} {atom : Atom} (h : ofJson now json = .ok atom) : atom.WellFormed := by
  obtain ⟨metas, _, _, _, _, _, hvalue, hbatchId, hmetaType, hmetaId, hmetas, hpresent, hnulls, _⟩ := ofJson_ok h
  obtain ⟨items, hitems⟩ := readMeta_isSplit hmetas
  exact {
    value := readOptional_empty hvalue
    batchId := readOptional_empty hbatchId
    metaType := readOptional_empty hmetaType
    metaId := readOptional_empty hmetaId
    parsedMeta := ⟨items, hpresent ▸ hitems.1, hnulls ▸ hitems.2⟩ }

/-- An atom that a parse or the constructor made. -/
def Made (F : Json.FloatText) (atom : Atom) : Prop := (∃ now text, jsonToObject F now text = .ok atom) ∨ atom.Plain

theorem Made.wellFormed {F : Json.FloatText} {atom : Atom} (h : atom.Made F) : atom.WellFormed := by
  obtain ⟨now, text, hparse⟩ | hplain := h
  · obtain ⟨json, _, hread⟩ := Throws.bind_ok hparse
    exact ofJson_wellFormed hread
  · exact hplain.wellFormed

end WellFormed

section View

theorem field_injective : Function.Injective field := by
  intro s t h
  unfold field at h
  split_ifs at h with hs ht ht
  · rw [hs, ht]
  · exact Json.str.inj h

theorem optional_injective {s t : ByteString} {f g : Bool} (hs : f = true → s = []) (ht : g = true → t = [])
    (h : optional s f = optional t g) : s = t ∧ f = g := by
  unfold optional field at h
  cases f <;> cases g <;> simp_all <;> split_ifs at h <;> simp_all

/-- The view determines all of the atom but its signature fragment. -/
theorem view_injective {a b : Atom} (ha : a.WellFormed) (hb : b.WellFormed) (h : a.view = b.view) :
    a.unsigned = b.unsigned := by
  obtain ⟨items, hmeta, hnulls⟩ := ha.parsedMeta
  obtain ⟨items', hmeta', hnulls'⟩ := hb.parsedMeta
  have hmerged : viewMeta a.meta a.nullMeta [] = items.map parsedItem := by
    rw [hmeta, hnulls]
    exact viewMeta_split items []
  have hmerged' : viewMeta b.meta b.nullMeta [] = items'.map parsedItem := by
    rw [hmeta', hnulls']
    exact viewMeta_split items' []
  simp only [view, entry, Json.arr.injEq, Json.obj.injEq, List.cons.injEq, Prod.mk.injEq, true_and, and_true,
    Json.str.injEq, Json.int.injEq, hmerged, hmerged'] at h
  obtain ⟨hbatchId, hcreatedAt, hindex, hisotope, hitems, hmetaId, hmetaType, hposition, htoken, hvalue, hversion,
    haddress⟩ := h
  obtain rfl := List.map_injective_iff.mpr parsedItem_injective hitems
  obtain ⟨hbatchId, hbatchFlag⟩ := optional_injective ha.batchId hb.batchId hbatchId
  obtain ⟨hmetaId, hmetaIdFlag⟩ := optional_injective ha.metaId hb.metaId hmetaId
  obtain ⟨hmetaType, hmetaTypeFlag⟩ := optional_injective ha.metaType hb.metaType hmetaType
  obtain ⟨hvalue, hvalueFlag⟩ := optional_injective ha.value hb.value hvalue
  have hcreatedAt := Int64.toInt_inj.mp (Decimal.ofInt_injective hcreatedAt)
  have hindex := Int32.toInt_inj.mp hindex
  have hversion : a.version = b.version := by
    cases hva : a.version <;> cases hvb : b.version <;> simp_all
  simp only [unsigned, Atom.mk.injEq]
  exact ⟨field_injective hposition, field_injective haddress, field_injective hisotope, field_injective htoken, hvalue,
    hbatchId, hmetaType, hmetaId, hmeta.trans hmeta'.symm, trivial, hcreatedAt, hindex, hversion, hnulls.trans hnulls'.symm,
    hvalueFlag, hbatchFlag, hmetaTypeFlag, hmetaIdFlag⟩

theorem exact_metaItem (key : ByteString) {value : Json} (h : value.Exact) : (metaItem key value).Exact :=
  ⟨⟨List.pairwise_singleton _ _, trivial, trivial⟩, ⟨List.pairwise_singleton _ _, h, trivial⟩, trivial⟩

theorem exact_view {atom : Atom} (h : atom.WellFormed) : atom.view.Exact := by
  have hentry (key : String) (value : Json) (hvalue : value.Exact) : (entry key value).Exact :=
    ⟨List.pairwise_singleton _ _, hvalue, trivial⟩
  have hfield (s : ByteString) : (field s).Exact := by
    unfold field
    split <;> trivial
  have hoptional (s : ByteString) (flag : Bool) : (optional s flag).Exact := by
    unfold optional
    split
    · trivial
    · exact hfield s
  have hindex : (Json.int atom.index.toInt).Exact := by
    have hlow := atom.index.le_toInt
    have hhigh := atom.index.toInt_lt
    exact ⟨by omega, by omega⟩
  have hmeta : (Json.arr (viewMeta atom.meta atom.nullMeta [])).Exact := by
    obtain ⟨items, hmeta, hnulls⟩ := h.parsedMeta
    have hmerged : viewMeta atom.meta atom.nullMeta [] = items.map parsedItem := by
      rw [hmeta, hnulls]
      exact viewMeta_split items []
    rw [hmerged]
    refine (Json.exactItems_iff _).mpr fun j hj => ?_
    obtain ⟨⟨key, value⟩, _, rfl⟩ := List.mem_map.mp hj
    cases value <;> exact exact_metaItem key trivial
  refine (Json.exactItems_iff _).mpr ?_
  simp only [List.forall_mem_cons, List.not_mem_nil, false_implies, implies_true, and_true]
  refine ⟨hentry _ _ (hoptional _ _), hentry _ _ trivial, hentry _ _ hindex, hentry _ _ (hfield _), hentry _ _ hmeta,
    hentry _ _ (hoptional _ _), hentry _ _ (hoptional _ _), hentry _ _ (hfield _), hentry _ _ (hfield _),
    hentry _ _ (hoptional _ _), hentry _ _ ?_, hentry _ _ (hfield _)⟩
  cases atom.version <;> trivial

/-- The atoms in the order of their indexes; atoms of one index keep their order. -/
def byIndex (atoms : List Atom) : List Atom := atoms.mergeSort fun a b => a.index ≤ b.index

theorem exact_version4View {atoms : List Atom} (h : ∀ a ∈ atoms, a.WellFormed) : (version4View atoms).Exact := by
  refine (Json.exactItems_iff _).mpr fun j hj => ?_
  obtain ⟨a, ha, rfl⟩ := List.mem_map.mp hj
  exact exact_view (h a ((List.mergeSort_perm _ _).mem_iff.mp ha))

theorem version4View_injective {atoms₁ atoms₂ : List Atom} (h₁ : ∀ a ∈ atoms₁, a.WellFormed)
    (h₂ : ∀ a ∈ atoms₂, a.WellFormed) (h : version4View atoms₁ = version4View atoms₂) :
    (byIndex atoms₁).map unsigned = (byIndex atoms₂).map unsigned := by
  have hviews : (byIndex atoms₁).map view = (byIndex atoms₂).map view := Json.arr.inj h
  have hmem₁ : ∀ a ∈ byIndex atoms₁, a.WellFormed := fun a ha => h₁ a ((List.mergeSort_perm _ _).mem_iff.mp ha)
  have hmem₂ : ∀ a ∈ byIndex atoms₂, a.WellFormed := fun a ha => h₂ a ((List.mergeSort_perm _ _).mem_iff.mp ha)
  generalize byIndex atoms₁ = xs at hviews hmem₁
  generalize byIndex atoms₂ = ys at hviews hmem₂
  induction xs generalizing ys with
  | nil =>
    obtain rfl := List.map_eq_nil_iff.mp hviews.symm
    rfl
  | cons x xs ih =>
    cases ys with
    | nil => cases hviews
    | cons y ys =>
      obtain ⟨hhead, htail⟩ := List.cons.inj hviews
      rw [List.map_cons, List.map_cons, view_injective (hmem₁ x (by simp)) (hmem₂ y (by simp)) hhead,
        ih (fun a ha => hmem₁ a (by simp [ha])) ys htail fun a ha => hmem₂ a (by simp [ha])]

theorem version4ViewJson_ok_inv {atoms : List Atom} {text : ByteString} (h : version4ViewJson atoms = .ok text) :
    (version4View atoms).utf8 = true ∧ text = (version4View atoms).text := dumpJson_ok h

/-- A legacy sponge starts with the number of atoms, the text of a view with a bracket. -/
theorem version4ViewJson_ne_molecularSponge {atoms legacy : List Atom} {text : ByteString}
    (h : version4ViewJson atoms = .ok text) (hlegacy : legacy ≠ []) : text ≠ molecularSponge legacy := by
  obtain ⟨a, rest, rfl⟩ := List.exists_cons_of_ne_nil hlegacy
  obtain ⟨c, ds, hdigits⟩ := List.exists_cons_of_ne_nil (Decimal.ofNat_ne_nil (a :: rest).length)
  have hdigit : Decimal.isDigit c = true := Decimal.isDigit_of_mem_ofNat (by rw [hdigits]; exact List.mem_cons_self)
  rw [(version4ViewJson_ok_inv h).2]
  intro heq
  have hhead : c = 91 := by
    rw [molecularSponge, List.flatMap_cons, sponge, hdigits] at heq
    exact (List.cons.inj heq).1.symm
  rw [hhead] at hdigit
  exact absurd hdigit (by decide)

/-- Lists of made atoms with one structured view agree, in the order of their indexes, on everything but the signature
fragments, and no legacy sponge is that view. -/
theorem version4View_binds (F : Json.FloatText) (atoms₁ atoms₂ : List Atom) (h₁ : ∀ a ∈ atoms₁, a.Made F)
    (h₂ : ∀ a ∈ atoms₂, a.Made F) (text : ByteString) (htext₁ : version4ViewJson atoms₁ = .ok text)
    (htext₂ : version4ViewJson atoms₂ = .ok text) :
    (byIndex atoms₁).map unsigned = (byIndex atoms₂).map unsigned ∧
      ∀ legacy ≠ [], text ≠ molecularSponge legacy := by
  refine ⟨?_, fun legacy hlegacy => version4ViewJson_ne_molecularSponge htext₁ hlegacy⟩
  have hwell₁ : ∀ a ∈ atoms₁, a.WellFormed := fun a ha => (h₁ a ha).wellFormed
  have hwell₂ : ∀ a ∈ atoms₂, a.WellFormed := fun a ha => (h₂ a ha).wellFormed
  obtain ⟨hutf8₁, hview₁⟩ := version4ViewJson_ok_inv htext₁
  obtain ⟨hutf8₂, hview₂⟩ := version4ViewJson_ok_inv htext₂
  apply version4View_injective hwell₁ hwell₂
  exact Json.text_injective ((exact_version4View hwell₁).valid F _ hutf8₁) ((exact_version4View hwell₂).valid F _ hutf8₂)
    (hview₁.symm.trans hview₂)

/-- A versioned atom. -/
def versionedAtom : Atom where
  position := ascii "aa"
  walletAddress := ascii "bb"
  isotope := ascii "M"
  createdAt := 7
  version := some (ascii "4")

/-- The text of an atom with an empty value, two metas and one meta that is null. -/
def taggedText : ByteString :=
  (Json.object [(ascii "position", .str (ascii "cc")), (ascii "walletAddress", .str (ascii "dd")),
    (ascii "isotope", .str (ascii "V")), (ascii "token", .str (ascii "USER")), (ascii "value", .str []),
    (ascii "metaType", .str (ascii "note")),
    (ascii "meta", .arr [Json.object [(ascii "key", .str (ascii "k")), (ascii "value", .str (ascii "v"))],
      Json.object [(ascii "key", .str (ascii "gone")), (ascii "value", .null)],
      Json.object [(ascii "key", .str (ascii "l")), (ascii "value", .str [])]]),
    (ascii "createdAt", .str (ascii "7")), (ascii "index", .int 1), (ascii "version", .str (ascii "4"))]).text

def taggedAtom : Atom where
  position := ascii "cc"
  walletAddress := ascii "dd"
  isotope := ascii "V"
  token := ascii "USER"
  emptyValue := true
  metaType := ascii "note"
  «meta» := [(ascii "k", ascii "v"), (ascii "l", [])]
  nullMeta := [(1, ascii "gone")]
  createdAt := 7
  index := 1
  version := some (ascii "4")

/-- Two lists that differ in a signature fragment have one view. -/
theorem version4View_binds_fragment :
    jsonToObject integersOnly 0 taggedText = .ok taggedAtom ∧
      (byIndex [{ versionedAtom with otsFragment := ascii "ff" }, taggedAtom]).map unsigned =
        (byIndex [versionedAtom, taggedAtom]).map unsigned ∧
      ∀ text, version4ViewJson [versionedAtom, taggedAtom] = .ok text → ∀ legacy ≠ [], text ≠ molecularSponge legacy := by
  have hparse : jsonToObject integersOnly 0 taggedText = .ok taggedAtom := by decide +kernel
  have hsorted {a : Atom} (ha : a.index = 0) : version4View [a, taggedAtom] = .arr [a.view, taggedAtom.view] := by
    have hindex : ([a, taggedAtom] : List Atom).Pairwise fun a b => decide (a.index ≤ b.index) = true := by
      simp [ha, taggedAtom]
    rw [version4View, List.mergeSort_of_pairwise hindex, List.map_cons, List.map_cons, List.map_nil]
  have hutf8 : (Json.arr [versionedAtom.view, taggedAtom.view]).utf8 = true := by decide +kernel
  have htext : version4ViewJson [versionedAtom, taggedAtom] = .ok (Json.arr [versionedAtom.view, taggedAtom.view]).text := by
    rw [version4ViewJson, hsorted rfl, dumpJson, Json.dump_of_utf8 hutf8]
  have hsigned : version4ViewJson [{ versionedAtom with otsFragment := ascii "ff" }, taggedAtom] =
      .ok (Json.arr [versionedAtom.view, taggedAtom.view]).text := by
    rw [← htext, version4ViewJson, version4ViewJson, hsorted rfl, hsorted rfl]
    rfl
  have hmade (fragment : ByteString) :
      ∀ a ∈ [{ versionedAtom with otsFragment := fragment }, taggedAtom], a.Made integersOnly := by
    simp only [List.forall_mem_cons, List.not_mem_nil, false_implies, implies_true, and_true]
    exact ⟨.inr ⟨rfl, rfl, rfl, rfl, rfl⟩, .inl ⟨0, taggedText, hparse⟩⟩
  have hbinds := version4View_binds integersOnly [{ versionedAtom with otsFragment := ascii "ff" }, taggedAtom]
    [versionedAtom, taggedAtom] (hmade (ascii "ff")) (hmade []) _ hsigned htext
  refine ⟨hparse, hbinds.1, fun text htext' => ?_⟩
  obtain rfl := Except.ok.inj (htext.symm.trans htext')
  exact hbinds.2

end View

end Atom

end KnishIO
