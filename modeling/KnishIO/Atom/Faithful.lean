import KnishIO.Molecule.Reread

open ByteString

namespace KnishIO

namespace Atom

section Wire

/-- What a client-format atom says. The four optional fields are absent, null or a string, and the items of the meta
list have a string or null. -/
structure Wire where
  position : ByteString
  walletAddress : ByteString
  isotope : ByteString
  token : ByteString
  value : Option (Option ByteString)
  batchId : Option (Option ByteString)
  metaType : Option (Option ByteString)
  metaId : Option (Option ByteString)
  metas : List ParsedMeta
  createdAt : Int
  index : Int32
  version : ByteString

/-- A string, or null. -/
def orNull : Option ByteString → Json
  | some s => .str s
  | none => .null

/-- One item of the list, with any further members. -/
def DescribesMeta (item : Json) (m : ParsedMeta) : Prop :=
  item.find? (ascii "key") = some (.str m.1) ∧ item.find? (ascii "value") = some (orNull m.2)

/-- The object has these members, in any order and with any others. -/
structure Describes (json : Json) (w : Wire) : Prop where
  position : json.find? (ascii "position") = some (.str w.position)
  walletAddress : json.find? (ascii "walletAddress") = some (.str w.walletAddress)
  isotope : json.find? (ascii "isotope") = some (.str w.isotope)
  token : json.find? (ascii "token") = some (.str w.token)
  value : json.find? (ascii "value") = w.value.map orNull
  batchId : json.find? (ascii "batchId") = w.batchId.map orNull
  metaType : json.find? (ascii "metaType") = w.metaType.map orNull
  metaId : json.find? (ascii "metaId") = w.metaId.map orNull
  metas : ∃ items, json.find? (ascii "meta") = some (.arr items) ∧ List.Forall₂ DescribesMeta items w.metas
  otsFragment : ∃ fragment : Option (Option ByteString), json.find? (ascii "otsFragment") = fragment.map orNull
  createdAt : json.find? (ascii "createdAt") = some (.str (Decimal.ofInt w.createdAt))
  index : json.find? (ascii "index") = some (.int w.index.toInt)
  version : json.find? (ascii "version") = some (.str w.version)

/-- The twelve single-key objects: null stands for what is absent or null and for an empty string where the field is not
optional. -/
def Wire.view (w : Wire) : Json :=
  .arr [
    entry "batchId" (orNull w.batchId.join),
    entry "createdAt" (.str (Decimal.ofInt w.createdAt)),
    entry "index" (.int w.index.toInt),
    entry "isotope" (if w.isotope = [] then .null else .str w.isotope),
    entry "meta" (.arr (w.metas.map fun m => .arr [entry "key" (.str m.1), entry "value" (orNull m.2)])),
    entry "metaId" (orNull w.metaId.join),
    entry "metaType" (orNull w.metaType.join),
    entry "position" (if w.position = [] then .null else .str w.position),
    entry "token" (if w.token = [] then .null else .str w.token),
    entry "value" (orNull w.value.join),
    entry "version" (.str w.version),
    entry "walletAddress" (if w.walletAddress = [] then .null else .str w.walletAddress)]

end Wire

section Reading

variable {json : Json}

/-- What an absent, null or string field is read as: the flag tells `""` from the other two. -/
theorem readOptional_orNull {key : String} {field : Option (Option ByteString)}
    (h : json.find? (ascii key) = field.map orNull) :
    readOptional json key = .ok (field.join.getD [], field.join = some []) := by
  rw [readOptional, h]
  rcases field with _ | _ | s <;> simp [orNull, Json.isNull, getString, Except.map]

/-- What was read is written. -/
theorem optional_orNull (s : Option ByteString) : optional (s.getD []) (s = some []) = orNull s := by
  rcases s with _ | s
  · simp [optional, orNull, field]
  · by_cases hs : s = [] <;> simp [optional, orNull, field, hs]

theorem readMetaItem_describes {item : Json} {m : ParsedMeta} (h : DescribesMeta item m) (items : List ParsedMeta) :
    readMetaItem ⟨presentMeta items, nullPlaces 0 items⟩ item =
      .ok ⟨presentMeta (items ++ [m]), nullPlaces 0 (items ++ [m])⟩ := by
  obtain ⟨hkey, hvalue⟩ := h
  rcases m with ⟨key, _ | value⟩
  · simp [readMetaItem, hkey, hvalue, orNull, getString, presentMeta, nullPlaces_append, ← length_split 0 items]
  · simp [readMetaItem, hkey, hvalue, orNull, getString, presentMeta, nullPlaces_append]

/-- The metas are read as the two parts of their list. -/
theorem readMeta_describes {items : List Json} {metas : List ParsedMeta} (hfind : json.find? (ascii "meta") = some (.arr items))
    (h : List.Forall₂ DescribesMeta items metas) : readMeta json = .ok ⟨presentMeta metas, nullPlaces 0 metas⟩ := by
  have hfold : ∀ front, items.foldlM readMetaItem ⟨presentMeta front, nullPlaces 0 front⟩ =
      .ok ⟨presentMeta (front ++ metas), nullPlaces 0 (front ++ metas)⟩ := by
    clear hfind
    induction h with
    | nil => exact fun front => by simp [pure, Except.pure]
    | cons hhead _ ih =>
      intro front
      rw [List.foldlM_cons, Throws.bind_of_ok (readMetaItem_describes hhead front), ih]
      simp
  rw [readMeta, hfind]
  exact hfold []

/-- The atom that a described object is read as. -/
def Wire.atom (w : Wire) (otsFragment : ByteString) : Atom where
  position := w.position
  walletAddress := w.walletAddress
  isotope := w.isotope
  token := w.token
  value := w.value.join.getD []
  batchId := w.batchId.join.getD []
  metaType := w.metaType.join.getD []
  metaId := w.metaId.join.getD []
  «meta» := presentMeta w.metas
  otsFragment := otsFragment
  createdAt := Int64.ofInt w.createdAt
  index := w.index
  version := some w.version
  nullMeta := nullPlaces 0 w.metas
  emptyValue := w.value.join = some []
  emptyBatchId := w.batchId.join = some []
  emptyMetaType := w.metaType.join = some []
  emptyMetaId := w.metaId.join = some []

/-- The time fits the 64 bits that it is kept in. -/
def Wire.Timed (w : Wire) : Prop := -2 ^ 63 ≤ w.createdAt ∧ w.createdAt < 2 ^ 63

theorem Wire.Timed.toInt {w : Wire} (h : w.Timed) : (Int64.ofInt w.createdAt).toInt = w.createdAt :=
  Int64.toInt_ofInt_of_le h.1 h.2

theorem ofJson_describes {w : Wire} (h : Describes json w) (htimed : w.Timed) (now : Int64) :
    ∃ otsFragment, ofJson now json = .ok (w.atom otsFragment) := by
  obtain ⟨items, hitems, hmetas⟩ := h.metas
  obtain ⟨fragment, hfragment⟩ := h.otsFragment
  have hread : readCreatedAt now json = .ok (Int64.ofInt w.createdAt) := by
    have hstrtoll := CInteger.strtoll_ofInt (Int64.ofInt w.createdAt)
    rw [htimed.toInt] at hstrtoll
    simp [readCreatedAt, h.createdAt, getString, Except.map, hstrtoll]
  have hindex : readIndex json = w.index := by simp [readIndex, h.index]
  have hversion : readVersion json = some w.version := by simp [readVersion, h.version]
  refine ⟨fragment.join.getD [], ?_⟩
  simp only [ofJson, readString_str h.position, readString_str h.walletAddress, readString_str h.isotope,
    readString_str h.token, readOptional_orNull h.value, readOptional_orNull h.batchId, readOptional_orNull h.metaType,
    readOptional_orNull h.metaId, readMeta_describes hitems hmetas, readOptional_orNull hfragment, hread, hindex, hversion,
    bind, Except.bind, pure, Except.pure]
  rfl

/-- Its view holds what the object said. -/
theorem view_atom {w : Wire} (htimed : w.Timed) (otsFragment : ByteString) : (w.atom otsFragment).view = w.view := by
  have hitem : parsedItem = fun m => Json.arr [entry "key" (.str m.1), entry "value" (orNull m.2)] := by
    funext m
    rcases m with ⟨key, _ | value⟩ <;> rfl
  have hmerged : viewMeta (presentMeta w.metas) (nullPlaces 0 w.metas) [] = w.metas.map parsedItem := viewMeta_split w.metas []
  simp only [view, Wire.atom, Wire.view, optional_orNull, htimed.toInt, hmerged, hitem]
  rfl

end Reading

section Lists

variable {F : Json.FloatText}

/-- Sorting by the index commutes with viewing. -/
theorem version4View_atoms {ws : List (Wire × ByteString)} (htimed : ∀ w ∈ ws, w.1.Timed) :
    version4View (ws.map fun w => w.1.atom w.2) =
      .arr (((ws.map Prod.fst).mergeSort fun a b => a.index ≤ b.index).map Wire.view) := by
  rw [version4View, ← List.map_mergeSort (r := fun a b : Wire × ByteString => decide (a.1.index ≤ b.1.index))
    (f := fun w => w.1.atom w.2) (fun _ _ _ _ => rfl),
    ← List.map_mergeSort (r := fun a b : Wire × ByteString => decide (a.1.index ≤ b.1.index)) (f := Prod.fst)
    (fun _ _ _ _ => rfl), List.map_map, List.map_map]
  congr 1
  exact List.map_congr_left fun w hw => view_atom (htimed w ((List.mergeSort_perm _ _).mem_iff.mp hw)) w.2

/-- The text of an object says what the atom says. -/
def Reads (F : Json.FloatText) (text : ByteString) (w : Wire) : Prop :=
  ∃ json, Json.parse F text = some json ∧ Describes json w

theorem jsonToObject_reads {text : ByteString} {w : Wire} (h : Reads F text w) (htimed : w.Timed) (now : Int64) :
    ∃ otsFragment, jsonToObject F now text = .ok (w.atom otsFragment) ∧ (w.atom otsFragment).ValidUtf8 := by
  obtain ⟨json, hparse, hdescribes⟩ := h
  obtain ⟨otsFragment, hatom⟩ := ofJson_describes hdescribes htimed now
  have hjson : parseJson F text = .ok json := by rw [parseJson, hparse]
  refine ⟨otsFragment, ?_, (ofJson_wireUtf8 (Json.parse_valid hparse) hatom).toValidUtf8⟩
  rw [jsonToObject, Throws.bind_of_ok hjson, hatom]

theorem mapM_reads {texts : List ByteString} {ws : List Wire} (h : List.Forall₂ (Reads F) texts ws)
    (htimed : ∀ w ∈ ws, w.Timed) (now : Int64) :
    ∃ parts : List (Wire × ByteString), parts.map Prod.fst = ws ∧
      texts.mapM (jsonToObject F now) = .ok (parts.map fun w => w.1.atom w.2) ∧
      ∀ a ∈ parts.map fun w => w.1.atom w.2, a.ValidUtf8 := by
  induction h with
  | nil => exact ⟨[], rfl, rfl, fun _ h => nomatch h⟩
  | @cons text w texts ws hhead _ ih =>
    obtain ⟨parts, hws, hatoms, hutf8⟩ := ih fun v hv => htimed v (List.mem_cons_of_mem _ hv)
    obtain ⟨otsFragment, hatom, hvalid⟩ := jsonToObject_reads hhead (htimed w List.mem_cons_self) now
    refine ⟨(w, otsFragment) :: parts, by rw [List.map_cons, hws], ?_, List.forall_mem_cons.mpr ⟨hvalid, hutf8⟩⟩
    rw [List.mapM_cons, hatom, hatoms]
    rfl

/-- The structured view of parsed atoms is the text of what their JSON said, in the order of the indexes. -/
theorem version4ViewJson_faithful (F : Json.FloatText) (now : Int64) {texts : List ByteString} {ws : List Wire}
    (hreads : List.Forall₂ (Reads F) texts ws) (htimed : ∀ w ∈ ws, w.Timed) :
    ∃ atoms, texts.mapM (jsonToObject F now) = .ok atoms ∧ version4ViewJson atoms =
      .ok (Json.arr ((ws.mergeSort fun a b => a.index ≤ b.index).map Wire.view)).text := by
  obtain ⟨parts, rfl, hatoms, hutf8⟩ := mapM_reads hreads htimed now
  obtain ⟨text, htext⟩ := version4ViewJson_ok hutf8
  refine ⟨_, hatoms, ?_⟩
  rw [htext, (version4ViewJson_ok_inv htext).2, version4View_atoms fun w hw => htimed _ (List.mem_map_of_mem hw)]

end Lists

section Example

/-- An atom with null items at both ends of its meta list. -/
def nullsWire (createdAt : Int) : Wire where
  position := []
  walletAddress := ascii "0b"
  isotope := ascii "M"
  token := ascii "USER"
  value := some (some [])
  batchId := none
  metaType := some none
  metaId := some (some (ascii "m"))
  metas := [(ascii "a", none), (ascii "c", some (ascii "1")), (ascii "d", none)]
  createdAt := createdAt
  index := 3
  version := ascii "4"

def nullsDocument (createdAt : Int) : Json :=
  Json.object [(ascii "position", .str []), (ascii "walletAddress", .str (ascii "0b")), (ascii "isotope", .str (ascii "M")),
    (ascii "token", .str (ascii "USER")), (ascii "value", .str []), (ascii "metaType", .null),
    (ascii "metaId", .str (ascii "m")),
    (ascii "meta", .arr [Json.object [(ascii "key", .str (ascii "a")), (ascii "value", .null)],
      Json.object [(ascii "key", .str (ascii "c")), (ascii "value", .str (ascii "1"))],
      Json.object [(ascii "key", .str (ascii "d")), (ascii "value", .null)]]),
    (ascii "createdAt", .str (Decimal.ofInt createdAt)), (ascii "index", .int 3), (ascii "version", .str (ascii "4"))]

theorem describes_nullsDocument (createdAt : Int) : Describes (nullsDocument createdAt) (nullsWire createdAt) where
  position := rfl
  walletAddress := rfl
  isotope := rfl
  token := rfl
  value := rfl
  batchId := rfl
  metaType := rfl
  metaId := rfl
  metas := ⟨_, rfl, .cons ⟨rfl, rfl⟩ (.cons ⟨rfl, rfl⟩ (.cons ⟨rfl, rfl⟩ .nil))⟩
  otsFragment := ⟨none, rfl⟩
  createdAt := rfl
  index := rfl
  version := rfl

theorem valid_nullsDocument (F : Json.FloatText) (createdAt : Int) : (nullsDocument createdAt).Valid F := by
  have hstr (s : String) (hs : Utf8.valid (ascii s) = true) : (Json.str (ascii s)).Valid F := hs
  have hempty : (Json.str []).Valid F := rfl
  have hindex : (Json.int 3).Valid F := by constructor <;> decide
  have hitem (key : String) (value : Json) (hkey : Utf8.valid (ascii key) = true) (hvalue : value.Valid F) :
      (Json.object [(ascii "key", .str (ascii key)), (ascii "value", value)]).Valid F := by
    apply Json.valid_object
    simp only [List.forall_mem_cons, List.not_mem_nil, false_implies, implies_true, and_true]
    exact ⟨⟨by decide, hkey⟩, by decide, hvalue⟩
  apply Json.valid_object
  simp only [List.forall_mem_cons, List.not_mem_nil, false_implies, implies_true, and_true]
  refine ⟨⟨by decide, hempty⟩, ⟨by decide, hstr _ (by decide)⟩, ⟨by decide, hstr _ (by decide)⟩, ⟨by decide, hstr _ (by decide)⟩,
    ⟨by decide, hempty⟩, ⟨by decide, trivial⟩, ⟨by decide, hstr _ (by decide)⟩, ⟨by decide, ?_⟩, ⟨by decide, utf8_ofInt _⟩,
    ⟨by decide, hindex⟩, by decide, hstr _ (by decide)⟩
  apply Json.valid_arr
  simp only [List.forall_mem_cons, List.not_mem_nil, false_implies, implies_true, and_true]
  exact ⟨hitem _ _ (by decide) trivial, hitem _ _ (by decide) (hstr _ (by decide)), hitem _ _ (by decide) trivial⟩

theorem reads_nullsDocument (createdAt : Int) :
    Reads integersOnly (nullsDocument createdAt).text (nullsWire createdAt) :=
  ⟨nullsDocument createdAt, Json.parse_text _ _ (valid_nullsDocument _ createdAt), describes_nullsDocument createdAt⟩

theorem version4ViewJson_faithful_nulls :
    ∃ atoms, [(nullsDocument 7).text].mapM (jsonToObject integersOnly 0) = .ok atoms ∧ version4ViewJson atoms =
      .ok (Json.arr (([nullsWire 7].mergeSort fun a b => a.index ≤ b.index).map Wire.view)).text :=
  version4ViewJson_faithful integersOnly 0 (.cons (reads_nullsDocument 7) .nil) fun w hw => by
    rw [List.mem_singleton.mp hw]
    constructor <;> decide

/-- A time beyond 64 bits is not kept. -/
theorem version4ViewJson_clamped :
    ¬∀ (texts : List ByteString) (ws : List Wire), List.Forall₂ (Reads integersOnly) texts ws →
      ∃ atoms, texts.mapM (jsonToObject integersOnly 0) = .ok atoms ∧ version4ViewJson atoms =
        .ok (Json.arr ((ws.mergeSort fun a b => a.index ≤ b.index).map Wire.view)).text := by
  intro hclaim
  obtain ⟨atoms, hatoms, hview⟩ := hclaim _ _ (.cons (reads_nullsDocument (2 ^ 63)) .nil)
  have hread : jsonToObject integersOnly 0 (nullsDocument (2 ^ 63)).text = .ok ((nullsWire (2 ^ 63 - 1)).atom []) := by
    decide +kernel
  rw [List.mapM_cons, hread] at hatoms
  obtain rfl : [(nullsWire (2 ^ 63 - 1)).atom []] = atoms := Except.ok.inj hatoms
  have htext := (version4ViewJson_ok_inv hview).2
  rw [version4View, List.mergeSort_singleton, List.mergeSort_singleton] at htext
  revert htext
  decide +kernel

end Example

end Atom

end KnishIO
