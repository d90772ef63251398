import KnishIO.Molecule.Build
import KnishIO.Molecule.SignVerify

open ByteString

namespace KnishIO

namespace Atom

/-- One pair of the meta list on the wire. -/
def metaObject (m : ByteString × ByteString) : Json :=
  Json.object [(ascii "key", .str m.1), (ascii "value", .str m.2)]

/-- The members of an atom on the wire, as `Molecule::toJson` assigns them. -/
def wireMembers (atom : Atom) : List (ByteString × Json) :=
  [(ascii "position", .str atom.position), (ascii "walletAddress", .str atom.walletAddress),
    (ascii "isotope", .str atom.isotope), (ascii "token", .str atom.token), (ascii "value", field atom.value),
    (ascii "batchId", field atom.batchId), (ascii "metaType", field atom.metaType), (ascii "metaId", field atom.metaId),
    (ascii "meta", .arr (atom.meta.map metaObject)), (ascii "otsFragment", .str atom.otsFragment),
    (ascii "createdAt", .str (Decimal.ofInt atom.createdAt.toInt)), (ascii "index", .int atom.index.toInt)] ++
  (match atom.version with | some version => [(ascii "version", .str version)] | none => [])

def toJson (atom : Atom) : Json := Json.object atom.wireMembers

end Atom

namespace Molecule

section Writer

/-- The wallet data of a molecule with a balance. -/
def walletObject (wallet : Wallet) (balance : Int) : Json :=
  Json.object [(ascii "address", .str wallet.address), (ascii "position", .str wallet.position),
    (ascii "token", .str wallet.token), (ascii "balance", .int balance)]

def sourceBalance (wallet : Wallet) : Throws Int := if wallet.balance = [] then .ok 0 else stoi wallet.balance

def sourceMember (m : Molecule) : Throws (List (ByteString × Json)) :=
  match m.sourceWallet with
  | none => .ok []
  | some wallet => (sourceBalance wallet).map fun balance => [(ascii "sourceWallet", walletObject wallet balance)]

def remainderMember (m : Molecule) : List (ByteString × Json) :=
  match m.remainderWallet with
  | none => []
  | some wallet => [(ascii "remainderWallet", walletObject wallet 0)]

def wireMembers (m : Molecule) : List (ByteString × Json) :=
  [(ascii "molecularHash", .str m.molecularHash), (ascii "cellSlug", Atom.field m.cellSlug),
    (ascii "bundle", .str m.bundle), (ascii "status", Atom.field m.status),
    (ascii "createdAt", .str (Decimal.ofInt m.createdAt.toInt)), (ascii "atoms", .arr (m.atoms.map Atom.toJson))]

def toJson (m : Molecule) : Throws ByteString := do
  let sourceWallet ← m.sourceMember
  dumpJson (Json.object (m.wireMembers ++ sourceWallet ++ m.remainderMember))

end Writer

section Parser

/-- One atom of a parsed molecule; `now` is the time of the constructor calls. -/
def readAtom (F : Json.FloatText) (now : Int64) (jsonAtom : Json) : Throws Atom := do
  let text ← dumpJson jsonAtom
  let atom ← Atom.jsonToObject F now text
  if atom.position = [] ∨ atom.walletAddress = [] ∨ atom.isotope = [] then
    .error (.atomsNotFoundWith "The required properties of the atom are not filled.")
  else return atom

def readAtoms (F : Json.FloatText) (now : Int64) (json : Json) : Throws (List Atom) :=
  match json.find? (ascii "atoms") with
  | none => .ok []
  | some value => value.elements.mapM (readAtom F now)

/-- The time as a string of digits; without the field the constructor's time stays. -/
def readCreatedAt (now : Int64) (json : Json) : Throws Int64 :=
  match json.find? (ascii "createdAt") with
  | none => .ok now
  | some value => (getString value).map CInteger.strtoll

def jsonToObject (F : Json.FloatText) (now : Int64) (jsonStr : ByteString) : Throws Molecule := do
  let json ← parseJson F jsonStr
  let molecularHash ← Atom.readString json "molecularHash"
  let cellSlug ← Atom.readOptional json "cellSlug"
  let bundle ← Atom.readString json "bundle"
  let status ← Atom.readOptional json "status"
  let atoms ← readAtoms F now json
  let createdAt ← readCreatedAt now json
  return { molecularHash, cellSlug := cellSlug.1, bundle, status := status.1, atoms, createdAt }

end Parser

end Molecule

section RoundTrip

namespace Atom

/-- No field is a parsed `""` and no meta has a parsed null value, as in every atom of the constructor. -/
structure Plain (atom : Atom) : Prop where
  nullMeta : atom.nullMeta = []
  value : atom.emptyValue = false
  batchId : atom.emptyBatchId = false
  metaType : atom.emptyMetaType = false
  metaId : atom.emptyMetaId = false

theorem keys_wireMembers_nodup (atom : Atom) : (atom.wireMembers.map Prod.fst).Nodup := by
  have hkeys : atom.wireMembers.map Prod.fst = ["position", "walletAddress", "isotope", "token", "value", "batchId",
      "metaType", "metaId", "meta", "otsFragment", "createdAt", "index"].map ascii ++
        (if atom.version.isSome then [ascii "version"] else []) := by
    unfold wireMembers
    cases atom.version <;> rfl
  rw [hkeys]
  split <;> decide

theorem find?_toJson {atom : Atom} {key : ByteString} {value : Json} (hmem : (key, value) ∈ atom.wireMembers) :
    atom.toJson.find? key = some value := Json.find?_object_of_mem atom.keys_wireMembers_nodup hmem

theorem readString_str {json : Json} {key : String} {s : ByteString} (h : json.find? (ascii key) = some (.str s)) :
    readString json key = .ok s := by
  simp [readString, h, getString]

theorem readOptional_field {json : Json} {key : String} {s : ByteString} (h : json.find? (ascii key) = some (field s)) :
    readOptional json key = .ok (s, false) := by
  unfold field at h
  split_ifs at h with hempty
  · simp [readOptional, h, Json.isNull, hempty]
  · simp [readOptional, h, Json.isNull, getString, Except.map, hempty]

theorem readMetaItem_metaObject (s : MetaState) (m : ByteString × ByteString) :
    readMetaItem s (metaObject m) = .ok { s with metaValues := s.metaValues ++ [m] } := by
  have hkey : (metaObject m).find? (ascii "key") = some (.str m.1) :=
    Json.find?_object_of_mem (show [ascii "key", ascii "value"].Nodup by decide) (by simp)
  have hvalue : (metaObject m).find? (ascii "value") = some (.str m.2) :=
    Json.find?_object_of_mem (show [ascii "key", ascii "value"].Nodup by decide) (by simp)
  simp only [readMetaItem, hkey, hvalue, getString, Json.string?_str]

theorem readMeta_toJson (atom : Atom) : readMeta atom.toJson = .ok ⟨atom.meta, []⟩ := by
  have hfold : ∀ (metas : List (ByteString × ByteString)) (s : MetaState),
      (metas.map metaObject).foldlM readMetaItem s = .ok { s with metaValues := s.metaValues ++ metas } := by
    intro metas
    induction metas with
    | nil => exact fun s => by simp [pure, Except.pure]
    | cons m metas ih =>
      intro s
      rw [List.map_cons, List.foldlM_cons, readMetaItem_metaObject]
      exact (ih _).trans (by simp)
  have hmeta : atom.toJson.find? (ascii "meta") = some (.arr (atom.meta.map metaObject)) :=
    find?_toJson (by simp [wireMembers])
  rw [readMeta, hmeta]
  exact hfold atom.meta ⟨[], []⟩

theorem readVersion_toJson (atom : Atom) : readVersion atom.toJson = atom.version := by
  cases hversion : atom.version with
  | none =>
    have hfind : atom.toJson.find? (ascii "version") = none := by
      apply Json.find?_object_of_forall_ne
      simp only [wireMembers, hversion, List.append_nil, List.forall_mem_cons, List.not_mem_nil, false_implies,
        implies_true, and_true]
      decide
    rw [readVersion, hfind]
  | some version =>
    have hfind : atom.toJson.find? (ascii "version") = some (.str version) :=
      find?_toJson (by simp [wireMembers, hversion])
    rw [readVersion, hfind]

/-- Reading the fields of a plain atom gives the atom back. -/
theorem ofJson_toJson {atom : Atom} (hplain : atom.Plain) (now : Int64) : ofJson now atom.toJson = .ok atom := by
  have hposition : readString atom.toJson "position" = .ok atom.position :=
    readString_str (find?_toJson (by simp [wireMembers]))
  have haddress : readString atom.toJson "walletAddress" = .ok atom.walletAddress :=
    readString_str (find?_toJson (by simp [wireMembers]))
  have hisotope : readString atom.toJson "isotope" = .ok atom.isotope :=
    readString_str (find?_toJson (by simp [wireMembers]))
  have htoken : readString atom.toJson "token" = .ok atom.token :=
    readString_str (find?_toJson (by simp [wireMembers]))
  have hvalue : readOptional atom.toJson "value" = .ok (atom.value, false) :=
    readOptional_field (find?_toJson (by simp [wireMembers]))
  have hbatchId : readOptional atom.toJson "batchId" = .ok (atom.batchId, false) :=
    readOptional_field (find?_toJson (by simp [wireMembers]))
  have hmetaType : readOptional atom.toJson "metaType" = .ok (atom.metaType, false) :=
    readOptional_field (find?_toJson (by simp [wireMembers]))
  have hmetaId : readOptional atom.toJson "metaId" = .ok (atom.metaId, false) :=
    readOptional_field (find?_toJson (by simp [wireMembers]))
  have hfragment : readOptional atom.toJson "otsFragment" = .ok (atom.otsFragment, atom.otsFragment = []) := by
    have hfind : atom.toJson.find? (ascii "otsFragment") = some (.str atom.otsFragment) :=
      find?_toJson (by simp [wireMembers])
    simp [readOptional, hfind, Json.isNull, getString, Except.map]
  have hcreatedAt : readCreatedAt now atom.toJson = .ok atom.createdAt := by
    have hfind : atom.toJson.find? (ascii "createdAt") = some (.str (Decimal.ofInt atom.createdAt.toInt)) :=
      find?_toJson (by simp [wireMembers])
    simp [readCreatedAt, hfind, getString, Except.map, CInteger.strtoll_ofInt]
  have hindex : readIndex atom.toJson = atom.index := by
    have hfind : atom.toJson.find? (ascii "index") = some (.int atom.index.toInt) :=
      find?_toJson (by simp [wireMembers])
    simp [readIndex, hfind]
  obtain ⟨hnull, hnoValue, hnoBatchId, hnoMetaType, hnoMetaId⟩ := hplain
  simp only [ofJson, hposition, haddress, hisotope, htoken, hvalue, hbatchId, hmetaType, hmetaId, readMeta_toJson,
    hfragment, hcreatedAt, hindex, readVersion_toJson, bind, Except.bind, pure, Except.pure]
  rw [← hnull, ← hnoValue]
  cases atom
  simp_all

/-- The strings that go on the wire are UTF-8. -/
structure WireUtf8 (atom : Atom) : Prop extends atom.ValidUtf8 where
  otsFragment : Utf8.valid atom.otsFragment = true

theorem valid_field {F : Json.FloatText} {s : ByteString} (h : Utf8.valid s = true) : (field s).Valid F := by
  unfold field
  split
  · trivial
  · exact h

theorem valid_toJson (F : Json.FloatText) {atom : Atom} (h : atom.WireUtf8) : atom.toJson.Valid F := by
  have hmeta : (Json.arr (atom.meta.map metaObject)).Valid F := by
    apply Json.valid_arr
    intro j hj
    obtain ⟨m, hm, rfl⟩ := List.mem_map.mp hj
    obtain ⟨hkey, hvalue⟩ := h.metas m hm
    apply Json.valid_object
    simp only [List.forall_mem_cons, List.not_mem_nil, false_implies, implies_true, and_true]
    exact ⟨⟨by decide, hkey⟩, by decide, hvalue⟩
  have hindex : (Json.int atom.index.toInt).Valid F := by
    have hlow := atom.index.le_toInt
    have hhigh := atom.index.toInt_lt
    exact ⟨by omega, by omega⟩
  apply Json.valid_object
  rw [wireMembers, List.forall_mem_append]
  constructor
  · simp only [List.forall_mem_cons, List.not_mem_nil, false_implies, implies_true, and_true]
    exact ⟨⟨by decide, h.position⟩, ⟨by decide, h.walletAddress⟩, ⟨by decide, h.isotope⟩, ⟨by decide, h.token⟩,
      ⟨by decide, valid_field h.value⟩, ⟨by decide, valid_field h.batchId⟩, ⟨by decide, valid_field h.metaType⟩,
      ⟨by decide, valid_field h.metaId⟩, ⟨by decide, hmeta⟩, ⟨by decide, h.otsFragment⟩,
      ⟨by decide, utf8_ofInt _⟩, by decide, hindex⟩
  · cases hversion : atom.version with
    | none => simp
    | some version => simpa using ⟨by decide, h.version version hversion⟩

end Atom

namespace Molecule

/-- The strings that go on the wire are UTF-8. -/
structure WireUtf8 (m : Molecule) : Prop where
  molecularHash : Utf8.valid m.molecularHash = true
  cellSlug : Utf8.valid m.cellSlug = true
  bundle : Utf8.valid m.bundle = true
  status : Utf8.valid m.status = true
  atoms : ∀ a ∈ m.atoms, a.WireUtf8
  wallets : ∀ w, m.sourceWallet = some w ∨ m.remainderWallet = some w →
    Utf8.valid w.address = true ∧ Utf8.valid w.position = true ∧ Utf8.valid w.token = true

/-- `toJson` can write the balance of the source wallet. -/
def ReadableBalance (m : Molecule) : Prop :=
  ∀ w, m.sourceWallet = some w → w.balance = [] ∨ ∃ balance, stoi w.balance = .ok balance

/-- The atom carries what `jsonToObject` asks of it. -/
def filled (atom : Atom) : Bool := atom.position ≠ [] && atom.walletAddress ≠ [] && atom.isotope ≠ []

theorem stoi_range {s : ByteString} {i : Int} (h : stoi s = .ok i) : -2 ^ 31 ≤ i ∧ i < 2 ^ 31 := by
  unfold stoi CInteger.stoi CInteger.toSigned at h
  cases hscan : CInteger.scan s with
  | none => simp [hscan, conversion] at h
  | some r =>
    simp only [hscan] at h
    split_ifs at h with hrange
    · simp only [conversion, Except.ok.injEq] at h
      exact h ▸ hrange
    · simp [conversion] at h

theorem sourceBalance_ok {m : Molecule} (h : m.ReadableBalance) {w : Wallet} (hw : m.sourceWallet = some w) :
    ∃ balance, sourceBalance w = .ok balance ∧ -2 ^ 31 ≤ balance ∧ balance < 2 ^ 31 := by
  unfold sourceBalance
  split
  · exact ⟨0, rfl, by norm_num, by norm_num⟩
  next hbalance =>
    obtain hempty | ⟨balance, hread⟩ := h w hw
    · exact absurd hempty hbalance
    · exact ⟨balance, hread, stoi_range hread⟩

theorem valid_walletObject (F : Json.FloatText) {w : Wallet} {balance : Int} (haddress : Utf8.valid w.address = true)
    (hposition : Utf8.valid w.position = true) (htoken : Utf8.valid w.token = true)
    (hbalance : -2 ^ 31 ≤ balance ∧ balance < 2 ^ 31) : (walletObject w balance).Valid F := by
  have hrange : (Json.int balance).Valid F := by
    constructor <;> omega
  apply Json.valid_object
  simp only [List.forall_mem_cons, List.not_mem_nil, false_implies, implies_true, and_true]
  exact ⟨⟨by decide, haddress⟩, ⟨by decide, hposition⟩, ⟨by decide, htoken⟩, by decide, hrange⟩

theorem sourceMember_ok (F : Json.FloatText) {m : Molecule} (h : m.ReadableBalance) (hutf8 : m.WireUtf8) :
    ∃ members, m.sourceMember = .ok members ∧
      (members.map Prod.fst = [] ∨ members.map Prod.fst = [ascii "sourceWallet"]) ∧
      ∀ j ∈ members, Utf8.valid j.1 = true ∧ j.2.Valid F := by
  unfold sourceMember
  cases hw : m.sourceWallet with
  | none => exact ⟨[], rfl, .inl rfl, by simp⟩
  | some w =>
    obtain ⟨balance, hbalance, hrange⟩ := sourceBalance_ok h hw
    obtain ⟨haddress, hposition, htoken⟩ := hutf8.wallets w (.inl hw)
    refine ⟨[(ascii "sourceWallet", walletObject w balance)], by simp [hbalance, Except.map], .inr rfl, ?_⟩
    simp only [List.forall_mem_cons, List.not_mem_nil, false_implies, implies_true, and_true]
    exact ⟨by decide, valid_walletObject F haddress hposition htoken hrange⟩

theorem remainderMember_valid (F : Json.FloatText) {m : Molecule} (hutf8 : m.WireUtf8) :
    (m.remainderMember.map Prod.fst = [] ∨ m.remainderMember.map Prod.fst = [ascii "remainderWallet"]) ∧
      ∀ j ∈ m.remainderMember, Utf8.valid j.1 = true ∧ j.2.Valid F := by
  unfold remainderMember
  cases hw : m.remainderWallet with
  | none => exact ⟨.inl rfl, by simp⟩
  | some w =>
    obtain ⟨haddress, hposition, htoken⟩ := hutf8.wallets w (.inr hw)
    refine ⟨.inr rfl, ?_⟩
    simp only [List.forall_mem_cons, List.not_mem_nil, false_implies, implies_true, and_true]
    exact ⟨by decide, valid_walletObject F haddress hposition htoken (by norm_num)⟩

theorem wireMembers_valid (F : Json.FloatText) {m : Molecule} (hutf8 : m.WireUtf8) :
    ∀ j ∈ m.wireMembers, Utf8.valid j.1 = true ∧ j.2.Valid F := by
  have hatoms : (Json.arr (m.atoms.map Atom.toJson)).Valid F := by
    apply Json.valid_arr
    intro j hj
    obtain ⟨a, ha, rfl⟩ := List.mem_map.mp hj
    exact Atom.valid_toJson F (hutf8.atoms a ha)
  simp only [wireMembers, List.forall_mem_cons, List.not_mem_nil, false_implies, implies_true, and_true]
  exact ⟨⟨by decide, hutf8.molecularHash⟩, ⟨by decide, Atom.valid_field hutf8.cellSlug⟩, ⟨by decide, hutf8.bundle⟩,
    ⟨by decide, Atom.valid_field hutf8.status⟩, ⟨by decide, Atom.utf8_ofInt _⟩, by decide, hatoms⟩

/-- The text of a molecule is that of an object with the members of the molecule. -/
theorem toJson_ok (F : Json.FloatText) {m : Molecule} (hbalance : m.ReadableBalance) (hutf8 : m.WireUtf8) :
    ∃ json : Json, m.toJson = .ok json.text ∧ json.Valid F ∧
      ∀ key value, (key, value) ∈ m.wireMembers → json.find? key = some value := by
  obtain ⟨source, hsource, hsourceKeys, hsourceValid⟩ := sourceMember_ok F hbalance hutf8
  obtain ⟨hremainderKeys, hremainderValid⟩ := remainderMember_valid F hutf8
  have hvalid : (Json.object (m.wireMembers ++ source ++ m.remainderMember)).Valid F := by
    apply Json.valid_object
    rw [List.forall_mem_append, List.forall_mem_append]
    exact ⟨⟨wireMembers_valid F hutf8, hsourceValid⟩, hremainderValid⟩
  have hnodup : ((m.wireMembers ++ source ++ m.remainderMember).map Prod.fst).Nodup := by
    have hkeys : m.wireMembers.map Prod.fst =
        ["molecularHash", "cellSlug", "bundle", "status", "createdAt", "atoms"].map ascii := rfl
    rw [List.map_append, List.map_append, hkeys]
    obtain hs | hs := hsourceKeys <;> obtain hr | hr := hremainderKeys <;> rw [hs, hr] <;> decide
  refine ⟨_, ?_, hvalid, fun key value hmem => Json.find?_object_of_mem hnodup ?_⟩
  · simp only [toJson, hsource, bind, Except.bind, dumpJson, Json.dump_valid F _ hvalid]
  · exact List.mem_append_left _ (List.mem_append_left _ hmem)

theorem readAtom_toJson (F : Json.FloatText) (now : Int64) {atom : Atom} (hplain : atom.Plain) (hutf8 : atom.WireUtf8) :
    readAtom F now atom.toJson =
      if filled atom then .ok atom
      else .error (.atomsNotFoundWith "The required properties of the atom are not filled.") := by
  have hvalid := Atom.valid_toJson F hutf8
  have hread : Atom.jsonToObject F now atom.toJson.text = .ok atom := by
    simp [Atom.jsonToObject, parseJson, Json.parse_text F _ hvalid, bind, Except.bind, Atom.ofJson_toJson hplain]
  have hfilled : filled atom = true ↔ ¬ (atom.position = [] ∨ atom.walletAddress = [] ∨ atom.isotope = []) := by
    simp [filled, and_assoc]
  simp only [readAtom, dumpJson, Json.dump_valid F _ hvalid, bind, Except.bind, hread, pure, Except.pure]
  by_cases h : filled atom = true
  · rw [if_pos h, if_neg (hfilled.mp h)]
  · rw [if_neg h, if_pos (not_not.mp (mt hfilled.mpr h))]

/-- The atoms are read back one after another, up to the first one that is not filled. -/
theorem mapM_readAtom (F : Json.FloatText) (now : Int64) {atoms : List Atom} (hplain : ∀ a ∈ atoms, a.Plain)
    (hutf8 : ∀ a ∈ atoms, a.WireUtf8) :
    (atoms.map Atom.toJson).mapM (readAtom F now) =
      if atoms.all filled then .ok atoms
      else .error (.atomsNotFoundWith "The required properties of the atom are not filled.") := by
  induction atoms with
  | nil => rfl
  | cons atom atoms ih =>
    have hrest := ih (fun a ha => hplain a (List.mem_cons_of_mem _ ha)) fun a ha => hutf8 a (List.mem_cons_of_mem _ ha)
    have hhead := readAtom_toJson F now (hplain atom List.mem_cons_self) (hutf8 atom List.mem_cons_self)
    rw [List.map_cons, List.mapM_cons, hhead, hrest]
    by_cases hfilled : filled atom = true
    · by_cases hall : atoms.all filled = true <;> simp [hfilled, hall, bind, Except.bind, pure, Except.pure]
    · simp [hfilled, bind, Except.bind]

/-- Reading a written molecule gives it back without its wallets, unless some atom is not filled. -/
theorem jsonToObject_toJson (F : Json.FloatText) (now : Int64) {m : Molecule} (hbalance : m.ReadableBalance)
    (hutf8 : m.WireUtf8) (hplain : ∀ a ∈ m.atoms, a.Plain) :
    ∃ text, m.toJson = .ok text ∧ jsonToObject F now text =
      if m.atoms.all filled then .ok { m with sourceWallet := none, remainderWallet := none }
      else .error (.atomsNotFoundWith "The required properties of the atom are not filled.") := by
  obtain ⟨json, htext, hvalid, hfind⟩ := toJson_ok F hbalance hutf8
  refine ⟨json.text, htext, ?_⟩
  have hhash : Atom.readString json "molecularHash" = .ok m.molecularHash :=
    Atom.readString_str (hfind _ _ (by simp [wireMembers]))
  have hcellSlug : Atom.readOptional json "cellSlug" = .ok (m.cellSlug, false) :=
    Atom.readOptional_field (hfind _ _ (by simp [wireMembers]))
  have hbundle : Atom.readString json "bundle" = .ok m.bundle :=
    Atom.readString_str (hfind _ _ (by simp [wireMembers]))
  have hstatus : Atom.readOptional json "status" = .ok (m.status, false) :=
    Atom.readOptional_field (hfind _ _ (by simp [wireMembers]))
  have hcreatedAt : readCreatedAt now json = .ok m.createdAt := by
    have hfound : json.find? (ascii "createdAt") = some (.str (Decimal.ofInt m.createdAt.toInt)) :=
      hfind _ _ (by simp [wireMembers])
    simp [readCreatedAt, hfound, getString, Except.map, CInteger.strtoll_ofInt]
  have hatoms : readAtoms F now json = if m.atoms.all filled then .ok m.atoms
      else .error (.atomsNotFoundWith "The required properties of the atom are not filled.") := by
    have hfound : json.find? (ascii "atoms") = some (.arr (m.atoms.map Atom.toJson)) := hfind _ _ (by simp [wireMembers])
    rw [readAtoms, hfound]
    exact mapM_readAtom F now hplain hutf8.atoms
  simp only [jsonToObject, parseJson, Json.parse_text F _ hvalid, bind, Except.bind, hhash, hcellSlug, hbundle, hstatus,
    hatoms, hcreatedAt, pure, Except.pure]
  by_cases hall : m.atoms.all filled = true <;> simp [hall]

end Molecule

end RoundTrip

end KnishIO
