import KnishIO.Library.CInteger
import KnishIO.Library.Json.RoundTrip
import KnishIO.Utility.BaseConvert
import KnishIO.CryptoBigint

open ByteString

namespace KnishIO

/-- An atom. `nullMeta` holds the metas parsed with a null value, each with its place in the parsed
list; the four flags say which optional fields were parsed as `""` rather than as null or absent. -/
structure Atom where
  position : ByteString
  walletAddress : ByteString
  isotope : ByteString
  token : ByteString := []
  value : ByteString := []
  batchId : ByteString := []
  metaType : ByteString := []
  metaId : ByteString := []
  «meta» : List (ByteString × ByteString) := []
  otsFragment : ByteString := []
  createdAt : Int64
  index : Int32 := 0
  version : Option ByteString := none
  nullMeta : List (Nat × ByteString) := []
  emptyValue : Bool := false
  emptyBatchId : Bool := false
  emptyMetaType : Bool := false
  emptyMetaId : Bool := false
  deriving DecidableEq, Repr

/-- `get<std::string>`. -/
def getString (j : Json) : Throws ByteString :=
  match j.string? with
  | some s => .ok s
  | none => .error .jsonType

/-- `dump`, which refuses strings that are not UTF-8. -/
def dumpJson (j : Json) : Throws ByteString :=
  match j.dump with
  | some s => .ok s
  | none => .error .jsonUtf8

/-- What `dump` wrote. -/
theorem dumpJson_ok {j : Json} {text : ByteString} (h : dumpJson j = .ok text) : j.utf8 = true ∧ text = j.text := by
  unfold dumpJson Json.dump at h
  split_ifs at h with hutf8
  exact ⟨hutf8, (Except.ok.inj h).symm⟩

/-- Numbers with a fraction or an exponent are not read. -/
def integersOnly : Json.FloatText := ⟨fun _ => none, nofun, nofun⟩

def parseJson (F : Json.FloatText) (s : ByteString) : Throws Json :=
  match Json.parse F s with
  | some j => .ok j
  | none => .error .jsonParse

namespace Atom

section Parser

/-- A field that is a string when it is present. -/
def readString (json : Json) (key : String) : Throws ByteString :=
  match json.find? (ascii key) with
  | none => .ok []
  | some value => getString value

/-- A field that is a string or null when it is present; the flag tells a present `""`. -/
def readOptional (json : Json) (key : String) : Throws (ByteString × Bool) :=
  match json.find? (ascii key) with
  | none => .ok ([], false)
  | some value =>
    if value.isNull then .ok ([], false) else (getString value).map fun s => (s, s = [])

/-- The metas read so far and the null ones among them. -/
structure MetaState where
  metaValues : List (ByteString × ByteString)
  nullMeta : List (Nat × ByteString)

/-- One item of the meta list. A null value is kept aside, a scalar is written as its JSON text, and
an item without key and value is passed over. -/
def readMetaItem (s : MetaState) (item : Json) : Throws MetaState :=
  match item.find? (ascii "key"), item.find? (ascii "value") with
  | some k, some v =>
    match getString k with
    | .error e => .error e
    | .ok key =>
      match v with
      | .null => .ok { s with nullMeta := s.nullMeta ++ [(s.metaValues.length + s.nullMeta.length, key)] }
      | .str value => .ok { s with metaValues := s.metaValues ++ [(key, value)] }
      | v => (dumpJson v).map fun value => { s with metaValues := s.metaValues ++ [(key, value)] }
  | _, _ => .ok s

def readMeta (json : Json) : Throws MetaState :=
  match json.find? (ascii "meta") with
  | none => .ok ⟨[], []⟩
  | some value => value.elements.foldlM readMetaItem ⟨[], []⟩

/-- `createdAt` as an integer or as a string of digits; without the field the constructor's time stays. -/
def readCreatedAt (now : Int64) (json : Json) : Throws Int64 :=
  match json.find? (ascii "createdAt") with
  | none => .ok now
  | some (.int n) => .ok (Int64.ofInt n)
  | some value => (getString value).map CInteger.strtoll

def readIndex (json : Json) : Int32 :=
  match json.find? (ascii "index") with
  | some (.int n) => Int32.ofInt n
  | _ => 0

/-- A version is a string or a number; a number is kept as its JSON text. -/
def readVersion (json : Json) : Option ByteString :=
  match json.find? (ascii "version") with
  | some (.str s) => some s
  | some (.int n) => some (Json.int n).text
  | some (.float t) => some (Json.float t).text
  | _ => none

/-- The fields in the order of the source's table; `now` is the time of the constructor call. -/
def ofJson (now : Int64) (json : Json) : Throws Atom := do
  let position ← readString json "position"
  let walletAddress ← readString json "walletAddress"
  let isotope ← readString json "isotope"
  let token ← readString json "token"
  let value ← readOptional json "value"
  let batchId ← readOptional json "batchId"
  let metaType ← readOptional json "metaType"
  let metaId ← readOptional json "metaId"
  let metas ← readMeta json
  let otsFragment ← readOptional json "otsFragment"
  let createdAt ← readCreatedAt now json
  return {
    position, walletAddress, isotope, token
    value := value.1, batchId := batchId.1, metaType := metaType.1, metaId := metaId.1
    «meta» := metas.metaValues, otsFragment := otsFragment.1, createdAt
    index := readIndex json, version := readVersion json, nullMeta := metas.nullMeta
    emptyValue := value.2, emptyBatchId := batchId.2, emptyMetaType := metaType.2, emptyMetaId := metaId.2 }

def jsonToObject (F : Json.FloatText) (now : Int64) (jsonStr : ByteString) : Throws Atom := do
  let json ← parseJson F jsonStr
  ofJson now json

end Parser

section Version4

/-- An empty field is written as null. -/
def field (s : ByteString) : Json := if s = [] then .null else .str s

def entry (key : String) (value : Json) : Json := .obj [(ascii key, value)]

def metaItem (key : ByteString) (value : Json) : Json := .arr [entry "key" (.str key), entry "value" value]

/-- A field that was parsed as `""` stays `""`. -/
def optional (s : ByteString) (parsedEmpty : Bool) : Json := if parsedEmpty then .str s else field s

/-- Null items whose place has been reached go in front of the next item. -/
def insertNulls (nulls : List (Nat × ByteString)) (items : List Json) : List (Nat × ByteString) × List Json :=
  match nulls with
  | [] => ([], items)
  | (place, key) :: rest =>
    if place ≤ items.length then insertNulls rest (items ++ [metaItem key .null]) else (nulls, items)

def viewMeta : List (ByteString × ByteString) → List (Nat × ByteString) → List Json → List Json
  | [], nulls, items => items ++ nulls.map fun n => metaItem n.2 .null
  | (key, value) :: metas, nulls, items =>
    let r := insertNulls nulls items
    viewMeta metas r.1 (r.2 ++ [metaItem key (.str value)])

/-- The twelve fields of one atom in the structured view. -/
def view (atom : Atom) : Json :=
  .arr [
    entry "batchId" (optional atom.batchId atom.emptyBatchId),
    entry "createdAt" (.str (Decimal.ofInt atom.createdAt.toInt)),
    entry "index" (.int atom.index.toInt),
    entry "isotope" (field atom.isotope),
    entry "meta" (.arr (viewMeta atom.meta atom.nullMeta [])),
    entry "metaId" (optional atom.metaId atom.emptyMetaId),
    entry "metaType" (optional atom.metaType atom.emptyMetaType),
    entry "position" (field atom.position),
    entry "token" (field atom.token),
    entry "value" (optional atom.value atom.emptyValue),
    entry "version" (match atom.version with | some v => .str v | none => .null),
    entry "walletAddress" (field atom.walletAddress)]

/-- The views in the order of the atoms' indexes; atoms of one index keep their order. -/
def version4View (atoms : List Atom) : Json :=
  .arr ((atoms.mergeSort fun a b => a.index ≤ b.index).map view)

def version4ViewJson (atoms : List Atom) : Throws ByteString := dumpJson (version4View atoms)

end Version4

section Hash

/-- What the legacy sponge absorbs for one atom of a list of `count`. Empty optional fields are
skipped, that is, they add nothing. -/
def sponge (count : Nat) (atom : Atom) : ByteString :=
  Decimal.ofNat count ++ atom.position ++ atom.walletAddress ++ atom.isotope ++ atom.token ++ atom.value ++
    atom.batchId ++ atom.metaType ++ atom.metaId ++ (atom.meta.flatMap fun m => m.1 ++ m.2) ++
    Decimal.ofInt atom.createdAt.toInt

def molecularSponge (atoms : List Atom) : ByteString := atoms.flatMap (sponge atoms.length)

/-- Every atom of a non-empty list carries a version. -/
def allVersioned (atoms : List Atom) : Bool := atoms ≠ [] && atoms.all fun a => a.version.isSome

def hashAtoms (H : Shake256) (atoms : List Atom) : Throws ByteString :=
  if allVersioned atoms then (version4ViewJson atoms).map fun json => shake256 H json 256
  else .ok (shake256 H (molecularSponge atoms) 256)

def hashAtomsHex (H : Shake256) (atoms : List Atom) : Throws ByteString := (hashAtoms H atoms).map toHexString

def base17Symbols : ByteString := ascii "0123456789abcdefg"

def hashAtomsBase17 (H : Shake256) (atoms : List Atom) : Throws ByteString := do
  let hashHex ← hashAtomsHex H atoms
  let hashConverted ← charsetBaseConvert hashHex 16 17 base17Symbols
  return padLeft 64 48 hashConverted

end Hash

end Atom

end KnishIO
