import KnishIO.Molecule.Timestamp
import KnishIO.Molecule.Isotope
import KnishIO.Molecule.Reread

open ByteString

namespace KnishIO

/-- Result of `verifyFromServerData`; the error is empty when verified. -/
structure ServedVerification where
  molecularHash : Option ByteString := none
  verified : Bool := false
  error : ByteString := []
  deriving DecidableEq, Repr

namespace Molecule

section Served

/-- A member that is present and not null. -/
def member (object : Json) (key : String) : Option Json :=
  match object.find? (ascii key) with
  | some .null => none
  | value => value

/-- A served time as client-format JSON, null when absent. -/
def servedCreatedAt : Json → Json
  | .int n => .str (toSignedTimestampInt (Int64.ofInt n))
  | .str s =>
    match toSignedTimestamp s with
    | some normalized => .str normalized
    | none => .null
  | _ => .null

/-- A string is parsed; a text that does not parse is discarded. -/
def parsedMeta (F : Json.FloatText) (metasJson : Json) : Option Json :=
  match metasJson with
  | .str s => Json.parse F s
  | value => some value

/-- `metasJson` as an array: an object becomes its entries, anything else is empty. -/
def servedMeta (F : Json.FloatText) (metasJson : Json) : Json :=
  match parsedMeta F metasJson with
  | some (.arr items) => .arr items
  | some (.obj members) =>
    .arr (members.map fun item => Json.object [(ascii "key", .str item.1), (ascii "value", item.2)])
  | _ => .arr []

/-- A member that is passed on when it is a string. -/
def stringMember (object : Json) (key : String) : Option Json :=
  match member object key with
  | some (.str s) => some (.str s)
  | _ => none

def createdAtMember (object : Json) : Option Json :=
  match (member object "createdAt").map servedCreatedAt with
  | some .null => none
  | value => value

/-- `tokenSlug`, or `token` where there is none. -/
def tokenMember (servedAtom : Json) : Option Json :=
  if (member servedAtom "tokenSlug").isSome then stringMember servedAtom "tokenSlug" else stringMember servedAtom "token"

/-- A value that is no string is passed on as its text. -/
def valueMember (servedAtom : Json) : Throws (Option Json) :=
  match member servedAtom "value" with
  | none => .ok none
  | some (.str s) => .ok (some (.str s))
  | some v => (dumpJson v).map fun text => some (.str text)

def indexMember (servedAtom : Json) : Option Json :=
  match member servedAtom "index" with
  | some (.int n) => some (.int n)
  | _ => none

def versionMember (servedAtom : Json) (forcedVersion : Option ByteString) : Option Json :=
  match forcedVersion with
  | some version => some (.str version)
  | none => member servedAtom "version"

def metaMember (F : Json.FloatText) (servedAtom : Json) : Json :=
  match member servedAtom "metasJson" with
  | some metas => servedMeta F metas
  | none => .arr []

/-- The fields of a client-format atom. -/
def clientAtomFields (F : Json.FloatText) (forcedVersion : Option ByteString) (servedAtom : Json) (value : Option Json) :
    List (ByteString × Option Json) :=
  [(ascii "position", stringMember servedAtom "position"), (ascii "walletAddress", stringMember servedAtom "walletAddress"),
    (ascii "isotope", stringMember servedAtom "isotope"), (ascii "batchId", stringMember servedAtom "batchId"),
    (ascii "metaType", stringMember servedAtom "metaType"), (ascii "metaId", stringMember servedAtom "metaId"),
    (ascii "otsFragment", stringMember servedAtom "otsFragment"), (ascii "token", tokenMember servedAtom),
    (ascii "value", value), (ascii "index", indexMember servedAtom), (ascii "createdAt", createdAtMember servedAtom),
    (ascii "version", versionMember servedAtom forcedVersion), (ascii "meta", some (metaMember F servedAtom))]

def servedAtomToClient (F : Json.FloatText) (forcedVersion : Option ByteString) (servedAtom : Json) : Throws Json :=
  if !servedAtom.isObject then .error (.invalidArgument (ascii "served atom is not a JSON object"))
  else
    (valueMember servedAtom).map fun value =>
      Json.object (Json.presentFields (clientAtomFields F forcedVersion servedAtom value))

/-- The fields of a client-format molecule. -/
def clientFields (served : Json) (atoms : List Json) : List (ByteString × Option Json) :=
  [(ascii "bundle", stringMember served "bundleHash"), (ascii "molecularHash", stringMember served "molecularHash"),
    (ascii "cellSlug", stringMember served "cellSlug"), (ascii "status", stringMember served "status"),
    (ascii "createdAt", createdAtMember served), (ascii "atoms", some (.arr atoms))]

/-- A served molecule as client-format JSON. -/
def servedToClient (F : Json.FloatText) (served : Json) (forcedVersion : Option ByteString) : Throws Json :=
  if !served.isObject then .error (.invalidArgument (ascii "served molecule is not a JSON object"))
  else
    match member served "atoms" with
    | some (.arr servedAtoms) =>
      (servedAtoms.mapM (servedAtomToClient F forcedVersion)).map fun atoms =>
        Json.object (Json.presentFields (clientFields served atoms))
    | _ => .error (.invalidArgument (ascii "served molecule has no atoms"))

/-- The molecule that a served one is read as; `now` is the time of the constructor calls. -/
def clientView (F : Json.FloatText) (now : Int64) (served : Json) (forcedVersion : Option ByteString) : Throws Molecule := do
  let client ← servedToClient F served forcedVersion
  let text ← dumpJson client
  jsonToObject F now text

/-- The verdict on one view, and whether it failed by its hash alone. -/
def verifyClient (F : Json.FloatText) (H : Shake256) (now : Int64) (served : Json) (forcedVersion : Option ByteString) :
    ServedVerification × Bool :=
  match clientView F now served forcedVersion with
  | .error e => ({ error := e.what }, false)
  | .ok molecule =>
    let molecularHash := if molecule.molecularHash = [] then none else some molecule.molecularHash
    match verifyMolecularHash H molecule with
    | .error e => ({ molecularHash, error := e.what }, false)
    | .ok false => ({ molecularHash, error := ascii "Molecular hash mismatch" }, true)
    | .ok true =>
      match check H molecule with
      | .error e => ({ molecularHash, error := e.what }, false)
      | .ok () => ({ molecularHash, verified := true }, false)

def fromServerData (F : Json.FloatText) (now : Int64) (servedJson : ByteString) : Throws Molecule := do
  let served ← parseJson F servedJson
  clientView F now served none

/-- Some atom is served with a version. -/
def servesVersion (atoms : Json) : Bool := atoms.elements.any fun a => (member a "version").isSome

/-- The verdicts under the given versions, up to the first that verifies. -/
def retryVersions (F : Json.FloatText) (H : Shake256) (clock : Option ByteString → Int64) (served : Json) :
    List String → ServedVerification → ServedVerification
  | [], result => result
  | version :: rest, _ =>
    let result := (verifyClient F H (clock (some (ascii version))) served (some (ascii version))).1
    if result.verified then result else retryVersions F H clock served rest result

/-- `clock` gives the time of the constructor calls of each attempt. -/
def verifyFromServerData (F : Json.FloatText) (H : Shake256) (clock : Option ByteString → Int64) (servedJson : ByteString) :
    Throws ServedVerification :=
  match Json.parse F servedJson with
  | none => .ok { error := ascii "served molecule is not valid JSON" }
  | some served =>
    let (result, hashMismatch) := verifyClient F H (clock none) served none
    if result.verified || !hashMismatch then .ok result
    else
      match served.find? (ascii "atoms") with
      | none => .error (.outOfRange (ascii "[json.exception.out_of_range.403] key 'atoms' not found"))
      | some atoms =>
        if servesVersion atoms then .ok result
        else .ok (retryVersions F H clock served ["4", "3"] result)

end Served

end Molecule

end KnishIO
