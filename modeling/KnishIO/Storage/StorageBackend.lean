import KnishIO.Library.Act
import KnishIO.Library.FileSystem
import KnishIO.Library.Json.Indented
import KnishIO.Library.StdMap
import KnishIO.Atom

open ByteString FileSystem

namespace KnishIO

namespace FileStorageBackend

/-- The path of the store, its `parent_path()` where that is not empty, and the number format of the parser. -/
structure Setting where
  path : ByteString
  parentPath : Option ByteString := none
  floatText : Json.FloatText

/-- What the system answers to the calls of one `persist`: the errors of the calls that have one, and the
random number. -/
structure Answers where
  existsError : Option Exception := none
  createError : Option ByteString := none
  randomError : Option Exception := none
  random : UInt64 := 0
  tmpOpens : Bool := true
  /-- The bytes that reach the file before a write fails. -/
  written : Option Nat := none
  renameError : Option ByteString := none
  removeError : Option Exception := none

/-- An instance with the disk it was opened on and the calls it has made since. -/
structure State where
  store : StdMap ByteString := {}
  start : Disk
  log : List Call := []

def State.disk (s : State) : Disk := run s.log s.start

abbrev Run := Act Exception State

variable (S : Setting)

def storageError (message : String) (rest : ByteString) : Exception :=
  .secretStorage (ascii "file storage: " ++ ascii message ++ rest)

section Load

/-- `json j = store_`. -/
def storeJson (store : StdMap ByteString) : Json := .obj (store.entries.map fun e => (e.1, .str e.2))

/-- The members that are strings; a document that is no object has none. -/
def stringItems (j : Json) : StdMap ByteString :=
  j.members.foldl (fun store m => (m.2.string?).elim store (store.set m.1)) {}

/-- What a new instance reads. -/
def load (readable : Bool) (d : Disk) : Throws (StdMap ByteString) :=
  match d.files S.path with
  | none => .ok {}
  | some text =>
    if !readable then .error (storageError "failed to open " S.path)
    else
      ((parseJson S.floatText text).map stringItems).mapError fun e =>
        storageError "corrupted store at " (S.path ++ ascii ": " ++ e.what)

def opened (readable : Bool) (d : Disk) : Throws State := (load S readable d).map fun store => { store, start := d }

end Load

section Persist

def syscall (c : Call) : Run Unit := modify fun s => { s with log := s.log ++ [c] }

def write (name text : ByteString) : Run Unit := modify fun s => { s with log := s.log ++ appends name text }

def createParent (A : Answers) : Run Unit :=
  match S.parentPath with
  | none => return ()
  | some parent => do
    Act.ofExcept (A.existsError.elim (.ok ()) .error)
    let s ← get
    if s.disk.directories parent then return ()
    else
      match A.createError with
      | none => syscall (.createDirectories parent)
      | some message => throw (storageError "failed to create directory " (parent ++ ascii ": " ++ message))

/-- The temporary file stands next to the store. -/
def tmpPath (A : Answers) : ByteString :=
  S.path ++ ascii ".tmp." ++ (Nat.toDigits 16 A.random.toNat).map fun c => UInt8.ofNat c.toNat

def removeTmp (A : Answers) : Run Unit :=
  match A.removeError with
  | none => syscall (.remove (tmpPath S A))
  | some e => throw e

/-- The text goes to the temporary file, as far as the device takes it. -/
def writeTmp (A : Answers) (text : ByteString) : Run Unit :=
  match A.written with
  | none => write (tmpPath S A) text
  | some n => do
    write (tmpPath S A) (text.take n)
    removeTmp S A
    throw (storageError "failed to write to " (tmpPath S A))

def renameTmp (A : Answers) : Run Unit :=
  match A.renameError with
  | none => syscall (.rename (tmpPath S A) S.path)
  | some message => do
    removeTmp S A
    throw (storageError "failed to rename " (tmpPath S A ++ ascii " to " ++ S.path ++ ascii ": " ++ message))

def dumpStore (store : StdMap ByteString) : Throws ByteString :=
  Throws.ofOption .jsonUtf8 ((storeJson store).dumpIndented 2)

def persist (A : Answers) : Run Unit := do
  createParent S A
  Act.ofExcept (A.randomError.elim (.ok ()) .error)
  Act.require (A.tmpOpens = true) (storageError "failed to open temp file " (tmpPath S A))
  syscall (.truncate (tmpPath S A))
  let s ← get
  let text ← Act.ofExcept (dumpStore s.store)
  writeTmp S A text
  syscall (.chmod (tmpPath S A))
  renameTmp S A

end Persist

section Operations

def getItem (key : ByteString) : Run (Option ByteString) := do
  return (← get).store.find? key

def setItem (A : Answers) (key value : ByteString) : Run Unit := do
  modify fun s => { s with store := s.store.set key value }
  persist S A

def removeItem (A : Answers) (key : ByteString) : Run Bool := do
  let s ← get
  if s.store.contains key then do
    set { s with store := s.store.erase key }
    persist S A
    return true
  else return false

def keys : Run (List ByteString) := do
  return (← get).store.keys

/-- An operation, with the answers of the system to its `persist`. -/
inductive Request where
  | getItem (key : ByteString)
  | setItem (A : Answers) (key value : ByteString)
  | removeItem (A : Answers) (key : ByteString)
  | keys

inductive Reply where
  | item (value : Option ByteString)
  | done
  | removed (present : Bool)
  | keys (keys : List ByteString)
  deriving DecidableEq, Repr

def perform : Request → Run Reply
  | .getItem key => do
    let value ← getItem key
    return .item value
  | .setItem A key value => do
    setItem S A key value
    return .done
  | .removeItem A key => do
    let present ← removeItem S A key
    return .removed present
  | .keys => do
    let found ← keys
    return .keys found

end Operations

end FileStorageBackend

end KnishIO
