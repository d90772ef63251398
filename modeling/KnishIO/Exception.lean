import Mathlib.Data.List.Forall2
import KnishIO.Library.ByteString

open ByteString

namespace KnishIO

/-- The class of a C++ exception. `undefinedBehavior` stands for an operation the language gives no
meaning to. -/
inductive ExceptionKind where
  | runtimeError
  | invalidArgument
  | outOfRange
  | logicError
  | jsonParse
  | jsonType
  | atomsNotFound
  | signatureMalformed
  | signatureMismatch
  | knishio
  | wallet
  | graphQL
  | encryptedTransport
  | secretStorage
  | badOptionalAccess
  | undefinedBehavior
  deriving DecidableEq, Repr

/-- An exception with the text of its `what()`. -/
structure Exception where
  kind : ExceptionKind
  what : ByteString
  deriving DecidableEq, Repr

/-- The result of a function that may throw. -/
abbrev Throws := Except Exception

def Throws.ofOption {α : Type} (e : Exception) : Option α → Throws α
  | some a => .ok a
  | none => .error e

theorem Throws.ofOption_ok {α : Type} {e : Exception} {o : Option α} {a : α} (h : Throws.ofOption e o = .ok a) : o = some a := by
  cases o with
  | none => cases h
  | some b => rw [Except.ok.inj h]

theorem Throws.ofOption_eq {α : Type} (e : Exception) {o : Option α} {a : α} (h : o = some a) :
    Throws.ofOption e o = .ok a := by
  rw [h]
  rfl

/-- A sequence whose first part returns goes on with its second. -/
theorem Throws.bind_of_ok {α β : Type} {x : Throws α} {a : α} (h : x = .ok a) (f : α → Throws β) : (x >>= f) = f a := by
  rw [h]
  rfl

/-- What a sequence that returns went through. -/
theorem Throws.bind_ok {α β : Type} {x : Throws α} {f : α → Throws β} {b : β} (h : (x >>= f) = .ok b) :
    ∃ a, x = .ok a ∧ f a = .ok b := by
  cases x with
  | error e => cases h
  | ok a => exact ⟨a, rfl, h⟩

/-- What a sequence that throws went through. -/
theorem Throws.bind_error {α β : Type} {x : Throws α} {f : α → Throws β} {e : Exception} (h : (x >>= f) = .error e) :
    x = .error e ∨ ∃ a, x = .ok a ∧ f a = .error e := by
  cases x with
  | error e' =>
    obtain rfl : e' = e := Except.error.inj h
    exact .inl rfl
  | ok a => exact .inr ⟨a, rfl, h⟩

/-- A list is mapped when each of its items is. -/
theorem Throws.mapM_ok_iff {α β : Type} {f : α → Throws β} {xs : List α} {ys : List β} :
    xs.mapM f = .ok ys ↔ List.Forall₂ (fun x y => f x = .ok y) xs ys := by
  constructor
  · intro h
    induction xs generalizing ys with
    | nil =>
      obtain rfl := Except.ok.inj h
      exact .nil
    | cons x xs ih =>
      rw [List.mapM_cons] at h
      obtain ⟨y, hy, h⟩ := Throws.bind_ok h
      obtain ⟨ys, hys, h⟩ := Throws.bind_ok h
      obtain rfl := Except.ok.inj h
      exact .cons hy (ih hys)
  · intro h
    induction h with
    | nil => rfl
    | cons hhead _ ih =>
      rw [List.mapM_cons, hhead, ih]
      rfl

namespace Exception

def runtimeError (what : ByteString) : Exception := ⟨.runtimeError, what⟩

def invalidArgument (what : ByteString) : Exception := ⟨.invalidArgument, what⟩

def atomsNotFound : Exception := ⟨.atomsNotFound, ascii "The molecule does not contain atoms"⟩

def atomsNotFoundWith (what : String) : Exception := ⟨.atomsNotFound, ascii what⟩

def outOfRange (what : ByteString) : Exception := ⟨.outOfRange, what⟩

/-- A `KnishIOException`. -/
def knishio (message : ByteString) : Exception := ⟨.knishio, ascii "[KnishIO] " ++ message⟩

/-- A `WalletException`. -/
def wallet (message : ByteString) : Exception := ⟨.wallet, ascii "[KnishIO] Wallet Error: " ++ message⟩

def encryptedTransport (message : String) : Exception := ⟨.encryptedTransport, ascii "GraphQL Error: " ++ ascii message⟩

/-- A `SecretStorageException`. -/
def secretStorage (message : ByteString) : Exception :=
  ⟨.secretStorage, ascii "[KnishIO] Secret Storage Error: " ++ message⟩

/-- `value()` of an empty `std::optional`. -/
def badOptionalAccess : Exception := ⟨.badOptionalAccess, ascii "bad optional access"⟩

/-- The text a `MoleculeException` hands to its base classes. -/
def moleculeWhat (message : String) : ByteString := ascii "[KnishIO] Molecule Error: " ++ ascii message

def signatureMalformed (message : String := "OTS malformed") : Exception := ⟨.signatureMalformed, moleculeWhat message⟩

def signatureMismatch (message : String := "OTS mismatch") : Exception := ⟨.signatureMismatch, moleculeWhat message⟩

/-- `get<std::string>` on a value of another type. -/
def jsonType : Exception := ⟨.jsonType, ascii "[json.exception.type_error.302] type must be string"⟩

/-- `dump` of a string that is not UTF-8. -/
def jsonUtf8 : Exception := ⟨.jsonType, ascii "[json.exception.type_error.316] invalid UTF-8 byte"⟩

def jsonParse : Exception := ⟨.jsonParse, ascii "[json.exception.parse_error.101] parse error"⟩

def undefinedBehavior : Exception := ⟨.undefinedBehavior, []⟩

end Exception

end KnishIO
