import KnishIO.Library.Json.Value

open ByteString

namespace Json

/-- Lower-case hexadecimal digit. -/
def hexDigit (n : Nat) : UInt8 := if n < 10 then UInt8.ofNat (48 + n) else UInt8.ofNat (87 + n)

/-- One byte inside a string literal. -/
def escapeByte (b : UInt8) : ByteString :=
  if b = 34 then [92, 34]
  else if b = 92 then [92, 92]
  else if b = 8 then [92, 98]
  else if b = 9 then [92, 116]
  else if b = 10 then [92, 110]
  else if b = 12 then [92, 102]
  else if b = 13 then [92, 114]
  else if b < 32 then [92, 117, 48, 48, hexDigit (b.toNat / 16), hexDigit (b.toNat % 16)]
  else [b]

def escape (s : ByteString) : ByteString := s.flatMap escapeByte

def quote (s : ByteString) : ByteString := 34 :: (escape s ++ [34])

mutual

/-- The text of a value whose strings are UTF-8. -/
def text : Json → ByteString
  | .null => ascii "null"
  | .bool true => ascii "true"
  | .bool false => ascii "false"
  | .int n => Decimal.ofInt n
  | .float t => t
  | .str s => quote s
  | .arr items => 91 :: (textItems items ++ [93])
  | .obj ms => 123 :: (textMembers ms ++ [125])

def textItems : List Json → ByteString
  | [] => []
  | [j] => text j
  | j :: k :: rest => text j ++ 44 :: textItems (k :: rest)

def textMembers : List (ByteString × Json) → ByteString
  | [] => []
  | [(key, v)] => quote key ++ 58 :: text v
  | (key, v) :: m :: rest => quote key ++ 58 :: (text v ++ 44 :: textMembers (m :: rest))

end

mutual

/-- Every string and every key of the value is UTF-8, as is the text of every number. -/
def utf8 : Json → Bool
  | .float t => Utf8.valid t
  | .str s => Utf8.valid s
  | .arr items => utf8Items items
  | .obj ms => utf8Members ms
  | _ => true

def utf8Items : List Json → Bool
  | [] => true
  | j :: rest => utf8 j && utf8Items rest

def utf8Members : List (ByteString × Json) → Bool
  | [] => true
  | (key, v) :: rest => Utf8.valid key && utf8 v && utf8Members rest

end

/-- `dump()` with its default settings, compact and without ASCII escaping; `none` stands for the `type_error` of a
string that is not UTF-8. -/
def dump (j : Json) : Option ByteString := if j.utf8 then some j.text else none

@[simp] theorem escape_nil : escape [] = [] := rfl

@[simp] theorem escape_cons (b : UInt8) (s : ByteString) : escape (b :: s) = escapeByte b ++ escape s := rfl

theorem dump_of_utf8 {j : Json} (h : j.utf8 = true) : j.dump = some j.text := if_pos h

theorem utf8Items_iff (items : List Json) : utf8Items items = true ↔ ∀ j ∈ items, j.utf8 = true := by
  induction items with
  | nil => simp [utf8Items]
  | cons j items ih => simp [utf8Items, ih]

theorem utf8Members_iff (ms : List (ByteString × Json)) :
    utf8Members ms = true ↔ ∀ m ∈ ms, Utf8.valid m.1 = true ∧ m.2.utf8 = true := by
  induction ms with
  | nil => simp [utf8Members]
  | cons m ms ih =>
    obtain ⟨k, v⟩ := m
    simp [utf8Members, ih, Bool.and_eq_true]

end Json
