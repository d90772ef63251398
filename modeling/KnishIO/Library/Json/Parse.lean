import KnishIO.Library.Json.Dump

open ByteString

namespace Json

/-- Optional sign, integer part, fraction and exponent of a number that has a fraction or an
exponent. -/
structure FloatToken (t : ByteString) : Prop where
  pieces : ∃ sign whole frac exp : ByteString, t = sign ++ whole ++ frac ++ exp ∧ (sign = [] ∨ sign = [45]) ∧
    (whole = [48] ∨ ∃ c ds, whole = c :: ds ∧ c ≠ 48 ∧ ∀ d ∈ c :: ds, Decimal.isDigit d = true) ∧
    (frac = [] ∨ ∃ ds, frac = 46 :: ds ∧ ds ≠ [] ∧ ∀ d ∈ ds, Decimal.isDigit d = true) ∧
    (exp = [] ∨ ∃ e s ds, exp = e :: (s ++ ds) ∧ (e = 101 ∨ e = 69) ∧ (s = [] ∨ s = [43] ∨ s = [45]) ∧ ds ≠ [] ∧
      ∀ d ∈ ds, Decimal.isDigit d = true) ∧
    (frac ≠ [] ∨ exp ≠ [])

/-- The double arithmetic the parser and the writer rely on: `canon` reads a numeral as a double
and writes that double back, and is absent where the double is infinite. -/
structure FloatText where
  canon : ByteString → Option ByteString
  canon_canon : ∀ s t, canon s = some t → canon t = some t
  token : ∀ s t, canon s = some t → FloatToken t

def isWs (c : UInt8) : Bool := c = 32 || c = 9 || c = 10 || c = 13

def skipWs (s : ByteString) : ByteString := s.dropWhile isWs

def hexValue (c : UInt8) : Option Nat :=
  if 48 ≤ c ∧ c ≤ 57 then some (c.toNat - 48)
  else if 97 ≤ c ∧ c ≤ 102 then some (c.toNat - 87)
  else if 65 ≤ c ∧ c ≤ 70 then some (c.toNat - 55)
  else none

/-- Four hexadecimal digits after `\u`. -/
def hex4 : ByteString → Option (Nat × ByteString)
  | a :: b :: c :: d :: rest => do
    let a ← hexValue a
    let b ← hexValue b
    let c ← hexValue c
    let d ← hexValue d
    pure (((a * 16 + b) * 16 + c) * 16 + d, rest)
  | _ => none

def encodeUtf8 (cp : Nat) : ByteString :=
  if cp < 0x80 then [UInt8.ofNat cp]
  else if cp < 0x800 then [UInt8.ofNat (0xC0 + cp / 0x40), UInt8.ofNat (0x80 + cp % 0x40)]
  else if cp < 0x10000 then
    [UInt8.ofNat (0xE0 + cp / 0x1000), UInt8.ofNat (0x80 + cp / 0x40 % 0x40), UInt8.ofNat (0x80 + cp % 0x40)]
  else
    [UInt8.ofNat (0xF0 + cp / 0x40000), UInt8.ofNat (0x80 + cp / 0x1000 % 0x40),
      UInt8.ofNat (0x80 + cp / 0x40 % 0x40), UInt8.ofNat (0x80 + cp % 0x40)]

/-- The character an escape stands for, with the input after it. A high surrogate needs its low
one as the next escape; a low one never comes first. -/
def unescape : ByteString → Option (ByteString × ByteString)
  | [] => none
  | c :: rest =>
    if c = 34 then some ([34], rest)
    else if c = 92 then some ([92], rest)
    else if c = 47 then some ([47], rest)
    else if c = 98 then some ([8], rest)
    else if c = 102 then some ([12], rest)
    else if c = 110 then some ([10], rest)
    else if c = 114 then some ([13], rest)
    else if c = 116 then some ([9], rest)
    else if c = 117 then
      match hex4 rest with
      | none => none
      | some (cp, rest) =>
        if 0xD800 ≤ cp ∧ cp ≤ 0xDBFF then
          match rest with
          | b :: u :: rest =>
            if b = 92 ∧ u = 117 then
              match hex4 rest with
              | none => none
              | some (low, rest) =>
                if 0xDC00 ≤ low ∧ low ≤ 0xDFFF then
                  some (encodeUtf8 (0x10000 + (cp - 0xD800) * 0x400 + (low - 0xDC00)), rest)
                else none
            else none
          | _ => none
        else if 0xDC00 ≤ cp ∧ cp ≤ 0xDFFF then none
        else some (encodeUtf8 cp, rest)
    else none

/-- The rest of a string literal after its opening quote. Every round consumes a byte, so the
length of the input is fuel enough. -/
def scanString : Nat → Utf8.State → ByteString → Option (ByteString × ByteString)
  | 0, _, _ => none
  | _ + 1, _, [] => none
  | n + 1, q, b :: rest =>
    if q = .start ∧ b = 34 then some ([], rest)
    else if q = .start ∧ b = 92 then
      match unescape rest with
      | none => none
      | some (cs, rest) => (scanString n .start rest).map fun r => (cs ++ r.1, r.2)
    else if b < 32 then none
    else
      match Utf8.step q b with
      | none => none
      | some q' => (scanString n q' rest).map fun r => (b :: r.1, r.2)

def scanInt : ByteString → Option (ByteString × ByteString)
  | [] => none
  | c :: rest =>
    if c = 48 then some ([48], rest)
    else if Decimal.isDigit c then some (c :: rest.takeWhile Decimal.isDigit, rest.dropWhile Decimal.isDigit)
    else none

def scanDigits (s : ByteString) : Option (ByteString × ByteString) :=
  if s.takeWhile Decimal.isDigit = [] then none
  else some (s.takeWhile Decimal.isDigit, s.dropWhile Decimal.isDigit)

def scanFrac : ByteString → Option (ByteString × ByteString)
  | [] => some ([], [])
  | c :: rest => if c = 46 then (scanDigits rest).map fun r => (46 :: r.1, r.2) else some ([], c :: rest)

def scanSign : ByteString → ByteString × ByteString
  | [] => ([], [])
  | c :: rest => if c = 43 ∨ c = 45 then ([c], rest) else ([], c :: rest)

def scanExp : ByteString → Option (ByteString × ByteString)
  | [] => some ([], [])
  | c :: rest =>
    if c = 101 ∨ c = 69 then
      (scanDigits (scanSign rest).2).map fun r => (c :: ((scanSign rest).1 ++ r.1), r.2)
    else some ([], c :: rest)

def scanMinus : ByteString → ByteString × ByteString
  | [] => ([], [])
  | c :: rest => if c = 45 then ([45], rest) else ([], c :: rest)

/-- A number token. An integer outside the 64-bit ranges is read as a double. -/
def scanNumber (F : FloatText) (s : ByteString) : Option (Json × ByteString) :=
  match scanInt (scanMinus s).2 with
  | none => none
  | some (whole, s₁) =>
    match scanFrac s₁ with
    | none => none
    | some (frac, s₂) =>
      match scanExp s₂ with
      | none => none
      | some (exp, rest) =>
        let sign := (scanMinus s).1
        let double := (F.canon (sign ++ whole ++ frac ++ exp)).map fun t => (Json.float t, rest)
        if frac = [] ∧ exp = [] then
          if sign = [] then
            if Decimal.value whole < 2 ^ 64 then some (.int (Decimal.value whole), rest) else double
          else
            if Decimal.value whole ≤ 2 ^ 63 then some (.int (-(Decimal.value whole)), rest) else double
        else double

/-- A literal name. -/
def scanLiteral (name : String) (value : Json) (s : ByteString) : Option (Json × ByteString) :=
  if (ascii name).isPrefixOf s then some (value, s.drop (ascii name).length) else none

mutual

/-- One value after optional white space, with the input after it. -/
def parseValue (F : FloatText) : Nat → ByteString → Option (Json × ByteString)
  | 0, _ => none
  | n + 1, s =>
    match skipWs s with
    | [] => none
    | c :: rest =>
      if c = 123 then
        match skipWs rest with
        | [] => none
        | d :: rest' => if d = 125 then some (.obj [], rest') else parseMembers F n [] (d :: rest')
      else if c = 91 then
        match skipWs rest with
        | [] => none
        | d :: rest' => if d = 93 then some (.arr [], rest') else parseItems F n [] (d :: rest')
      else if c = 34 then (scanString (rest.length + 1) .start rest).map fun r => (.str r.1, r.2)
      else if c = 45 ∨ Decimal.isDigit c then scanNumber F (c :: rest)
      else if c = 116 then scanLiteral "true" (.bool true) (c :: rest)
      else if c = 102 then scanLiteral "false" (.bool false) (c :: rest)
      else if c = 110 then scanLiteral "null" .null (c :: rest)
      else none

/-- The items of an array up to its closing bracket. -/
def parseItems (F : FloatText) : Nat → List Json → ByteString → Option (Json × ByteString)
  | 0, _, _ => none
  | n + 1, acc, s =>
    match parseValue F n s with
    | none => none
    | some (v, rest) =>
      match skipWs rest with
      | [] => none
      | c :: rest' =>
        if c = 44 then parseItems F n (acc ++ [v]) rest'
        else if c = 93 then some (.arr (acc ++ [v]), rest')
        else none

/-- The members of an object up to its closing brace; a key given twice keeps its last value. -/
def parseMembers (F : FloatText) : Nat → List (ByteString × Json) → ByteString → Option (Json × ByteString)
  | 0, _, _ => none
  | n + 1, acc, s =>
    match skipWs s with
    | [] => none
    | q :: s₁ =>
      if q = 34 then
        match scanString (s₁.length + 1) .start s₁ with
        | none => none
        | some (key, s₂) =>
          match skipWs s₂ with
          | [] => none
          | c :: s₃ =>
            if c = 58 then
              match parseValue F n s₃ with
              | none => none
              | some (v, s₄) =>
                match skipWs s₄ with
                | [] => none
                | d :: rest =>
                  if d = 44 then parseMembers F n (insert key v acc) rest
                  else if d = 125 then some (.obj (insert key v acc), rest)
                  else none
            else none
      else none

end

/-- A leading byte-order mark is skipped; a broken one is an error. -/
def skipBom : ByteString → Option ByteString
  | [] => some []
  | c :: rest =>
    if c = 0xEF then
      if [0xBB, 0xBF].isPrefixOf rest then some (rest.drop 2) else none
    else some (c :: rest)

/-- `parse`: RFC 8259 without comments, with an optional byte-order mark, and a NUL byte between tokens taken for
the end of the input; `none` stands for a `parse_error`. -/
def parse (F : FloatText) (s : ByteString) : Option Json :=
  match skipBom s with
  | none => none
  | some s =>
    match parseValue F (s.length + 1) s with
    | none => none
    | some (j, rest) =>
      match skipWs rest with
      | [] => some j
      | c :: _ => if c = 0 then some j else none

end Json
