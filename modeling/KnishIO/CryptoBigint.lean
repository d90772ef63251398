import KnishIO.Utility.Hex

open ByteString

namespace KnishIO

/-- Little-endian 32-bit limbs. -/
structure CryptoBigInt where
  limbs : List Nat
  deriving DecidableEq, Repr

namespace CryptoBigInt

/-- Eight digits to a limb, read from the right; the input has been checked to be hexadecimal. -/
def fromHexString (hexStr : ByteString) : CryptoBigInt :=
  if hexStr = [] then ⟨[0]⟩
  else ⟨(blocks 8 hexStr.reverse).map fun limb => limb.foldr (fun c acc => hexDigitValue c + 16 * acc) 0⟩

def isZero (n : CryptoBigInt) : Bool := n.limbs.all (· = 0)

/-- A number written by a stream in hexadecimal mode. -/
def streamHex (n : Nat) : ByteString := if n = 0 then [48] else (Nat.digits 16 n).reverse.map Json.hexDigit

/-- The most significant non-zero limb without leading zeros, the others with eight digits each. -/
def toHexString (n : CryptoBigInt) : ByteString :=
  if n.isZero then [48]
  else
    match n.limbs.reverse.dropWhile (· = 0) with
    | [] => [48]
    | first :: rest => streamHex first ++ rest.flatMap fun limb => padLeft 8 48 (streamHex limb)

/-- Limbwise addition of two operands of one size, with the carry out of the last limb. -/
def constantTimeAdd : List (Nat × Nat) → Nat → List Nat × Nat
  | [], carry => ([], carry)
  | (a, b) :: rest, carry =>
    let sum := a + b + carry
    let r := constantTimeAdd rest (sum / 2 ^ 32)
    (sum % 2 ^ 32 :: r.1, r.2)

/-- Leading zero limbs dropped, keeping at least one limb. -/
def normalize (limbs : List Nat) : List Nat :=
  match limbs.reverse.dropWhile (· = 0) with
  | [] => limbs.take 1
  | first :: rest => (first :: rest).reverse

def add (n other : CryptoBigInt) : CryptoBigInt :=
  let maxSize := max n.limbs.length other.limbs.length
  let pad (limbs : List Nat) := limbs ++ List.replicate (maxSize - limbs.length) 0
  let r := constantTimeAdd ((pad n.limbs).zip (pad other.limbs)) 0
  ⟨normalize (r.1 ++ [r.2])⟩

end CryptoBigInt

namespace WalletCrypto

def isValidHex (hexStr : ByteString) : Bool := hexStr ≠ [] && hexStr.all isxdigit

def constantTimeHexAdd (secretHex positionHex : ByteString) : Throws ByteString :=
  if !isValidHex secretHex || !isValidHex positionHex then
    .error (.invalidArgument (ascii "Invalid hex string provided"))
  else
    .ok ((CryptoBigInt.fromHexString secretHex).add (CryptoBigInt.fromHexString positionHex)).toHexString

/-- A symbol of the base-17 alphabet `0`–`9`, `a`–`g`. -/
def isBase17 (c : UInt8) : Bool := (48 ≤ c && c ≤ 57) || (97 ≤ c && c ≤ 103)

def isSignableHash (hash : ByteString) : Bool := hash.length = 64 && hash.all isBase17

theorem isValidHex_shake256Hex (H : Shake256) (str : ByteString) {bits : Nat} (hbits : 8 ≤ bits) :
    isValidHex (shake256Hex H str bits) = true := by
  have hlen := length_shake256Hex H str bits
  have hne : shake256Hex H str bits ≠ [] := List.ne_nil_of_length_pos (by omega)
  have hall : (shake256Hex H str bits).all isxdigit = true :=
    List.all_eq_true.mpr fun c hc => (hexDigit_hexDigitValue (isHexLower_shake256Hex hc)).2.2
  simp [isValidHex, hne, hall]

theorem constantTimeHexAdd_ok {secretHex positionHex : ByteString} (hs : isValidHex secretHex = true)
    (hp : isValidHex positionHex = true) : ∃ sum, constantTimeHexAdd secretHex positionHex = .ok sum := by
  exact ⟨_, by rw [constantTimeHexAdd, hs, hp]; rfl⟩

end WalletCrypto

end KnishIO
