import KnishIO.Utility.Hex
import KnishIO.Library.Radix

open ByteString

namespace KnishIO

/-- The limbs packed so far, the limb being filled and how many digits it holds and takes. -/
structure Packing where
  limbs : List Nat
  limb : Nat
  inLimb : Nat
  head : Nat

/-- One digit of the packing loop. A limb takes eight digits at most, so it fits 32 bits. -/
def packDigit (p : Packing) (c : UInt8) : Packing :=
  let limb := p.limb * 16 + hexDigitValue c
  if p.inLimb + 1 = p.head then { limbs := p.limbs ++ [limb], limb := 0, inLimb := 0, head := 8 }
  else { p with limb, inLimb := p.inLimb + 1 }

/-- Big-endian 32-bit limbs of the significant digits. -/
def packLimbs (significant : ByteString) : List Nat :=
  let head := if significant.length % 8 = 0 then 8 else significant.length % 8
  (significant.foldl packDigit { limbs := [], limb := 0, inLimb := 0, head }).limbs

def charsetBaseConvert (hashHex : ByteString) (baseFrom baseTo : Nat) (baseToSymbolTable : ByteString) :
    Throws ByteString :=
  if hashHex = [] then .ok []
  else if baseTo = 0 ∨ 256 < baseTo then .error (.invalidArgument (ascii "Base must be between 1 and 256"))
  else if baseTo = 1 then .error (.invalidArgument (ascii "Base must be between 2 and 256"))
  else if baseFrom ≠ 16 then .error (.invalidArgument (ascii "Only base 16 input is supported"))
  else if baseToSymbolTable.length < baseTo then
    .error (.invalidArgument (ascii "Symbol table too short for specified base"))
  else
    match hashHex.find? fun c => !isxdigit c with
    | some c => .error (.invalidArgument (ascii "Input contains non-hex character: " ++ [c]))
    | none =>
      let significant := hashHex.dropWhile (· = 48)
      if significant = [] then .ok [baseToSymbolTable.getD 0 0]
      else
        -- Four binary digits to a hexadecimal one bound the number of divisions.
        let res := Radix.convert (2 ^ 32) baseTo (4 * significant.length) (packLimbs significant)
        .ok (res.map fun rem => baseToSymbolTable.getD rem 0).reverse

/-- The number a string of hexadecimal digits denotes. -/
def hexNumber (s : ByteString) : Nat := Radix.value 16 (s.map hexDigitValue)

/-- What the packing loop keeps: the digits read so far are in the limbs and the open limb, and the
open limb closes together with the input. -/
structure Packing.Inv (p : Packing) (read : ByteString) (left : Nat) : Prop where
  room : p.inLimb < p.head
  head_le : p.head ≤ 8
  first : p.limbs = [] ∨ p.head = 8
  value : Radix.value (2 ^ 32) p.limbs * 16 ^ p.inLimb + p.limb = hexNumber read
  fresh : p.inLimb = 0 → p.limb = 0
  closes : (p.inLimb + left) % 8 = p.head % 8

theorem Packing.Inv.step {p : Packing} {read : ByteString} {left : Nat} (h : p.Inv read (left + 1)) (c : UInt8) :
    (packDigit p c).Inv (read ++ [c]) left := by
  have hnumber : hexNumber (read ++ [c]) = hexNumber read * 16 + hexDigitValue c := by simp [hexNumber]
  obtain ⟨hroom, hhead, hfirst, hvalue, _, hcloses⟩ := h
  unfold packDigit
  dsimp only
  split
  next hfull =>
    constructor <;> dsimp only
    case room => omega
    case head_le => omega
    case first => exact .inr rfl
    case fresh => exact fun _ => rfl
    case closes => omega
    case value =>
      rw [Radix.value_append_singleton, hnumber, ← hvalue]
      rcases hfirst with hnil | height
      · simp [hnil]
      · rw [show p.inLimb = 7 by omega]
        ring
  next hopen =>
    constructor <;> dsimp only
    case room => omega
    case head_le => exact hhead
    case first => exact hfirst
    case fresh => omega
    case closes => omega
    case value =>
      rw [hnumber, ← hvalue, Nat.pow_succ]
      ring

theorem Packing.Inv.foldl {p : Packing} {read : ByteString} (rest : ByteString) (h : p.Inv read rest.length) :
    (rest.foldl packDigit p).Inv (read ++ rest) 0 := by
  induction rest generalizing p read with
  | nil => simpa using h
  | cons c rest ih => simpa using ih (h.step c)

theorem packing_start (n : Nat) : (Packing.mk [] 0 0 (if n % 8 = 0 then 8 else n % 8)).Inv [] n := by
  constructor <;> dsimp only
  case room => split <;> omega
  case head_le => split <;> omega
  case first => exact .inl rfl
  case fresh => exact fun _ => rfl
  case closes => split <;> omega
  case value => rfl

/-- The limbs hold the number that the digits denote. -/
theorem value_packLimbs (significant : ByteString) :
    Radix.value (2 ^ 32) (packLimbs significant) = hexNumber significant := by
  obtain ⟨hroom, hhead, _, hvalue, hfresh, hcloses⟩ := (packing_start significant.length).foldl significant
  have hclosed : (significant.foldl packDigit
      ⟨[], 0, 0, if significant.length % 8 = 0 then 8 else significant.length % 8⟩).inLimb = 0 := by omega
  rw [hclosed, hfresh hclosed] at hvalue
  simpa [packLimbs] using hvalue

theorem hexNumber_dropWhile_zero (s : ByteString) : hexNumber (s.dropWhile (· = 48)) = hexNumber s := by
  have hzeros : ∀ c ∈ s.takeWhile (· = 48), hexDigitValue c = 0 := fun c hc => by
    have hall := List.all_eq_true.mp (List.all_takeWhile (p := (· = (48 : UInt8))) (l := s)) c hc
    obtain rfl : c = 48 := by simpa using hall
    decide
  have hsplit : s.map hexDigitValue =
      List.replicate (s.takeWhile (· = 48)).length 0 ++ (s.dropWhile (· = 48)).map hexDigitValue := by
    conv_lhs => rw [← List.takeWhile_append_dropWhile (p := (· = 48)) (l := s), List.map_append]
    rw [List.map_eq_replicate_iff.mpr hzeros]
  rw [hexNumber, hexNumber, hsplit, Radix.value_replicate_zero_append]

theorem hexDigitValue_lt {c : UInt8} (hc : isxdigit c = true) : hexDigitValue c < 16 ∧ (hexDigitValue c = 0 → c = 48) :=
  forall_byte_of_fin (P := fun c => isxdigit c = true → hexDigitValue c < 16 ∧ (hexDigitValue c = 0 → c = 48))
    (by decide +kernel) c hc

theorem hexNumber_lt {s : ByteString} (hs : ∀ c ∈ s, isxdigit c = true) : hexNumber s < 16 ^ s.length := by
  have hlt : Radix.value 16 (s.map hexDigitValue) < 16 ^ (s.map hexDigitValue).length := Radix.value_lt_pow fun x hx => by
    obtain ⟨c, hc, rfl⟩ := List.mem_map.mp hx
    exact (hexDigitValue_lt (hs c hc)).1
  simpa [hexNumber] using hlt

/-- A number whose first digit is not zero is positive. -/
theorem hexNumber_pos {c : UInt8} {s : ByteString} (hc : isxdigit c = true) (hne : c ≠ 48) : 0 < hexNumber (c :: s) := by
  have hdigit : 0 < hexDigitValue c := Nat.pos_of_ne_zero fun h => hne ((hexDigitValue_lt hc).2 h)
  have hfold : ∀ (ds : List Nat) (acc : Nat), 0 < acc → 0 < ds.foldl (fun acc d => acc * 16 + d) acc := by
    intro ds
    induction ds with
    | nil => exact fun _ h => h
    | cons d ds ih => exact fun acc h => ih (acc * 16 + d) (by omega)
  simpa [hexNumber, Radix.value] using hfold (s.map hexDigitValue) (hexDigitValue c) hdigit

/-- What is left without leading zeros is a positive number of at most four bits a digit. -/
theorem hexNumber_significant {hashHex rest : ByteString} {c : UInt8} (hhex : ∀ c ∈ hashHex, isxdigit c = true)
    (hsig : hashHex.dropWhile (· = 48) = c :: rest) :
    (∀ d ∈ c :: rest, isxdigit d = true) ∧ hexNumber (c :: rest) = hexNumber hashHex ∧ 0 < hexNumber hashHex ∧
      hexNumber hashHex < 2 ^ (4 * (c :: rest).length) := by
  have hdrop := hexNumber_dropWhile_zero hashHex
  rw [hsig] at hdrop
  have hmem : ∀ d ∈ c :: rest, isxdigit d = true := fun d hd => by
    rw [← hsig] at hd
    exact hhex d (List.dropWhile_subset _ hd)
  have hhead : c ≠ 48 := by
    have := List.head?_dropWhile_not (p := (· = (48 : UInt8))) hashHex
    simpa [hsig] using this
  rw [← hdrop, Nat.pow_mul]
  exact ⟨hmem, rfl, hexNumber_pos (hmem c List.mem_cons_self) hhead, hexNumber_lt hmem⟩

/-- The symbols of a conversion are the digit expansion of the number, written at least once. -/
theorem charsetBaseConvert_eq {hashHex table : ByteString} {baseTo : Nat} (hne : hashHex ≠ [])
    (hhex : ∀ c ∈ hashHex, isxdigit c = true) (hbase : 2 ≤ baseTo) (htable : baseTo ≤ table.length)
    (hbyte : baseTo ≤ 256) :
    charsetBaseConvert hashHex 16 baseTo table =
      .ok ((if hexNumber hashHex = 0 then [0] else (Nat.digits baseTo (hexNumber hashHex)).reverse).map
        fun d => table.getD d 0) := by
  have hfind : hashHex.find? (fun c => !isxdigit c) = none := by
    rw [List.find?_eq_none]
    simpa using hhex
  unfold charsetBaseConvert
  rw [if_neg hne, if_neg (by omega), if_neg (by omega), if_neg (by simp), if_neg (by omega), hfind]
  dsimp only
  have hdrop := hexNumber_dropWhile_zero hashHex
  cases hsig : hashHex.dropWhile (· = 48) with
  | nil =>
    rw [hsig] at hdrop
    have hzero : hexNumber hashHex = 0 := by simpa [hexNumber] using hdrop.symm
    simp [hzero]
  | cons c rest =>
    obtain ⟨-, hnumber, hpos, hlt⟩ := hexNumber_significant hhex hsig
    rw [← hnumber] at hpos hlt
    have hconvert := Radix.convert_eq_digits (b := 2 ^ 32) (d := baseTo) (by norm_num) hbase
      (4 * (c :: rest).length) (packLimbs (c :: rest)) (fun _ => by rw [value_packLimbs]; exact hpos)
      (by rw [value_packLimbs]; exact hlt)
    rw [value_packLimbs] at hconvert
    rw [hsig] at hdrop
    rw [if_neg (by simp), hconvert, hdrop, if_neg (by omega), List.map_reverse]

end KnishIO
