import KnishIO.Utility.Hex

open ByteString

namespace KnishIO

def base64Chars : ByteString := ascii "ABCDEFGHIJKLMNOPQRSTUVWXYZabcdefghijklmnopqrstuvwxyz0123456789+/"

/-- Up to three bytes, shifted as if three had been read, written in four symbols. -/
def encodeGroup (group : ByteString) : ByteString :=
  let value := group.foldl (fun v b => v * 256 + b.toNat) 0 * 256 ^ (3 - group.length)
  (List.range 4).map fun j => if j ≤ group.length then base64Chars.getD (value / 64 ^ (3 - j) % 64) 0 else 61

def toBase64 (data : ByteString) : ByteString := (blocks 3 data).flatMap encodeGroup

/-- The entry of the decoding table; absent for `=` and every other foreign byte. -/
def base64Index (c : UInt8) : Option Nat :=
  if c ∈ base64Chars then some (base64Chars.idxOf c) else none

/-- Up to four symbols, foreign bytes skipped, read back as one byte less. -/
def decodeGroup (group : ByteString) : ByteString :=
  let digits := group.filterMap base64Index
  let value := digits.foldl (fun v d => v * 64 + d) 0 * 64 ^ (4 - digits.length)
  (List.range (digits.length - 1)).map fun j => UInt8.ofNat (value / 256 ^ (2 - j))

def fromBase64 (str : ByteString) : ByteString := (blocks 4 str).flatMap decodeGroup

def hexToBase64 (hex : ByteString) : Throws ByteString := (fromHexString hex).map toBase64

def base64ToHex (b64 : ByteString) : ByteString := toHexString (fromBase64 b64)

/-- The loop of `isStrictBase64` with the number of `=` seen so far. -/
def strictFrom (padding : Nat) : ByteString → Bool
  | [] => padding ≤ 2
  | c :: rest =>
    if c = 61 then strictFrom (padding + 1) rest
    else if padding > 0 then false
    else if c ∈ base64Chars then strictFrom padding rest
    else false

/-- Strict RFC 4648 base64: standard alphabet, `=` padding only at the end, length a multiple of 4. -/
def isStrictBase64 (s : ByteString) : Bool :=
  if s = [] ∨ s.length % 4 ≠ 0 then false else strictFrom 0 s

theorem base64_symbol {n : Nat} (hn : n < 64) :
    base64Index (base64Chars.getD n 0) = some n ∧ base64Chars.getD n 0 ∈ base64Chars ∧ base64Chars.getD n 0 ≠ 61 := by
  have hall : ∀ k : Fin 64, base64Index (base64Chars.getD k.val 0) = some k.val ∧
      base64Chars.getD k.val 0 ∈ base64Chars ∧ base64Chars.getD k.val 0 ≠ 61 := by decide +kernel
  exact hall ⟨n, hn⟩

theorem ascii_of_mem_toBase64 {data : ByteString} {c : UInt8} (hc : c ∈ toBase64 data) : c ≤ 0x7F := by
  have hall : ∀ d ∈ base64Chars, d ≤ 0x7F := by decide +kernel
  obtain ⟨group, _, hgroup⟩ := List.mem_flatMap.mp hc
  obtain ⟨j, _, rfl⟩ := List.mem_map.mp hgroup
  split
  · exact hall _ (base64_symbol (Nat.mod_lt _ (by norm_num))).2.1
  · decide

theorem base64Index_padding : base64Index 61 = none := by decide

/-- The four symbols of a group of three bytes, two bytes and one byte. -/
theorem encodeGroup_three (a b c : UInt8) :
    encodeGroup [a, b, c] =
      [base64Chars.getD (a.toNat / 4) 0, base64Chars.getD (a.toNat % 4 * 16 + b.toNat / 16) 0,
        base64Chars.getD (b.toNat % 16 * 4 + c.toNat / 64) 0, base64Chars.getD (c.toNat % 64) 0] := by
  have ha := a.toNat_lt
  have hb := b.toNat_lt
  have hc := c.toNat_lt
  simp only [encodeGroup, List.foldl_cons, List.foldl_nil, List.length_cons, List.length_nil, List.range_succ,
    List.range_zero, List.map_cons, List.map_nil, List.nil_append, List.cons_append]
  norm_num
  refine ⟨?_, ?_, ?_, ?_⟩ <;> congr 2 <;> omega

theorem encodeGroup_two (a b : UInt8) :
    encodeGroup [a, b] =
      [base64Chars.getD (a.toNat / 4) 0, base64Chars.getD (a.toNat % 4 * 16 + b.toNat / 16) 0,
        base64Chars.getD (b.toNat % 16 * 4) 0, 61] := by
  have ha := a.toNat_lt
  have hb := b.toNat_lt
  simp only [encodeGroup, List.foldl_cons, List.foldl_nil, List.length_cons, List.length_nil, List.range_succ,
    List.range_zero, List.map_cons, List.map_nil, List.nil_append, List.cons_append]
  norm_num
  refine ⟨?_, ?_, ?_⟩ <;> congr 2 <;> omega

theorem encodeGroup_one (a : UInt8) :
    encodeGroup [a] = [base64Chars.getD (a.toNat / 4) 0, base64Chars.getD (a.toNat % 4 * 16) 0, 61, 61] := by
  have ha := a.toNat_lt
  simp only [encodeGroup, List.foldl_cons, List.foldl_nil, List.length_cons, List.length_nil, List.range_succ,
    List.range_zero, List.map_cons, List.map_nil, List.nil_append, List.cons_append]
  norm_num
  refine ⟨?_, ?_⟩ <;> congr 2 <;> omega

/-- A group is one, two or three bytes. -/
theorem group_cases {group : ByteString} (hpos : 0 < group.length) (hle : group.length ≤ 3) :
    (∃ a, group = [a]) ∨ (∃ a b, group = [a, b]) ∨ ∃ a b c, group = [a, b, c] := by
  match group, hpos, hle with
  | [a], _, _ => exact .inl ⟨a, rfl⟩
  | [a, b], _, _ => exact .inr (.inl ⟨a, b, rfl⟩)
  | [a, b, c], _, _ => exact .inr (.inr ⟨a, b, c, rfl⟩)
  | _ :: _ :: _ :: _ :: _, _, hle => simp at hle; omega

theorem ofNat_eq_byte {n : Nat} {a : UInt8} (h : n % 256 = a.toNat) : UInt8.ofNat n = a := by
  apply UInt8.toNat_inj.mp
  simpa using h

theorem decodeGroup_encodeGroup {group : ByteString} (hpos : 0 < group.length) (hle : group.length ≤ 3) :
    decodeGroup (encodeGroup group) = group := by
  rcases group_cases hpos hle with ⟨a, rfl⟩ | ⟨a, b, rfl⟩ | ⟨a, b, c, rfl⟩
  · have ha := a.toNat_lt
    rw [encodeGroup_one]
    simp only [decodeGroup, List.filterMap_cons, (base64_symbol (n := a.toNat / 4) (by omega)).1,
      (base64_symbol (n := a.toNat % 4 * 16) (by omega)).1, base64Index_padding, List.filterMap_nil]
    simp only [List.length_cons, List.length_nil, List.foldl_cons, List.foldl_nil, List.range_succ, List.range_zero,
      List.map_cons, List.map_nil, List.nil_append, List.cons.injEq, and_true]
    exact ofNat_eq_byte (by norm_num; omega)
  · have ha := a.toNat_lt
    have hb := b.toNat_lt
    rw [encodeGroup_two]
    simp only [decodeGroup, List.filterMap_cons, (base64_symbol (n := a.toNat / 4) (by omega)).1,
      (base64_symbol (n := a.toNat % 4 * 16 + b.toNat / 16) (by omega)).1,
      (base64_symbol (n := b.toNat % 16 * 4) (by omega)).1, base64Index_padding, List.filterMap_nil]
    simp only [List.length_cons, List.length_nil, List.foldl_cons, List.foldl_nil, List.range_succ, List.range_zero,
      List.map_cons, List.map_nil, List.nil_append, List.cons_append, List.cons.injEq, and_true]
    exact ⟨ofNat_eq_byte (by norm_num; omega), ofNat_eq_byte (by norm_num; omega)⟩
  · have ha := a.toNat_lt
    have hb := b.toNat_lt
    have hc := c.toNat_lt
    rw [encodeGroup_three]
    simp only [decodeGroup, List.filterMap_cons, (base64_symbol (n := a.toNat / 4) (by omega)).1,
      (base64_symbol (n := a.toNat % 4 * 16 + b.toNat / 16) (by omega)).1,
      (base64_symbol (n := b.toNat % 16 * 4 + c.toNat / 64) (by omega)).1,
      (base64_symbol (n := c.toNat % 64) (by omega)).1, List.filterMap_nil]
    simp only [List.length_cons, List.length_nil, List.foldl_cons, List.foldl_nil, List.range_succ, List.range_zero,
      List.map_cons, List.map_nil, List.nil_append, List.cons_append, List.cons.injEq, and_true]
    exact ⟨ofNat_eq_byte (by norm_num; omega), ofNat_eq_byte (by norm_num; omega), ofNat_eq_byte (by norm_num; omega)⟩

@[simp] theorem length_encodeGroup (group : ByteString) : (encodeGroup group).length = 4 := by
  simp [encodeGroup]

theorem toBase64_of_ne_nil {data : ByteString} (hdata : data ≠ []) :
    toBase64 data = encodeGroup (data.take 3) ++ toBase64 (data.drop 3) := by
  rw [toBase64, blocks_of_ne_nil (by omega) hdata, List.flatMap_cons]
  rfl

@[simp] theorem toBase64_nil : toBase64 [] = [] := by simp [toBase64]

theorem length_toBase64 (data : ByteString) : (toBase64 data).length = 4 * ((data.length + 2) / 3) := by
  rw [toBase64, List.length_flatMap]
  simp [List.map_const', Nat.mul_comm]

/-- Decoding what was encoded gives the bytes back. -/
theorem fromBase64_toBase64 (data : ByteString) : fromBase64 (toBase64 data) = data := by
  induction data using block_induction (show 0 < 3 by omega) with
  | nil => simp [fromBase64]
  | step data hdata ih =>
    have hpos := List.length_pos_of_ne_nil hdata
    rw [toBase64_of_ne_nil hdata, fromBase64, blocks_append (by omega) (length_encodeGroup _), List.flatMap_cons,
      decodeGroup_encodeGroup (by rw [List.length_take]; omega) (by rw [List.length_take]; omega)]
    rw [fromBase64] at ih
    rw [ih, List.take_append_drop]

/-- Symbols of the alphabet leave the strictness check where it was. -/
theorem strictFrom_symbol {n : Nat} (hn : n < 64) (s : ByteString) :
    strictFrom 0 (base64Chars.getD n 0 :: s) = strictFrom 0 s := by
  obtain ⟨_, hmem, hne⟩ := base64_symbol hn
  rw [strictFrom, if_neg hne, if_neg (by omega), if_pos hmem]

theorem strictFrom_encodeGroup {group rest : ByteString} (hpos : 0 < group.length) (hle : group.length ≤ 3)
    (hrest : strictFrom 0 rest = true) (hlast : group.length < 3 → rest = []) :
    strictFrom 0 (encodeGroup group ++ rest) = true := by
  rcases group_cases hpos hle with ⟨a, rfl⟩ | ⟨a, b, rfl⟩ | ⟨a, b, c, rfl⟩
  · have ha := a.toNat_lt
    rw [encodeGroup_one, hlast (by simp), List.append_nil, strictFrom_symbol (by omega), strictFrom_symbol (by omega)]
    rfl
  · have ha := a.toNat_lt
    have hb := b.toNat_lt
    rw [encodeGroup_two, hlast (by simp), List.append_nil, strictFrom_symbol (by omega), strictFrom_symbol (by omega),
      strictFrom_symbol (by omega)]
    rfl
  · have ha := a.toNat_lt
    have hb := b.toNat_lt
    have hc := c.toNat_lt
    rw [encodeGroup_three]
    simp only [List.cons_append, List.nil_append]
    rw [strictFrom_symbol (by omega), strictFrom_symbol (by omega), strictFrom_symbol (by omega),
      strictFrom_symbol (by omega), hrest]

/-- The encoder's output passes the strict check. -/
theorem isStrictBase64_toBase64 {data : ByteString} (hdata : data ≠ []) : isStrictBase64 (toBase64 data) = true := by
  have hstrict (data : ByteString) : strictFrom 0 (toBase64 data) = true := by
    induction data using block_induction (show 0 < 3 by omega) with
    | nil => rfl
    | step data hdata ih =>
      have hpos := List.length_pos_of_ne_nil hdata
      rw [toBase64_of_ne_nil hdata]
      refine strictFrom_encodeGroup (by rw [List.length_take]; omega) (by rw [List.length_take]; omega) ih fun hlt => ?_
      rw [List.length_take] at hlt
      rw [List.drop_eq_nil_of_le (by omega), toBase64_nil]
  have hlen := length_toBase64 data
  have hpos := List.length_pos_of_ne_nil hdata
  have hne : toBase64 data ≠ [] := List.ne_nil_of_length_pos (by omega)
  rw [isStrictBase64, if_neg (by push Not; exact ⟨hne, by omega⟩), hstrict]

/-- Compressing hexadecimal text and expanding it again changes nothing. -/
theorem base64ToHex_hexToBase64 (data : ByteString) :
    (hexToBase64 (toHexString data)).map base64ToHex = .ok (toHexString data) := by
  simp [hexToBase64, fromHexString_toHexString, base64ToHex, Except.map, fromBase64_toBase64]

end KnishIO
