import KnishIO.Molecule

open ByteString

namespace KnishIO

section Spelling

/-- The symbol whose unused bits are cleared, where it stands for the end of a single byte. -/
def clearUnused (symbol : UInt8) : UInt8 := base64Chars.getD ((base64Index symbol).getD 0 / 16 * 16) 0

theorem length_base64Chars : base64Chars.length = 64 := by decide

theorem base64Index_some {c : UInt8} (hc : c ∈ base64Chars) :
    ∃ n, base64Index c = some n ∧ n < 64 ∧ base64Chars.getD n 0 = c := by
  have hlt := List.idxOf_lt_length_of_mem hc
  refine ⟨base64Chars.idxOf c, if_pos hc, hlt.trans_eq length_base64Chars, ?_⟩
  rw [List.getD_eq_getElem?_getD, List.getElem?_eq_getElem hlt, Option.getD_some, List.getElem_idxOf]

/-- Four symbols are read as three bytes that are written with the same four symbols. -/
theorem encodeGroup_decodeGroup {a b c d : UInt8} (ha : a ∈ base64Chars) (hb : b ∈ base64Chars) (hc : c ∈ base64Chars)
    (hd : d ∈ base64Chars) :
    (decodeGroup [a, b, c, d]).length = 3 ∧ encodeGroup (decodeGroup [a, b, c, d]) = [a, b, c, d] := by
  obtain ⟨i, hi, hilt, rfl⟩ := base64Index_some ha
  obtain ⟨j, hj, hjlt, rfl⟩ := base64Index_some hb
  obtain ⟨k, hk, hklt, rfl⟩ := base64Index_some hc
  obtain ⟨l, hl, hllt, rfl⟩ := base64Index_some hd
  have hdecode : decodeGroup [base64Chars.getD i 0, base64Chars.getD j 0, base64Chars.getD k 0, base64Chars.getD l 0] =
      [UInt8.ofNat (i * 4 + j / 16), UInt8.ofNat (j % 16 * 16 + k / 4), UInt8.ofNat (k % 4 * 64 + l)] := by
    simp only [decodeGroup, List.filterMap_cons, hi, hj, hk, hl, List.filterMap_nil]
    simp only [List.length_cons, List.length_nil, List.foldl_cons, List.foldl_nil, List.range_succ, List.range_zero,
      List.map_cons, List.map_nil, List.nil_append, List.cons_append, List.cons.injEq, and_true]
    refine ⟨?_, ?_, ?_⟩
    · exact ofNat_eq_byte (by rw [UInt8.toNat_ofNat']; norm_num; omega)
    · exact ofNat_eq_byte (by rw [UInt8.toNat_ofNat']; norm_num; omega)
    · exact ofNat_eq_byte (by rw [UInt8.toNat_ofNat']; norm_num; omega)
  have hbyte {n : Nat} (hn : n < 256) : (UInt8.ofNat n).toNat = n := UInt8.toNat_ofNat_of_lt' (by simpa [UInt8.size] using hn)
  rw [hdecode]
  refine ⟨rfl, ?_⟩
  rw [encodeGroup_three, hbyte (by omega), hbyte (by omega), hbyte (by omega)]
  have hsymbol {x y : Nat} (h : x = y) : base64Chars.getD x 0 = base64Chars.getD y 0 := h ▸ rfl
  simp only [List.cons.injEq, and_true]
  exact ⟨hsymbol (by omega), hsymbol (by omega), hsymbol (by omega), hsymbol (by omega)⟩

/-- Two symbols and two pads are read as one byte, which forgets the low bits of the second symbol. -/
theorem encodeGroup_decodeGroup_two {a b : UInt8} (ha : a ∈ base64Chars) (hb : b ∈ base64Chars) :
    (decodeGroup [a, b, 61, 61]).length = 1 ∧ encodeGroup (decodeGroup [a, b, 61, 61]) = [a, clearUnused b, 61, 61] := by
  obtain ⟨i, hi, hilt, rfl⟩ := base64Index_some ha
  obtain ⟨j, hj, hjlt, rfl⟩ := base64Index_some hb
  have hdecode : decodeGroup [base64Chars.getD i 0, base64Chars.getD j 0, 61, 61] = [UInt8.ofNat (i * 4 + j / 16)] := by
    simp only [decodeGroup, List.filterMap_cons, hi, hj, base64Index_padding, List.filterMap_nil]
    simp only [List.length_cons, List.length_nil, List.foldl_cons, List.foldl_nil, List.range_succ, List.range_zero,
      List.map_cons, List.map_nil, List.nil_append, List.cons.injEq, and_true]
    exact ofNat_eq_byte (by rw [UInt8.toNat_ofNat']; norm_num; omega)
  have hbyte : (UInt8.ofNat (i * 4 + j / 16)).toNat = i * 4 + j / 16 :=
    UInt8.toNat_ofNat_of_lt' (by simp [UInt8.size]; omega)
  rw [hdecode]
  refine ⟨rfl, ?_⟩
  rw [encodeGroup_one, hbyte, clearUnused, hj, Option.getD_some]
  have hsymbol {x y : Nat} (h : x = y) : base64Chars.getD x 0 = base64Chars.getD y 0 := h ▸ rfl
  simp only [List.cons.injEq, and_true]
  exact ⟨hsymbol (by omega), hsymbol (by omega)⟩

/-- Three symbols and a pad are read as two bytes. -/
theorem length_decodeGroup_three {a b c : UInt8} (ha : a ∈ base64Chars) (hb : b ∈ base64Chars) (hc : c ∈ base64Chars) :
    (decodeGroup [a, b, c, 61]).length = 2 := by
  obtain ⟨i, hi, -⟩ := base64Index_some ha
  obtain ⟨j, hj, -⟩ := base64Index_some hb
  obtain ⟨k, hk, -⟩ := base64Index_some hc
  simp [decodeGroup, hi, hj, hk, base64Index_padding]

/-- What the strict check lets through: symbols, and behind them at most two pads. -/
theorem strictFrom_padded {padding : Nat} (hpadding : 0 < padding) {s : ByteString} (h : strictFrom padding s = true) :
    s = List.replicate s.length 61 ∧ padding + s.length ≤ 2 := by
  induction s generalizing padding with
  | nil => simpa [strictFrom] using h
  | cons c s ih =>
    rw [strictFrom] at h
    split_ifs at h with hpad
    · obtain ⟨hs, hle⟩ := ih (by omega) h
      rw [List.length_cons, List.replicate_succ, ← hs, hpad]
      exact ⟨rfl, by omega⟩

theorem strictFrom_cons {c : UInt8} {s : ByteString} (h : strictFrom 0 (c :: s) = true) :
    (c ∈ base64Chars ∧ strictFrom 0 s = true) ∨ (c = 61 ∧ s = List.replicate s.length 61 ∧ s.length ≤ 1) := by
  rw [strictFrom] at h
  split_ifs at h with hpad _ hmem
  · obtain ⟨hs, hle⟩ := strictFrom_padded (by omega) h
    exact .inr ⟨hpad, hs, by omega⟩
  · exact .inl ⟨hmem, h⟩

/-- A strict text is empty or starts with a group of four symbols, or is a last group with one or two pads. -/
theorem strict_cases {s : ByteString} (hlength : s.length % 4 = 0) (h : strictFrom 0 s = true) :
    s = [] ∨ (∃ a ∈ base64Chars, ∃ b ∈ base64Chars, ∃ c ∈ base64Chars, ∃ d ∈ base64Chars, ∃ rest,
      s = [a, b, c, d] ++ rest ∧ strictFrom 0 rest = true) ∨
    (∃ a ∈ base64Chars, ∃ b ∈ base64Chars, ∃ c ∈ base64Chars, s = [a, b, c, 61]) ∨
    ∃ a ∈ base64Chars, ∃ b ∈ base64Chars, s = [a, b, 61, 61] := by
  match s, hlength, h with
  | [], _, _ => exact .inl rfl
  | [_], hlength, _ => simp at hlength
  | [_, _], hlength, _ => simp at hlength
  | [_, _, _], hlength, _ => simp at hlength
  | a :: b :: c :: d :: rest, hlength, h =>
    -- a pad can only stand in the third or fourth place, with at most one more pad behind it
    obtain ⟨ha, h⟩ | ⟨-, -, hshort⟩ := strictFrom_cons h
    swap
    · simp at hshort
    obtain ⟨hb, h⟩ | ⟨-, -, hshort⟩ := strictFrom_cons h
    swap
    · simp at hshort
    obtain ⟨hc, h⟩ | ⟨rfl, hpads, hshort⟩ := strictFrom_cons h
    swap
    · simp only [List.length_cons] at hshort hpads
      obtain rfl : rest = [] := List.eq_nil_of_length_eq_zero (by omega)
      obtain rfl : d = 61 := by simpa using hpads
      exact .inr (.inr (.inr ⟨a, ha, b, hb, rfl⟩))
    obtain ⟨hd, h⟩ | ⟨rfl, -, hshort⟩ := strictFrom_cons h
    swap
    · simp only [List.length_cons] at hlength
      obtain rfl : rest = [] := List.eq_nil_of_length_eq_zero (by omega)
      exact .inr (.inr (.inl ⟨a, ha, b, hb, c, hc, rfl⟩))
    exact .inr (.inl ⟨a, ha, b, hb, c, hc, d, hd, rest, rfl, h⟩)

theorem fromBase64_group (group : ByteString) (hgroup : group.length = 4) (rest : ByteString) :
    fromBase64 (group ++ rest) = decodeGroup group ++ fromBase64 rest := by
  rw [fromBase64, blocks_append (by omega) hgroup, List.flatMap_cons, fromBase64]

theorem toBase64_group {group : ByteString} (hgroup : group.length = 3) (rest : ByteString) :
    toBase64 (group ++ rest) = encodeGroup group ++ toBase64 rest := by
  rw [toBase64, blocks_append (by omega) hgroup, List.flatMap_cons, toBase64]

/-- A strict text of one byte more than a multiple of three ends in two pads, and writing what it is read as clears the
unused bits of the symbol before them. -/
theorem toBase64_fromBase64 {s : ByteString} (hlength : s.length % 4 = 0) (hstrict : strictFrom 0 s = true)
    (hbytes : (fromBase64 s).length % 3 = 1) :
    ∃ front last, last ∈ base64Chars ∧ s = front ++ [last, 61, 61] ∧
      toBase64 (fromBase64 s) = front ++ [clearUnused last, 61, 61] := by
  induction hn : s.length using Nat.strong_induction_on generalizing s with
  | _ n ih =>
    obtain rfl | ⟨a, ha, b, hb, c, hc, d, hd, rest, rfl, hrest⟩ | ⟨a, ha, b, hb, c, hc, rfl⟩ | ⟨a, ha, b, hb, rfl⟩ :=
      strict_cases hlength hstrict
    · simp [fromBase64] at hbytes
    · obtain ⟨hthree, hback⟩ := encodeGroup_decodeGroup ha hb hc hd
      rw [fromBase64_group _ rfl] at hbytes ⊢
      rw [List.length_append] at hlength hn hbytes
      rw [hthree] at hbytes
      simp only [List.length_cons, List.length_nil] at hlength hn
      obtain ⟨front, last, hlast, rfl, hwritten⟩ := ih rest.length (by omega) (by omega) hrest (by omega) rfl
      refine ⟨[a, b, c, d] ++ front, last, hlast, by rw [List.append_assoc], ?_⟩
      rw [toBase64_group hthree, hback, hwritten, List.append_assoc]
    · have hread := fromBase64_group [a, b, c, 61] rfl []
      rw [List.append_nil, show fromBase64 [] = [] from rfl, List.append_nil] at hread
      rw [hread, length_decodeGroup_three ha hb hc] at hbytes
      omega
    · obtain ⟨hone, hback⟩ := encodeGroup_decodeGroup_two ha hb
      have hread := fromBase64_group [a, b, 61, 61] rfl []
      rw [List.append_nil, show fromBase64 [] = [] from rfl, List.append_nil] at hread
      refine ⟨[a], b, hb, rfl, ?_⟩
      rw [hread, toBase64_of_ne_nil (List.ne_nil_of_length_pos (by omega)), List.take_of_length_le (by omega),
        List.drop_eq_nil_of_le (by omega), toBase64_nil, List.append_nil, hback]
      rfl

theorem padding_not_symbol : (61 : UInt8) ∉ base64Chars := by
  intro h
  obtain ⟨n, hn, -⟩ := base64Index_some h
  rw [base64Index_padding] at hn
  cases hn

/-- In front of a symbol there are only symbols. -/
theorem symbols_of_strictFrom {front rest : ByteString} {last : UInt8} (hlast : last ∈ base64Chars)
    (h : strictFrom 0 (front ++ last :: rest) = true) : ∀ c ∈ front, c ∈ base64Chars := by
  induction front with
  | nil => simp
  | cons c front ih =>
    obtain ⟨hc, h⟩ | ⟨-, hpads, -⟩ := strictFrom_cons h
    · exact List.forall_mem_cons.mpr ⟨hc, ih h⟩
    · have hpad : last = 61 := by
        have hmem : last ∈ front.append (last :: rest) := List.mem_append_right front List.mem_cons_self
        rw [hpads] at hmem
        exact List.eq_of_mem_replicate hmem
      exact absurd (hpad ▸ hlast) padding_not_symbol

theorem strictFrom_symbols {front : ByteString} (hfront : ∀ c ∈ front, c ∈ base64Chars) (rest : ByteString) :
    strictFrom 0 (front ++ rest) = strictFrom 0 rest := by
  induction front with
  | nil => rfl
  | cons c front ih =>
    obtain ⟨hc, hfront⟩ := List.forall_mem_cons.mp hfront
    have hne : c ≠ 61 := by
      rintro rfl
      exact padding_not_symbol hc
    rw [List.cons_append, strictFrom, if_neg hne, if_neg (by omega), if_pos hc, ih hfront]

/-- The symbols that differ from one in the unused bits only. -/
def respellings (symbol : UInt8) : ByteString := base64Chars.filter fun other => clearUnused other = clearUnused symbol

theorem sixteen_respellings {symbol : UInt8} (hsymbol : symbol ∈ base64Chars) :
    (respellings symbol).length = 16 ∧ (respellings symbol).Nodup := by
  have hall : ∀ c ∈ base64Chars, (respellings c).length = 16 := by decide +kernel
  have hnodup : base64Chars.Nodup := by decide +kernel
  exact ⟨hall symbol hsymbol, hnodup.filter _⟩

/-- Another last symbol leaves a text strict. -/
theorem strict_respelled {front : ByteString} {last other : UInt8} (hlast : last ∈ base64Chars) (hother : other ∈ base64Chars)
    (h : isStrictBase64 (front ++ [last, 61, 61]) = true) : isStrictBase64 (front ++ [other, 61, 61]) = true := by
  rw [isStrictBase64] at h ⊢
  split_ifs at h with hcut
  have hcut' : ¬ (front ++ [other, 61, 61] = [] ∨ (front ++ [other, 61, 61]).length % 4 ≠ 0) := by simpa using hcut
  rw [if_neg hcut', strictFrom_symbols (symbols_of_strictFrom hlast h)]
  exact strictFrom_symbols (List.forall_mem_singleton.mpr hother) [61, 61]

/-- The unused bits of the last symbol are not read. -/
theorem fromBase64_respelled {front : ByteString} {a b : UInt8} (hlength : front.length % 4 = 1) (ha : a ∈ base64Chars)
    (hb : b ∈ base64Chars) (hfront : ∀ c ∈ front, c ∈ base64Chars) (hclear : clearUnused a = clearUnused b) :
    fromBase64 (front ++ [a, 61, 61]) = fromBase64 (front ++ [b, 61, 61]) := by
  induction hn : front.length using Nat.strong_induction_on generalizing front with
  | _ n ih =>
    match front, hlength, hfront, hn with
    | [], hlength, _, _ => simp at hlength
    | [x], _, hfront, _ =>
      have hx := hfront x (by simp)
      have hread (c : UInt8) : fromBase64 ([x] ++ [c, 61, 61]) = decodeGroup [x, c, 61, 61] := by
        have := fromBase64_group [x, c, 61, 61] rfl []
        rwa [List.append_nil, show fromBase64 [] = [] from rfl, List.append_nil] at this
      obtain ⟨hone, hwritten⟩ := encodeGroup_decodeGroup_two hx ha
      obtain ⟨hone', hwritten'⟩ := encodeGroup_decodeGroup_two hx hb
      rw [hread, hread, ← @decodeGroup_encodeGroup (decodeGroup [x, a, 61, 61]) (by omega) (by omega), hwritten, hclear,
        ← hwritten', decodeGroup_encodeGroup (by omega) (by omega)]
    | [_, _], hlength, _, _ => simp at hlength
    | [_, _, _], hlength, _, _ => simp at hlength
    | x :: y :: z :: u :: front, hlength, hfront, hn =>
      simp only [List.length_cons] at hlength hn
      have hrest := @ih front.length (by omega) front (by omega) (fun c hc => hfront c (by simp [hc])) rfl
      have hread (c : UInt8) : fromBase64 (x :: y :: z :: u :: front ++ [c, 61, 61]) =
          decodeGroup [x, y, z, u] ++ fromBase64 (front ++ [c, 61, 61]) :=
        fromBase64_group [x, y, z, u] rfl _
      rw [hread, hread, hrest]

end Spelling

namespace Molecule

/-- The verdict on a signature depends on what it decodes to. -/
theorem verifyOts_congr (H : Shake256) {m m' : Molecule} (hhash : m'.molecularHash = m.molecularHash)
    (haddress : m'.atoms.head?.map (·.walletAddress) = m.atoms.head?.map (·.walletAddress))
    (hots : decodeOts m'.carriedOts = decodeOts m.carriedOts) : verifyOts H m' = verifyOts H m := by
  rw [verifyOts, verifyOts]
  cases hatoms : m.atoms with
  | nil =>
    rw [hatoms] at haddress
    cases hatoms' : m'.atoms with
    | nil => rfl
    | cons front' rest' => simp [hatoms'] at haddress
  | cons front rest =>
    rw [hatoms] at haddress
    cases hatoms' : m'.atoms with
    | nil => simp [hatoms'] at haddress
    | cons front' rest' =>
      have hfront : front'.walletAddress = front.walletAddress := by simpa [hatoms'] using haddress
      simp only [hhash, hots, hfront]

/-- A base64 signature has sixteen spellings, which differ in the unused bits of the symbol before the padding: all
of them are strict, written back it has those bits cleared, the strict texts that decode alike are those spellings,
and the verdict on them is the same. -/
theorem signature_spellings {s : ByteString} (hstrict : isStrictBase64 s = true)
    (hsize : (fromBase64 s).length = 1024 ∨ (fromBase64 s).length = 4096) :
    ∃ front last, last ∈ base64Chars ∧ s = front ++ [last, 61, 61] ∧
      toBase64 (fromBase64 s) = front ++ [clearUnused last, 61, 61] ∧
      (respellings last).length = 16 ∧ (respellings last).Nodup ∧
      (∀ other ∈ respellings last, isStrictBase64 (front ++ [other, 61, 61]) = true) ∧
      ∀ t, isStrictBase64 t = true →
        (fromBase64 t = fromBase64 s ↔
          ∃ other ∈ base64Chars, t = front ++ [other, 61, 61] ∧ clearUnused other = clearUnused last) ∧
        (fromBase64 t = fromBase64 s → ∀ (H : Shake256) (m m' : Molecule), m.carriedOts = s → m'.carriedOts = t →
          m'.molecularHash = m.molecularHash →
          m'.atoms.head?.map (·.walletAddress) = m.atoms.head?.map (·.walletAddress) →
          verifyOts H m' = verifyOts H m) := by
  have hparts {t : ByteString} (h : isStrictBase64 t = true) : t.length % 4 = 0 ∧ strictFrom 0 t = true := by
    rw [isStrictBase64] at h
    split_ifs at h with hcut
    exact ⟨by omega, h⟩
  obtain ⟨hlength, hfrom⟩ := hparts hstrict
  obtain ⟨front, last, hlast, rfl, hwritten⟩ := toBase64_fromBase64 hlength hfrom (by omega)
  have hspelling : ∀ t, isStrictBase64 t = true → (fromBase64 t = fromBase64 (front ++ [last, 61, 61]) ↔
      ∃ other ∈ base64Chars, t = front ++ [other, 61, 61] ∧ clearUnused other = clearUnused last) := by
    intro t ht
    constructor
    · intro heq
      obtain ⟨hlength', hfrom'⟩ := hparts ht
      obtain ⟨front', other, hother, rfl, hwritten'⟩ := toBase64_fromBase64 hlength' hfrom' (by rw [heq]; omega)
      rw [heq, hwritten] at hwritten'
      obtain ⟨rfl, hends⟩ := List.append_inj' hwritten' rfl
      exact ⟨other, hother, rfl, (List.cons.inj hends).1.symm⟩
    · rintro ⟨other, hother, rfl, hclear⟩
      rw [List.length_append] at hlength
      exact fromBase64_respelled (by simp at hlength; omega) hother hlast (symbols_of_strictFrom hlast hfrom) hclear
  obtain ⟨hsixteen, hnodup⟩ := sixteen_respellings hlast
  refine ⟨front, last, hlast, rfl, hwritten, hsixteen, hnodup, fun other hother => ?_, fun t ht =>
    ⟨hspelling t ht, fun heq H m m' hm hm' hhash haddress => ?_⟩⟩
  · exact strict_respelled hlast (List.mem_filter.mp hother).1 hstrict
  refine verifyOts_congr H hhash haddress ?_
  obtain ⟨other, -, rfl, -⟩ := (hspelling t ht).mp heq
  have hwrittenLength := congrArg List.length hwritten
  rw [length_toBase64, List.length_append] at hwrittenLength
  simp only [List.length_cons, List.length_nil] at hwrittenLength
  -- texts of this length are not taken for hexadecimal
  have hdecode {text : ByteString} (htext : text.length = front.length + 3) (hs : isStrictBase64 text = true) :
      decodeOts text = if (base64ToHex text).length = 2048 ∨ (base64ToHex text).length = 8192 then .ok (base64ToHex text)
        else .error .signatureMalformed := by
    rw [decodeOts, if_neg (by omega), hs]
    rfl
  rw [hm, hm', hdecode (by simp) hstrict, hdecode (by simp) ht, base64ToHex, base64ToHex, heq]

/-- The sixteen spellings of a signature of zeros. -/
theorem signature_spellings_zeros :
    ∃ front last, toBase64 (List.replicate 1024 0) = front ++ [last, 61, 61] ∧ (respellings last).length = 16 ∧
      ∀ other ∈ respellings last, isStrictBase64 (front ++ [other, 61, 61]) = true ∧
        fromBase64 (front ++ [other, 61, 61]) = List.replicate 1024 0 := by
  have hne : (List.replicate 1024 0 : ByteString) ≠ [] := List.ne_nil_of_length_pos (by rw [List.length_replicate]; norm_num)
  obtain ⟨front, last, -, hs, -, hsixteen, -, hstrict, hspellings⟩ := signature_spellings (isStrictBase64_toBase64 hne)
    (.inl (by rw [fromBase64_toBase64, List.length_replicate]))
  refine ⟨front, last, hs, hsixteen, fun other hother => ⟨hstrict other hother, ?_⟩⟩
  obtain ⟨hmem, hclear⟩ := List.mem_filter.mp hother
  have hread := (hspellings _ (hstrict other hother)).1.mpr ⟨other, hmem, rfl, by simpa using hclear⟩
  rwa [fromBase64_toBase64] at hread

section Example

/-- Zeros, with a last symbol before the padding. -/
def zeroSpelling (last : UInt8) : ByteString := List.replicate 1365 65 ++ [last, 61, 61]

theorem toBase64_zeros (k : Nat) : toBase64 (List.replicate (3 * k + 1) 0) = List.replicate (4 * k + 1) 65 ++ [65, 61, 61] := by
  induction k with
  | zero => decide
  | succ k ih =>
    have hzeros : (List.replicate (3 * (k + 1) + 1) 0 : ByteString) = [0, 0, 0] ++ List.replicate (3 * k + 1) 0 := by
      rw [show 3 * (k + 1) + 1 = 3 + (3 * k + 1) by omega, List.replicate_add]
      rfl
    have hsymbols : (List.replicate (4 * (k + 1) + 1) 65 : ByteString) = [65, 65, 65, 65] ++ List.replicate (4 * k + 1) 65 := by
      rw [show 4 * (k + 1) + 1 = 4 + (4 * k + 1) by omega, List.replicate_add]
      rfl
    have hgroup : encodeGroup [0, 0, 0] = [65, 65, 65, 65] := by decide
    rw [hzeros, toBase64_group rfl, hgroup, ih, hsymbols, List.append_assoc]

theorem fromBase64_zeroSpelling {last : UInt8} (hlast : last ∈ base64Chars) (hclear : clearUnused last = clearUnused 65) :
    fromBase64 (zeroSpelling last) = List.replicate 1024 0 := by
  have hsymbols : ∀ c ∈ List.replicate 1365 (65 : UInt8), c ∈ base64Chars := fun c hc => by
    rw [List.eq_of_mem_replicate hc]
    decide
  have hwritten : toBase64 (List.replicate 1024 0) = zeroSpelling 65 := toBase64_zeros 341
  rw [zeroSpelling, fromBase64_respelled (by rw [List.length_replicate]) hlast (by decide) hsymbols hclear,
    ← fromBase64_toBase64 (List.replicate 1024 0), hwritten, zeroSpelling]

theorem length_zeroSpelling (last : UInt8) : (zeroSpelling last).length = 1368 := by
  rw [zeroSpelling, List.length_append, List.length_replicate]
  rfl

theorem isStrictBase64_zeroSpelling {last : UInt8} (hlast : last ∈ base64Chars) : isStrictBase64 (zeroSpelling last) = true := by
  have hsymbols : ∀ c ∈ List.replicate 1365 (65 : UInt8) ++ [last], c ∈ base64Chars := fun c hc => by
    obtain hc | hc := List.mem_append.mp hc
    · rw [List.eq_of_mem_replicate hc]
      decide
    · exact List.mem_singleton.mp hc ▸ hlast
  have hlength := length_zeroSpelling last
  have hsplit : zeroSpelling last = (List.replicate 1365 65 ++ [last]) ++ [61, 61] := by
    rw [zeroSpelling, List.append_assoc]
    rfl
  have hnil : zeroSpelling last ≠ [] := List.ne_nil_of_length_pos (by omega)
  have hgroups : ¬ (zeroSpelling last = [] ∨ (zeroSpelling last).length % 4 ≠ 0) := by
    simp [hnil, hlength]
  rw [isStrictBase64, if_neg hgroups, hsplit, strictFrom_symbols hsymbols]
  rfl

/-- A molecule with that signature, at the address that every signature leads to under this hash. -/
def spelledMolecule (last : UInt8) : Molecule where
  molecularHash := List.replicate 64 56
  atoms := [{
    position := ascii "0a", walletAddress := shake256Hex (.constant 0) [] 256, isotope := ascii "M"
    token := ascii "USER", otsFragment := zeroSpelling last, createdAt := 0 }]
  createdAt := 0

theorem verifyOts_spelledMolecule {last : UInt8} (hlast : last ∈ base64Chars) (hclear : clearUnused last = clearUnused 65) :
    verifyOts (.constant 0) (spelledMolecule last) = .ok () := by
  have hsignable : WalletCrypto.isSignableHash (spelledMolecule last).molecularHash = true := by
    show WalletCrypto.isSignableHash (List.replicate 64 56) = true
    decide
  have hcarried : (spelledMolecule last).carriedOts = zeroSpelling last := List.append_nil _
  have hlength := length_zeroSpelling last
  have hdecode : decodeOts (spelledMolecule last).carriedOts = .ok (toHexString (List.replicate 1024 0)) := by
    rw [hcarried, decodeOts, if_neg (by omega), isStrictBase64_zeroSpelling hlast, base64ToHex,
      fromBase64_zeroSpelling hlast hclear, if_neg (by simp), if_pos (.inl (by rw [length_toHexString, List.length_replicate]))]
  exact verifyOts_of_decoded rfl hsignable hdecode rfl

/-- Two texts that differ in the unused bits are one signature, and both are accepted. -/
theorem signature_respelled :
    isStrictBase64 (zeroSpelling 66) = true ∧ (fromBase64 (zeroSpelling 66)).length = 1024 ∧
    toBase64 (fromBase64 (zeroSpelling 66)) ≠ zeroSpelling 66 ∧ zeroSpelling 65 ≠ zeroSpelling 66 ∧
    fromBase64 (zeroSpelling 65) = fromBase64 (zeroSpelling 66) ∧
    verifyOts (.constant 0) (spelledMolecule 65) = .ok () ∧ verifyOts (.constant 0) (spelledMolecule 66) = .ok () := by
  have hclear : clearUnused 66 = clearUnused 65 := by decide
  have h65 : (65 : UInt8) ∈ base64Chars := by decide
  have h66 : (66 : UInt8) ∈ base64Chars := by decide
  have hne : zeroSpelling 65 ≠ zeroSpelling 66 := by
    intro heq
    have := List.append_cancel_left heq
    exact absurd this (by decide)
  have hread := fromBase64_zeroSpelling h66 hclear
  refine ⟨isStrictBase64_zeroSpelling h66, by rw [hread, List.length_replicate], ?_, hne, ?_,
    verifyOts_spelledMolecule h65 rfl, verifyOts_spelledMolecule h66 hclear⟩
  · rw [hread, show toBase64 (List.replicate 1024 0) = zeroSpelling 65 from toBase64_zeros 341]
    exact hne
  · rw [hread, fromBase64_zeroSpelling h65 rfl]

end Example

end Molecule

end KnishIO
