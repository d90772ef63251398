import KnishIO.Library.Json.Parse

open ByteString

namespace Json

/-- What follows a value in a text: nothing, or a byte that no number token extends over. -/
def Stops (rest : ByteString) : Prop :=
  ∀ c t, rest = c :: t → Decimal.isDigit c = false ∧ c ≠ 46 ∧ c ≠ 101 ∧ c ≠ 69

theorem stops_nil : Stops [] := by
  intro c t h
  cases h

theorem stops_cons {c : UInt8} {t : ByteString} (hc : c = 44 ∨ c = 93 ∨ c = 125) : Stops (c :: t) := by
  intro d u h
  obtain ⟨rfl, rfl⟩ := List.cons.inj h
  rcases hc with rfl | rfl | rfl <;> decide

theorem skipWs_cons {c : UInt8} {s : ByteString} (hc : isWs c = false) : skipWs (c :: s) = c :: s := by
  simp [skipWs, hc]

section Strings

theorem hexValue_hexDigit {n : Nat} (hn : n < 16) : hexValue (hexDigit n) = some n := by
  interval_cases n <;> decide

theorem unescape_control {b : UInt8} (hb : b < 32) (tail : ByteString) :
    unescape (117 :: 48 :: 48 :: hexDigit (b.toNat / 16) :: hexDigit (b.toNat % 16) :: tail) = some ([b], tail) := by
  have hlt : b.toNat < 32 := by simpa [UInt8.lt_iff_toNat_lt] using hb
  have hzero : hexValue 48 = some 0 := by decide
  have hhigh := hexValue_hexDigit (n := b.toNat / 16) (by omega)
  have hlow := hexValue_hexDigit (n := b.toNat % 16) (by omega)
  have hcode : ((0 * 16 + 0) * 16 + b.toNat / 16) * 16 + b.toNat % 16 = b.toNat := by omega
  have hplain : ¬ (0xD800 ≤ b.toNat ∧ b.toNat ≤ 0xDBFF) := by omega
  have hplain' : ¬ (0xDC00 ≤ b.toNat ∧ b.toNat ≤ 0xDFFF) := by omega
  have hascii : b.toNat < 0x80 := by omega
  simp [unescape, hex4, hzero, hhigh, hlow, hplain, hplain', encodeUtf8, hascii,
    show b.toNat / 16 * 16 + b.toNat % 16 = b.toNat by omega]

/-- One written byte is read back in one round. -/
theorem scanString_escapeByte {q q' : Utf8.State} {b : UInt8} (hstep : Utf8.step q b = some q') (n : Nat)
    (tail : ByteString) :
    scanString (n + 1) q (escapeByte b ++ tail) = (scanString n q' tail).map fun r => (b :: r.1, r.2) := by
  by_cases hq : q = .start
  · subst hq
    have escaped (e : UInt8) (rest : ByteString) (hb : escapeByte b ++ tail = 92 :: e :: rest)
        (hun : unescape (e :: rest) = some ([b], tail)) (hascii : b ≤ 0x7F) :
        scanString (n + 1) .start (escapeByte b ++ tail) = (scanString n q' tail).map fun r => (b :: r.1, r.2) := by
      have hstart : q' = .start := by
        rw [Utf8.step_ascii hascii] at hstep
        exact (Option.some.inj hstep).symm
      rw [hb, hstart]
      simp [scanString, hun]
    by_cases h34 : b = 34
    · subst h34
      exact escaped 34 tail rfl (by simp [unescape]) (by decide)
    by_cases h92 : b = 92
    · subst h92
      exact escaped 92 tail rfl (by simp [unescape]) (by decide)
    by_cases h8 : b = 8
    · subst h8
      exact escaped 98 tail rfl (by simp [unescape]) (by decide)
    by_cases h9 : b = 9
    · subst h9
      exact escaped 116 tail rfl (by simp [unescape]) (by decide)
    by_cases h10 : b = 10
    · subst h10
      exact escaped 110 tail rfl (by simp [unescape]) (by decide)
    by_cases h12 : b = 12
    · subst h12
      exact escaped 102 tail rfl (by simp [unescape]) (by decide)
    by_cases h13 : b = 13
    · subst h13
      exact escaped 114 tail rfl (by simp [unescape]) (by decide)
    by_cases hctl : b < 32
    · refine escaped 117 (48 :: 48 :: hexDigit (b.toNat / 16) :: hexDigit (b.toNat % 16) :: tail) ?_
        (unescape_control hctl tail) ?_
      · simp [escapeByte, h34, h92, h8, h9, h10, h12, h13, hctl]
      · exact UInt8.le_of_lt (UInt8.lt_trans hctl (by decide))
    · have hbyte : escapeByte b = [b] := by
        simp [escapeByte, h34, h92, h8, h9, h10, h12, h13, hctl]
      rw [hbyte, List.singleton_append]
      simp [scanString, h34, h92, hctl, hstep]
  · have hhigh := Utf8.high_of_step hq hstep
    have ne_of_low (c : UInt8) (hc : c < 0x80) : b ≠ c := fun h => by
      subst h
      exact absurd hhigh (UInt8.not_le.mpr hc)
    have hctl : ¬ b < 32 := fun h => absurd hhigh (UInt8.not_le.mpr (UInt8.lt_trans h (by decide)))
    have hbyte : escapeByte b = [b] := by
      simp [escapeByte, ne_of_low 34 (by decide), ne_of_low 92 (by decide), ne_of_low 8 (by decide),
        ne_of_low 9 (by decide), ne_of_low 10 (by decide), ne_of_low 12 (by decide), ne_of_low 13 (by decide), hctl]
    rw [hbyte, List.singleton_append]
    simp [scanString, hq, hctl, hstep]

theorem scanString_escape {q : Utf8.State} {s : ByteString} (hs : Utf8.validFrom q s = true) {n : Nat}
    (hn : s.length < n) (rest : ByteString) :
    scanString n q (escape s ++ 34 :: rest) = some (s, rest) := by
  induction s generalizing q n with
  | nil =>
    obtain ⟨k, rfl⟩ : ∃ k, n = k + 1 := ⟨n - 1, by simp at hn; omega⟩
    have hq : q = .start := by simpa [Utf8.validFrom] using hs
    simp [scanString, hq]
  | cons b s ih =>
    obtain ⟨k, rfl⟩ : ∃ k, n = k + 1 := ⟨n - 1, by simp at hn; omega⟩
    rw [Utf8.validFrom_cons] at hs
    cases hstep : Utf8.step q b with
    | none => simp [hstep] at hs
    | some q' =>
      simp only [hstep] at hs
      rw [escape_cons, List.append_assoc, scanString_escapeByte hstep,
        ih hs (by simp at hn; omega)]
      rfl

theorem length_le_length_escape (s : ByteString) : s.length ≤ (escape s).length := by
  induction s with
  | nil => simp
  | cons b s ih =>
    have hbyte : 1 ≤ (escapeByte b).length := by
      unfold escapeByte
      split_ifs <;> simp
    simp only [escape_cons, List.length_append, List.length_cons]
    omega

theorem length_lt_length_text_str (s : ByteString) : s.length < (Json.str s).text.length := by
  have := length_le_length_escape s
  simp only [text, quote, List.length_cons, List.length_append]
  omega

theorem length_text_le_of_lookup {ms : List (ByteString × Json)} {key : ByteString} {value : Json}
    (h : lookup key ms = some value) : value.text.length ≤ (textMembers ms).length := by
  induction ms with
  | nil => cases h
  | cons m ms ih =>
    obtain ⟨k, v⟩ := m
    rw [lookup] at h
    split at h
    · obtain rfl := Option.some.inj h
      cases ms <;>
      · simp only [textMembers, List.length_append, List.length_cons]
        omega
    · have hrest := ih h
      cases ms with
      | nil => cases h
      | cons m ms =>
        simp only [textMembers, List.length_append, List.length_cons] at hrest ⊢
        omega

/-- A member is written within its object. -/
theorem length_text_lt_of_find? {j value : Json} {key : ByteString} (h : j.find? key = some value) :
    value.text.length < j.text.length := by
  cases j with
  | obj ms =>
    have := length_text_le_of_lookup h
    simp only [text, List.length_cons, List.length_append]
    omega
  | _ => cases h

/-- A written string literal is read back whatever follows it. -/
theorem scanString_quote {s : ByteString} (hs : Utf8.valid s = true) (rest : ByteString) :
    scanString ((escape s ++ 34 :: rest).length + 1) .start (escape s ++ 34 :: rest) = some (s, rest) := by
  have hlen := length_le_length_escape s
  exact scanString_escape hs (by simp; omega) rest

end Strings

section Numbers

theorem scanMinus_digit {c : UInt8} {s : ByteString} (hc : Decimal.isDigit c = true) :
    scanMinus (c :: s) = ([], c :: s) := by
  have hne : c ≠ 45 := by
    rintro rfl
    exact absurd hc (by decide)
  simp [scanMinus, hne]

theorem scanFrac_stops {rest : ByteString} (hrest : Stops rest) : scanFrac rest = some ([], rest) := by
  cases rest with
  | nil => rfl
  | cons c t => simp [scanFrac, (hrest c t rfl).2.1]

theorem scanExp_stops {rest : ByteString} (hrest : Stops rest) : scanExp rest = some ([], rest) := by
  cases rest with
  | nil => rfl
  | cons c t => simp [scanExp, (hrest c t rfl).2.2.1, (hrest c t rfl).2.2.2]

/-- The numeral of a natural number is an integer part. -/
theorem scanInt_ofNat (n : Nat) {rest : ByteString} (hrest : Stops rest) :
    scanInt (Decimal.ofNat n ++ rest) = some (Decimal.ofNat n, rest) := by
  by_cases hn : n = 0
  · subst hn
    simp [Decimal.ofNat, scanInt]
  · obtain ⟨c, ds, hsplit, hc, hdigit⟩ := Decimal.head_ofNat_ne_zero hn
    have hds : ∀ d ∈ ds, Decimal.isDigit d = true := fun d hd =>
      Decimal.isDigit_of_mem_ofNat (n := n) (by simp [hsplit, hd])
    obtain ⟨htake, hdrop⟩ := Decimal.takeWhile_digits hds fun c t h => (hrest c t h).1
    rw [hsplit, List.cons_append]
    simp [scanInt, hc, hdigit, htake, hdrop]

/-- An integer in the ranges of the two 64-bit types. -/
def IntRange (n : Int) : Prop := -2 ^ 63 ≤ n ∧ n < 2 ^ 64

theorem scanNumber_ofInt (F : FloatText) {n : Int} (hn : IntRange n) {rest : ByteString} (hrest : Stops rest) :
    scanNumber F (Decimal.ofInt n ++ rest) = some (.int n, rest) := by
  have hscan := scanInt_ofNat n.natAbs hrest
  unfold Decimal.ofInt
  by_cases hneg : n < 0
  · rw [if_pos hneg]
    have hminus : scanMinus (45 :: Decimal.ofNat n.natAbs ++ rest) = ([45], Decimal.ofNat n.natAbs ++ rest) := rfl
    have hbound : n.natAbs ≤ 2 ^ 63 := by
      have := hn.1
      omega
    have hvalue : -(n.natAbs : Int) = n := by omega
    simp only [scanNumber, hminus, hscan, scanFrac_stops hrest, scanExp_stops hrest, Decimal.value_ofNat,
      and_self, List.cons_ne_nil, ↓reduceIte, hbound, hvalue]
  · rw [if_neg hneg]
    obtain ⟨c, ds, hsplit⟩ := List.exists_cons_of_ne_nil (Decimal.ofNat_ne_nil n.natAbs)
    have hc : Decimal.isDigit c = true := Decimal.isDigit_of_mem_ofNat (n := n.natAbs) (by simp [hsplit])
    have hminus : scanMinus (Decimal.ofNat n.natAbs ++ rest) = ([], Decimal.ofNat n.natAbs ++ rest) := by
      rw [hsplit, List.cons_append]
      exact scanMinus_digit hc
    have hbound : n.natAbs < 2 ^ 64 := by
      have := hn.2
      omega
    have hvalue : (n.natAbs : Int) = n := by omega
    simp only [scanNumber, hminus, hscan, scanFrac_stops hrest, scanExp_stops hrest, Decimal.value_ofNat,
      and_self, ↓reduceIte, hbound, hvalue]

theorem scanDigits_append {ds rest : ByteString} (hne : ds ≠ []) (hds : ∀ d ∈ ds, Decimal.isDigit d = true)
    (hrest : ∀ c t, rest = c :: t → Decimal.isDigit c = false) :
    scanDigits (ds ++ rest) = some (ds, rest) := by
  obtain ⟨htake, hdrop⟩ := Decimal.takeWhile_digits hds hrest
  simp [scanDigits, htake, hdrop, hne]

theorem scanExp_token {exp rest : ByteString} (hrest : Stops rest)
    (hexp : exp = [] ∨ ∃ e s ds, exp = e :: (s ++ ds) ∧ (e = 101 ∨ e = 69) ∧ (s = [] ∨ s = [43] ∨ s = [45]) ∧
      ds ≠ [] ∧ ∀ d ∈ ds, Decimal.isDigit d = true) :
    scanExp (exp ++ rest) = some (exp, rest) := by
  rcases hexp with rfl | ⟨e, s, ds, rfl, he, hs, hne, hds⟩
  · exact scanExp_stops hrest
  · have hdigits := scanDigits_append hne hds fun c t h => (hrest c t h).1
    have hsign : scanSign (s ++ (ds ++ rest)) = (s, ds ++ rest) := by
      rcases hs with rfl | rfl | rfl
      · obtain ⟨d, ds', rfl⟩ := List.exists_cons_of_ne_nil hne
        have hd := hds d (by simp)
        have hplus : d ≠ 43 := by
          rintro rfl
          exact absurd hd (by decide)
        have hminus : d ≠ 45 := by
          rintro rfl
          exact absurd hd (by decide)
        simp [scanSign, hplus, hminus]
      · rfl
      · rfl
    simp [scanExp, he, List.append_assoc, hsign, hdigits]

theorem scanFrac_token {frac rest : ByteString} (hrest : ∀ c t, rest = c :: t → Decimal.isDigit c = false ∧ c ≠ 46)
    (hfrac : frac = [] ∨ ∃ ds, frac = 46 :: ds ∧ ds ≠ [] ∧ ∀ d ∈ ds, Decimal.isDigit d = true) :
    scanFrac (frac ++ rest) = some (frac, rest) := by
  rcases hfrac with rfl | ⟨ds, rfl, hne, hds⟩
  · cases rest with
    | nil => rfl
    | cons c t => simp [scanFrac, (hrest c t rfl).2]
  · have hdigits := scanDigits_append hne hds fun c t h => (hrest c t h).1
    simp [scanFrac, hdigits]

/-- The token of a double is read as that double. -/
theorem scanNumber_float (F : FloatText) {t : ByteString} (ht : FloatToken t) {rest : ByteString} (hrest : Stops rest) :
    scanNumber F (t ++ rest) = (F.canon t).map fun u => (.float u, rest) := by
  obtain ⟨sign, whole, frac, exp, rfl, hsign, hwhole, hfrac, hexp, hfloat⟩ := ht.pieces
  have hexpScan := scanExp_token hrest hexp
  have hafterFrac : ∀ c t, exp ++ rest = c :: t → Decimal.isDigit c = false ∧ c ≠ 46 := by
    intro c t h
    rcases hexp with rfl | ⟨e, s, ds, rfl, he, _⟩
    · exact ⟨(hrest c t h).1, (hrest c t h).2.1⟩
    · obtain ⟨rfl, _⟩ := List.cons.inj h
      rcases he with rfl | rfl <;> decide
  have hfracScan := scanFrac_token hafterFrac hfrac
  have hafterWhole : ∀ c t, frac ++ (exp ++ rest) = c :: t → Decimal.isDigit c = false := by
    intro c t h
    rcases hfrac with rfl | ⟨ds, rfl, _⟩
    · exact (hafterFrac c t h).1
    · obtain ⟨rfl, _⟩ := List.cons.inj h
      decide
  have hwholeScan : scanInt (whole ++ (frac ++ (exp ++ rest))) = some (whole, frac ++ (exp ++ rest)) := by
    rcases hwhole with rfl | ⟨c, ds, rfl, hc, hds⟩
    · simp [scanInt]
    · obtain ⟨htake, hdrop⟩ := Decimal.takeWhile_digits (fun d (hd : d ∈ ds) => hds d (by simp [hd])) hafterWhole
      simp [scanInt, hc, hds c (by simp), htake, hdrop]
  have hminus : scanMinus (sign ++ (whole ++ (frac ++ (exp ++ rest)))) = (sign, whole ++ (frac ++ (exp ++ rest))) := by
    rcases hsign with rfl | rfl
    · rcases hwhole with rfl | ⟨c, ds, rfl, _, hds⟩
      · rfl
      · exact scanMinus_digit (hds c (by simp))
    · rfl
  have hnot : ¬ (frac = [] ∧ exp = []) := fun h => hfloat.elim (fun hf => hf h.1) (fun he => he h.2)
  simp only [scanNumber, List.append_assoc, hminus, hwholeScan, hfracScan, hexpScan, hnot, ↓reduceIte]

end Numbers

mutual

/-- The value is one that a document can hold: UTF-8 strings, sorted members, numbers in range. -/
def Valid (F : FloatText) : Json → Prop
  | .int n => IntRange n
  | .float t => F.canon t = some t
  | .str s => Utf8.valid s = true
  | .arr items => ValidItems F items
  | .obj ms => Sorted ms ∧ ValidMembers F ms
  | _ => True

def ValidItems (F : FloatText) : List Json → Prop
  | [] => True
  | j :: rest => Valid F j ∧ ValidItems F rest

def ValidMembers (F : FloatText) : List (ByteString × Json) → Prop
  | [] => True
  | (key, v) :: rest => Utf8.valid key = true ∧ Valid F v ∧ ValidMembers F rest

end

theorem validItems_iff (F : FloatText) (items : List Json) : ValidItems F items ↔ ∀ j ∈ items, Valid F j := by
  induction items with
  | nil => simp [ValidItems]
  | cons j items ih => simp [ValidItems, ih]

theorem validMembers_iff (F : FloatText) (ms : List (ByteString × Json)) :
    ValidMembers F ms ↔ ∀ m ∈ ms, Utf8.valid m.1 = true ∧ Valid F m.2 := by
  induction ms with
  | nil => simp [ValidMembers]
  | cons m ms ih => simp [ValidMembers, ih, and_assoc]

theorem valid_arr {F : FloatText} {items : List Json} (h : ∀ j ∈ items, Valid F j) : Valid F (.arr items) :=
  (validItems_iff F items).mpr h

/-- An object assigned valid members is valid. -/
theorem valid_object {F : FloatText} {members : List (ByteString × Json)}
    (h : ∀ m ∈ members, Utf8.valid m.1 = true ∧ Valid F m.2) : Valid F (object members) := by
  refine ⟨sorted_assign members List.Pairwise.nil, (validMembers_iff F _).mpr fun m hm => ?_⟩
  obtain hm | hm := mem_assign hm
  · exact h m hm
  · cases hm

theorem valid_presentFields {F : FloatText} {fields : List (ByteString × Option Json)}
    (h : ∀ f ∈ fields, Utf8.valid f.1 = true ∧ ∀ value, f.2 = some value → Valid F value) :
    Valid F (object (presentFields fields)) := by
  apply valid_object
  intro m hm
  obtain ⟨hkey, hvalue⟩ := h _ (mem_presentFields.mp hm)
  exact ⟨hkey, hvalue m.2 rfl⟩

/-- The first byte of a text starts a value and is no white space. -/
theorem text_head (F : FloatText) (j : Json) (hj : Valid F j) :
    ∃ c t, j.text = c :: t ∧ isWs c = false ∧ c ≠ 93 ∧ c ≠ 125 ∧ c ≠ 0xEF := by
  cases j with
  | null => exact ⟨_, _, rfl, by decide⟩
  | bool b => cases b <;> exact ⟨_, _, rfl, by decide⟩
  | int n =>
    obtain ⟨c, t, h⟩ := List.exists_cons_of_ne_nil (Decimal.ofInt_ne_nil n)
    refine ⟨c, t, h, ?_⟩
    rcases Decimal.mem_ofInt (i := n) (c := c) (by simp [h]) with rfl | hc
    · decide
    · exact digit_starts c hc
  | float t =>
    obtain ⟨sign, whole, frac, exp, rfl, hsign, hwhole, _⟩ := (F.token t t hj).pieces
    rcases hsign with rfl | rfl
    · rcases hwhole with rfl | ⟨c, ds, rfl, _, hds⟩
      · exact ⟨_, _, rfl, by decide⟩
      · exact ⟨c, _, rfl, digit_starts c (hds c (by simp))⟩
    · exact ⟨_, _, rfl, by decide⟩
  | str s => exact ⟨_, _, rfl, by decide⟩
  | arr items => exact ⟨_, _, rfl, by decide⟩
  | obj ms => exact ⟨_, _, rfl, by decide⟩
where
  digit_starts (c : UInt8) : Decimal.isDigit c = true → isWs c = false ∧ c ≠ 93 ∧ c ≠ 125 ∧ c ≠ 0xEF :=
    forall_byte_of_fin (P := fun c => Decimal.isDigit c = true → isWs c = false ∧ c ≠ 93 ∧ c ≠ 125 ∧ c ≠ 0xEF)
      (by decide +kernel) c

theorem skipWs_text (F : FloatText) {j : Json} (hj : Valid F j) (rest : ByteString) :
    skipWs (j.text ++ rest) = j.text ++ rest := by
  obtain ⟨c, t, h, hws, _⟩ := text_head F j hj
  rw [h, List.cons_append, skipWs_cons hws]

theorem scanLiteral_append (name : String) (value : Json) (rest : ByteString) :
    scanLiteral name value (ascii name ++ rest) = some (value, rest) := by
  have hprefix : (ascii name).isPrefixOf (ascii name ++ rest) = true := by
    simp [List.isPrefixOf_iff_prefix]
  simp [scanLiteral, hprefix]

theorem parseValue_number (F : FloatText) {t rest : ByteString} {r : Option (Json × ByteString)}
    (hscan : scanNumber F (t ++ rest) = r) (hhead : ∃ c u, t = c :: u ∧ (c = 45 ∨ Decimal.isDigit c = true)) (n : Nat) :
    parseValue F (n + 1) (t ++ rest) = r := by
  obtain ⟨c, u, rfl, hc⟩ := hhead
  obtain ⟨hws, h123, h91, h34⟩ : isWs c = false ∧ c ≠ 123 ∧ c ≠ 91 ∧ c ≠ 34 := by
    rcases hc with rfl | hc
    · decide
    · exact forall_byte_of_fin (P := fun c => Decimal.isDigit c = true → isWs c = false ∧ c ≠ 123 ∧ c ≠ 91 ∧ c ≠ 34)
        (by decide +kernel) c hc
  rw [List.cons_append] at hscan ⊢
  rw [parseValue, skipWs_cons hws]
  simp only [h123, h91, h34, hc, ↓reduceIte]
  exact hscan

theorem Sorted.forall_lt_of_append {acc : List (ByteString × Json)} {m : ByteString × Json}
    {ms : List (ByteString × Json)} (hs : Sorted (acc ++ m :: ms)) : ∀ a ∈ acc, a.1 < m.1 := fun a ha =>
  (List.pairwise_append.mp hs).2.2 a ha m (by simp)

/-- Assigning sorted members one after another leaves them as they are. -/
theorem assign_of_sorted {ms acc : List (ByteString × Json)} (hs : Sorted (acc ++ ms)) : assign ms acc = acc ++ ms := by
  induction ms generalizing acc with
  | nil => exact (List.append_nil acc).symm
  | cons m ms ih =>
    have hins : insert m.1 m.2 acc = acc ++ [m] := insert_of_forall_lt hs.forall_lt_of_append
    have hrest := @ih (acc ++ [m]) (by simpa using hs)
    rw [List.append_assoc] at hrest
    rw [← hins] at hrest
    exact hrest

theorem length_text_pos (F : FloatText) {j : Json} (hj : Valid F j) : 1 ≤ j.text.length := by
  obtain ⟨c, t, h, _⟩ := text_head F j hj
  simp [h]

theorem textItems_head (F : FloatText) (i : Json) (items : List Json) (hi : Valid F i) :
    ∃ c t, textItems (i :: items) = c :: t ∧ isWs c = false ∧ c ≠ 93 ∧ c ≠ 125 ∧ c ≠ 0xEF := by
  obtain ⟨c, t, h, hc⟩ := text_head F i hi
  cases items with
  | nil => exact ⟨c, t, h, hc⟩
  | cons k items => exact ⟨c, t ++ 44 :: textItems (k :: items), by simp [textItems, h], hc⟩

theorem textMembers_head (m : ByteString × Json) (ms : List (ByteString × Json)) :
    ∃ t, textMembers (m :: ms) = 34 :: t := by
  cases ms with
  | nil => exact ⟨_, rfl⟩
  | cons k ms => exact ⟨_, rfl⟩

mutual

/-- With fuel for the length of its text, a written value is read back in front of anything that
does not extend a number. -/
theorem parseValue_text (F : FloatText) (j : Json) (hj : Valid F j) (n : Nat) (hn : j.text.length ≤ n)
    (rest : ByteString) (hrest : Stops rest) : parseValue F n (j.text ++ rest) = some (j, rest) := by
  have hpos := length_text_pos F hj
  obtain ⟨k, rfl⟩ : ∃ k, n = k + 1 := ⟨n - 1, by omega⟩
  match j, hj with
  | .null, _ =>
    have h := scanLiteral_append "null" .null rest
    have hskip : skipWs (Json.null.text ++ rest) = 110 :: (ascii "ull" ++ rest) := skipWs_cons (by decide)
    rw [parseValue, hskip]
    exact h
  | .bool true, _ =>
    have h := scanLiteral_append "true" (.bool true) rest
    have hskip : skipWs ((Json.bool true).text ++ rest) = 116 :: (ascii "rue" ++ rest) := skipWs_cons (by decide)
    rw [parseValue, hskip]
    exact h
  | .bool false, _ =>
    have h := scanLiteral_append "false" (.bool false) rest
    have hskip : skipWs ((Json.bool false).text ++ rest) = 102 :: (ascii "alse" ++ rest) := skipWs_cons (by decide)
    rw [parseValue, hskip]
    exact h
  | .int m, hj =>
    refine parseValue_number F (scanNumber_ofInt F hj hrest) ?_ k
    obtain ⟨c, t, h⟩ := List.exists_cons_of_ne_nil (Decimal.ofInt_ne_nil m)
    exact ⟨c, t, h, Decimal.mem_ofInt (i := m) (by simp [h])⟩
  | .float t, hj =>
    have htoken := F.token t t hj
    have hscan := scanNumber_float F htoken hrest
    rw [show F.canon t = some t from hj] at hscan
    refine parseValue_number F hscan ?_ k
    obtain ⟨sign, whole, frac, exp, rfl, hsign, hwhole, _⟩ := htoken.pieces
    rcases hsign with rfl | rfl
    · rcases hwhole with rfl | ⟨c, ds, rfl, _, hds⟩
      · exact ⟨48, _, rfl, .inr (by decide)⟩
      · exact ⟨c, _, rfl, .inr (hds c (by simp))⟩
    · exact ⟨45, _, rfl, .inl rfl⟩
  | .str s, hj =>
    have h := scanString_quote hj rest
    have hskip : skipWs ((Json.str s).text ++ rest) = 34 :: (escape s ++ 34 :: rest) := by
      rw [skipWs_text F hj]
      simp [text, quote]
    rw [parseValue, hskip]
    simp only [h, ↓reduceIte]
    rfl
  | .arr [], _ =>
    have hskip : skipWs ((Json.arr []).text ++ rest) = 91 :: 93 :: rest := skipWs_cons (by decide)
    rw [parseValue, hskip]
    simp [skipWs_cons (c := 93) (s := rest) (by decide)]
  | .arr (i :: items), hj =>
    have hskip : skipWs ((Json.arr (i :: items)).text ++ rest) = 91 :: (textItems (i :: items) ++ 93 :: rest) := by
      rw [skipWs_text F hj]
      simp [text]
    obtain ⟨c, t, hhead, hws, h93, _⟩ := textItems_head F i items hj.1
    have hlen : (textItems (i :: items)).length + 1 ≤ k := by
      simp only [text, List.length_cons, List.length_append, List.length_nil] at hn
      omega
    have hitems := parseItems_text F (i :: items) hj (by simp) k hlen [] rest
    rw [parseValue, hskip]
    rw [hhead, List.cons_append] at hitems ⊢
    simp [skipWs_cons hws, h93, hitems]
  | .obj [], _ =>
    have hskip : skipWs ((Json.obj []).text ++ rest) = 123 :: 125 :: rest := skipWs_cons (by decide)
    rw [parseValue, hskip]
    simp [skipWs_cons (c := 125) (s := rest) (by decide)]
  | .obj (m :: ms), hj =>
    have hskip : skipWs ((Json.obj (m :: ms)).text ++ rest) = 123 :: (textMembers (m :: ms) ++ 125 :: rest) := by
      rw [skipWs_text F hj]
      simp [text]
    obtain ⟨t, hhead⟩ := textMembers_head m ms
    have hlen : (textMembers (m :: ms)).length + 1 ≤ k := by
      simp only [text, List.length_cons, List.length_append, List.length_nil] at hn
      omega
    have hmembers := parseMembers_text F (m :: ms) hj.2 (by simp) k hlen [] rest
    rw [@assign_of_sorted _ [] hj.1, List.nil_append] at hmembers
    rw [parseValue, hskip]
    rw [hhead, List.cons_append] at hmembers ⊢
    simp [skipWs_cons (c := 34) (by decide), hmembers]

theorem parseItems_text (F : FloatText) (items : List Json) (hi : ValidItems F items) (hne : items ≠ []) (n : Nat)
    (hn : (textItems items).length + 1 ≤ n) (acc : List Json) (rest : ByteString) :
    parseItems F n acc (textItems items ++ 93 :: rest) = some (.arr (acc ++ items), rest) := by
  obtain ⟨k, rfl⟩ : ∃ k, n = k + 1 := ⟨n - 1, by omega⟩
  match items, hi with
  | [j], hi =>
    have hj := parseValue_text F j hi.1 k (by simp only [textItems] at hn; omega) (93 :: rest) (stops_cons (by simp))
    rw [textItems, parseItems, hj]
    simp [skipWs_cons (c := 93) (by decide)]
  | j :: i :: items, hi =>
    simp only [textItems, List.length_append, List.length_cons] at hn
    have hpos := length_text_pos F hi.1
    have hj := parseValue_text F j hi.1 k (by omega) (44 :: (textItems (i :: items) ++ 93 :: rest)) (stops_cons (by simp))
    have hitems := parseItems_text F (i :: items) hi.2 (by simp) k (by omega) (acc ++ [j]) rest
    rw [textItems, List.append_assoc, List.cons_append, parseItems, hj]
    simp [skipWs_cons (c := 44) (by decide), hitems]

/-- The members may be written in any order; each is assigned as it is read. -/
theorem parseMembers_text (F : FloatText) (ms : List (ByteString × Json)) (hm : ValidMembers F ms) (hne : ms ≠ [])
    (n : Nat) (hn : (textMembers ms).length + 1 ≤ n) (acc : List (ByteString × Json)) (rest : ByteString) :
    parseMembers F n acc (textMembers ms ++ 125 :: rest) = some (.obj (assign ms acc), rest) := by
  obtain ⟨k, rfl⟩ : ∃ k, n = k + 1 := ⟨n - 1, by omega⟩
  match ms, hm with
  | [(key, v)], hm =>
    simp only [textMembers, quote, List.length_append, List.length_cons] at hn
    have hsplit : textMembers [(key, v)] ++ 125 :: rest = 34 :: (escape key ++ 34 :: 58 :: (v.text ++ 125 :: rest)) := by
      simp [textMembers, quote]
    have hkey := scanString_quote hm.1 (58 :: (v.text ++ 125 :: rest))
    have hv := parseValue_text F v hm.2.1 k (by omega) (125 :: rest) (stops_cons (by simp))
    rw [hsplit, parseMembers, skipWs_cons (c := 34) (by decide)]
    simp only [↓reduceIte, hkey, skipWs_cons (c := 58) (s := v.text ++ 125 :: rest) (by decide), hv,
      skipWs_cons (c := 125) (s := rest) (by decide)]
    rfl
  | (key, v) :: m :: ms, hm =>
    simp only [textMembers, quote, List.length_append, List.length_cons] at hn
    have hsplit : textMembers ((key, v) :: m :: ms) ++ 125 :: rest =
        34 :: (escape key ++ 34 :: 58 :: (v.text ++ 44 :: (textMembers (m :: ms) ++ 125 :: rest))) := by
      simp [textMembers, quote]
    have hkey := scanString_quote hm.1 (58 :: (v.text ++ 44 :: (textMembers (m :: ms) ++ 125 :: rest)))
    have hv := parseValue_text F v hm.2.1 k (by omega) (44 :: (textMembers (m :: ms) ++ 125 :: rest))
      (stops_cons (by simp))
    have hmembers := parseMembers_text F (m :: ms) hm.2.2 (by simp) k (by omega) (insert key v acc) rest
    rw [hsplit, parseMembers, skipWs_cons (c := 34) (by decide)]
    simp only [↓reduceIte, hkey,
      skipWs_cons (c := 58) (s := v.text ++ 44 :: (textMembers (m :: ms) ++ 125 :: rest)) (by decide), hv,
      skipWs_cons (c := 44) (s := textMembers (m :: ms) ++ 125 :: rest) (by decide), hmembers]
    rfl

end

theorem FloatToken.ascii {t : ByteString} (h : FloatToken t) : ∀ c ∈ t, c ≤ 0x7F := by
  obtain ⟨sign, whole, frac, exp, rfl, hsign, hwhole, hfrac, hexp, -⟩ := h.pieces
  have hsign : ∀ c ∈ sign, c ≤ 0x7F := by
    obtain rfl | rfl := hsign <;> simp
  have hwhole : ∀ c ∈ whole, c ≤ 0x7F := by
    obtain rfl | ⟨d, ds, rfl, -, hdigits⟩ := hwhole
    · simp
    · exact fun c hc => Decimal.isDigit_ascii (hdigits c hc)
  have hfrac : ∀ c ∈ frac, c ≤ 0x7F := by
    obtain rfl | ⟨ds, rfl, -, hdigits⟩ := hfrac
    · simp
    · exact List.forall_mem_cons.mpr ⟨by decide, fun c hc => Decimal.isDigit_ascii (hdigits c hc)⟩
  have hexp : ∀ c ∈ exp, c ≤ 0x7F := by
    obtain rfl | ⟨e, s, ds, rfl, he, hs, -, hdigits⟩ := hexp
    · simp
    · refine List.forall_mem_cons.mpr ⟨by obtain rfl | rfl := he <;> decide, List.forall_mem_append.mpr ⟨?_, ?_⟩⟩
      · obtain rfl | rfl | rfl := hs <;> simp
      · exact fun c hc => Decimal.isDigit_ascii (hdigits c hc)
  simp only [List.forall_mem_append]
  exact ⟨⟨⟨hsign, hwhole⟩, hfrac⟩, hexp⟩

mutual

theorem Valid.utf8 {F : FloatText} (j : Json) (hj : Valid F j) : j.utf8 = true := by
  match j, hj with
  | .null, _ => rfl
  | .bool _, _ => rfl
  | .int _, _ => rfl
  | .float t, ht => exact Utf8.valid_of_ascii (F.token t t ht).ascii
  | .str _, hj => exact hj
  | .arr items, hj => exact ValidItems.utf8 items hj
  | .obj ms, hj => exact ValidMembers.utf8 ms hj.2

theorem ValidItems.utf8 {F : FloatText} (items : List Json) (hi : ValidItems F items) : utf8Items items = true := by
  match items, hi with
  | [], _ => rfl
  | j :: items, hi =>
    rw [utf8Items, Valid.utf8 j hi.1, ValidItems.utf8 items hi.2]
    rfl

theorem ValidMembers.utf8 {F : FloatText} (ms : List (ByteString × Json)) (hm : ValidMembers F ms) :
    utf8Members ms = true := by
  match ms, hm with
  | [], _ => rfl
  | (key, v) :: ms, hm =>
    rw [utf8Members, hm.1, Valid.utf8 v hm.2.1, ValidMembers.utf8 ms hm.2.2]
    rfl

end

theorem skipBom_text (F : FloatText) (j : Json) (hj : Valid F j) : skipBom j.text = some j.text := by
  obtain ⟨c, t, h, _, _, _, hbom⟩ := text_head F j hj
  rw [h, skipBom, if_neg hbom]

/-- Parsing the text of a value gives the value back. -/
theorem parse_text (F : FloatText) (j : Json) (hj : Valid F j) : parse F j.text = some j := by
  have hvalue := parseValue_text F j hj (j.text.length + 1) (by omega) [] stops_nil
  rw [List.append_nil] at hvalue
  simp only [parse, skipBom_text F j hj, hvalue]
  rfl

/-- An object whose members are written in any order is read as if they were assigned in this order. -/
theorem parse_written (F : FloatText) (ms : List (ByteString × Json)) (hm : ValidMembers F ms) :
    parse F (Json.obj ms).text = some (object ms) := by
  cases ms with
  | nil => exact parse_text F (.obj []) ⟨List.Pairwise.nil, trivial⟩
  | cons m ms =>
    have hbom : skipBom (Json.obj (m :: ms)).text = some (Json.obj (m :: ms)).text := rfl
    have hmembers := parseMembers_text F (m :: ms) hm (by simp) (Json.obj (m :: ms)).text.length
      (by simp only [text, List.length_cons, List.length_append, List.length_nil]; omega) [] []
    obtain ⟨t, hhead⟩ := textMembers_head m ms
    have htext : (Json.obj (m :: ms)).text = 123 :: 34 :: (t ++ [125]) := by
      rw [text, hhead]
      simp
    have hvalue : parseValue F ((Json.obj (m :: ms)).text.length + 1) (Json.obj (m :: ms)).text =
        some (object (m :: ms), []) := by
      rw [hhead, List.cons_append] at hmembers
      rw [parseValue, htext, skipWs_cons (c := 123) (by decide)]
      simp only [↓reduceIte, skipWs_cons (c := 34) (s := t ++ [125]) (by decide)]
      rw [← htext, if_neg (by decide)]
      exact hmembers
    simp only [parse, hbom, hvalue]
    rfl

theorem dump_valid (F : FloatText) (j : Json) (hj : Valid F j) : j.dump = some j.text :=
  dump_of_utf8 (Valid.utf8 j hj)

/-- Different documents have different texts. -/
theorem text_injective {F : FloatText} {j k : Json} (hj : j.Valid F) (hk : k.Valid F) (h : j.text = k.text) : j = k :=
  Option.some.inj ((parse_text F j hj).symm.trans (h ▸ parse_text F k hk))

mutual

/-- Integers in range and sorted members, with no floating-point number. -/
def Exact : Json → Prop
  | .int n => IntRange n
  | .float _ => False
  | .arr items => ExactItems items
  | .obj ms => Sorted ms ∧ ExactMembers ms
  | _ => True

def ExactItems : List Json → Prop
  | [] => True
  | j :: rest => Exact j ∧ ExactItems rest

def ExactMembers : List (ByteString × Json) → Prop
  | [] => True
  | (_, v) :: rest => Exact v ∧ ExactMembers rest

end

theorem exactItems_iff (items : List Json) : ExactItems items ↔ ∀ j ∈ items, Exact j := by
  induction items with
  | nil => simp [ExactItems]
  | cons j items ih => simp [ExactItems, ih]

mutual

/-- UTF-8 is all that an exact value needs to be valid. -/
theorem Exact.valid (F : FloatText) (j : Json) (hj : Exact j) (hutf8 : j.utf8 = true) : j.Valid F := by
  match j with
  | .null => trivial
  | .bool _ => trivial
  | .int n => exact hj
  | .float t => exact absurd hj id
  | .str s => exact hutf8
  | .arr items => exact ExactItems.valid F items hj hutf8
  | .obj ms => exact ⟨hj.1, ExactMembers.valid F ms hj.2 hutf8⟩

theorem ExactItems.valid (F : FloatText) (items : List Json) (hi : ExactItems items) (hutf8 : utf8Items items = true) :
    ValidItems F items := by
  match items with
  | [] => trivial
  | j :: rest =>
    rw [utf8Items, Bool.and_eq_true] at hutf8
    exact ⟨Exact.valid F j hi.1 hutf8.1, ExactItems.valid F rest hi.2 hutf8.2⟩

theorem ExactMembers.valid (F : FloatText) (ms : List (ByteString × Json)) (hm : ExactMembers ms)
    (hutf8 : utf8Members ms = true) : ValidMembers F ms := by
  match ms with
  | [] => trivial
  | (key, v) :: rest =>
    rw [utf8Members, Bool.and_eq_true, Bool.and_eq_true] at hutf8
    exact ⟨hutf8.1.1, Exact.valid F v hm.1 hutf8.1.2, ExactMembers.valid F rest hm.2 hutf8.2⟩

end

end Json
