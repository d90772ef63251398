import KnishIO.Library.Calendar
import KnishIO.Molecule.Timestamp

open ByteString

namespace KnishIO

namespace Molecule

section Days

/-- The era is the floor of the division. -/
theorem era_eq (y : Int) : (if 0 ≤ y then y else y - 399).tdiv 400 = y / 400 := by
  split_ifs with h
  · rw [Int.tdiv_eq_ediv_of_nonneg h]
  · have hneg : (y - 399).tdiv 400 = -((399 - y) / 400) := by
      rw [show y - 399 = -(399 - y) by ring, Int.neg_tdiv, Int.tdiv_eq_ediv_of_nonneg (by omega)]
    rw [hneg]
    omega

/-- Eras and years of an era, from March on, are the years of the calendar. -/
theorem era_days (y : Int) :
    y / 400 * 146097 + ((((y - y / 400 * 400).toNat * 365 + (y - y / 400 * 400).toNat / 4 -
      (y - y / 400 * 400).toNat / 100 : Nat)) : Int) =
      Calendar.daysThrough y := by
  obtain ⟨r, hr, hlt⟩ : ∃ r : Nat, y - y / 400 * 400 = r ∧ r < 400 := ⟨(y - y / 400 * 400).toNat, by omega, by omega⟩
  rw [hr, Int.toNat_natCast, Calendar.daysThrough]
  omega

/-- The day of a year that starts in March. -/
def dayOfYear (m d : Nat) : Nat := (153 * (if 2 < m then m - 3 else m + 9) + 2) / 5 + d - 1

theorem daysFromCivil_through (y : Int) (m d : Nat) :
    daysFromCivil y m d = Calendar.daysThrough (if m ≤ 2 then y - 1 else y) + dayOfYear m d - 719468 := by
  unfold daysFromCivil
  dsimp only
  rw [era_eq, ← era_days]
  push_cast
  rw [dayOfYear]
  ring

/-- The months before a month, in the closed form of the source. -/
theorem sum_monthLength (y : Int) {m : Nat} (hm : 1 ≤ m) (hm' : m ≤ 12) :
    ((∑ k ∈ Finset.Ico 1 m, Calendar.monthLength y k) : Nat) + 306 =
      if m ≤ 2 then (153 * (m + 9) + 2) / 5 else (153 * (m - 3) + 2) / 5 + 337 + Calendar.monthLength y 2 := by
  interval_cases m <;> simp [Finset.sum_Ico_succ_top, Calendar.monthLength] <;> omega

/-- The source's day number is that of the calendar. -/
theorem daysFromCivil_eq (y : Int) {m d : Nat} (hm : 1 ≤ m) (hm' : m ≤ 12) (hd : 1 ≤ d) :
    daysFromCivil y m d = Calendar.dayNumber y m d := by
  have hyear := Calendar.daysThrough_sub y
  have hmonths := sum_monthLength y hm hm'
  have hfebruary : Calendar.yearLength y = 337 + Calendar.monthLength y 2 := by
    simp only [Calendar.yearLength, Calendar.monthLength, ↓reduceIte]
    cases Calendar.isLeap y <;> rfl
  rw [daysFromCivil_through, Calendar.dayNumber, Calendar.daysToYear_eq, dayOfYear,
    show Calendar.daysThrough 1969 = 719162 from rfl]
  generalize ∑ k ∈ Finset.Ico 1 m, Calendar.monthLength y k = months at hmonths ⊢
  by_cases hearly : m ≤ 2
  · rw [if_pos hearly] at hmonths
    rw [if_pos hearly, if_neg (by omega)]
    omega
  · rw [if_neg hearly] at hmonths
    rw [if_neg hearly, if_pos (by omega)]
    omega

end Days

section Shape

/-- A number in a fixed number of digits. -/
def padded : Nat → Nat → ByteString
  | 0, _ => []
  | width + 1, n => padded width (n / 10) ++ [Decimal.digitByte (n % 10)]

@[simp] theorem length_padded (width n : Nat) : (padded width n).length = width := by
  induction width generalizing n with
  | zero => rfl
  | succ width ih => rw [padded, List.length_append, ih, List.length_singleton]

theorem isDigit_padded {width n : Nat} {c : UInt8} (hc : c ∈ padded width n) : Decimal.isDigit c = true := by
  induction width generalizing n with
  | zero => cases hc
  | succ width ih =>
    obtain hc | hc := List.mem_append.mp hc
    · exact ih hc
    · exact List.mem_singleton.mp hc ▸ Decimal.isDigit_digitByte (Nat.mod_lt _ (by norm_num))

theorem value_concat (ds : ByteString) (c : UInt8) :
    Decimal.value (ds ++ [c]) = Decimal.value ds * 10 + Decimal.digitValue c := by
  simp [Decimal.value]

theorem value_padded {width n : Nat} (hn : n < 10 ^ width) : Decimal.value (padded width n) = n := by
  induction width generalizing n with
  | zero =>
    obtain rfl : n = 0 := by simpa using hn
    rfl
  | succ width ih =>
    rw [padded, value_concat, ih (by rw [pow_succ] at hn; omega), Decimal.digitValue_digitByte (Nat.mod_lt _ (by norm_num))]
    omega

theorem digitByte_digitValue {c : UInt8} (hc : Decimal.isDigit c = true) :
    Decimal.digitByte (Decimal.digitValue c) = c ∧ Decimal.digitValue c < 10 :=
  forall_byte_of_fin (P := fun c => Decimal.isDigit c = true → Decimal.digitByte (Decimal.digitValue c) = c ∧
    Decimal.digitValue c < 10) (by decide +kernel) c hc

/-- Digits are the padded form of their value. -/
theorem padded_value {ds : ByteString} (hds : ∀ c ∈ ds, Decimal.isDigit c = true) :
    padded ds.length (Decimal.value ds) = ds ∧ Decimal.value ds < 10 ^ ds.length := by
  induction ds using List.reverseRecOn with
  | nil => exact ⟨rfl, by decide⟩
  | append_singleton ds c ih =>
    obtain ⟨hback, hlt⟩ := ih fun d hd => hds d (List.mem_append_left _ hd)
    obtain ⟨hc, hc10⟩ := digitByte_digitValue (hds c (by simp))
    rw [List.length_append, List.length_singleton, value_concat, padded, pow_succ,
      show (Decimal.value ds * 10 + Decimal.digitValue c) / 10 = Decimal.value ds by omega,
      show (Decimal.value ds * 10 + Decimal.digitValue c) % 10 = Decimal.digitValue c by omega, hback, hc]
    exact ⟨rfl, by omega⟩

theorem matchDigits_padded {width n : Nat} (hn : n < 10 ^ width) (rest : ByteString) :
    matchDigits width (padded width n ++ rest) = some (n, rest) := by
  have hall : (padded width n).all Decimal.isDigit = true := List.all_eq_true.mpr fun c hc => isDigit_padded hc
  rw [matchDigits, List.take_left' (length_padded width n), List.drop_left' (length_padded width n), if_pos ⟨by simp, hall⟩,
    value_padded hn]

theorem matchDigits_some {width n : Nat} {s rest : ByteString} (h : matchDigits width s = some (n, rest)) :
    s = padded width n ++ rest ∧ n < 10 ^ width := by
  rw [matchDigits] at h
  split_ifs at h with hdigits
  obtain ⟨rfl, rfl⟩ := Prod.mk.inj (Option.some.inj h)
  have hlength : (s.take width).length = width := List.length_take_of_le hdigits.1
  obtain ⟨hback, hlt⟩ := padded_value (List.all_eq_true.mp hdigits.2)
  rw [hlength] at hback hlt
  exact ⟨by rw [hback, List.take_append_drop], hlt⟩

theorem matchByte_cons (b : UInt8) (rest : ByteString) : matchByte b (b :: rest) = some rest := by
  rw [matchByte, if_pos rfl]

theorem matchByte_some {b : UInt8} {s rest : ByteString} (h : matchByte b s = some rest) : s = b :: rest := by
  cases s with
  | nil => cases h
  | cons c s =>
    rw [matchByte] at h
    split_ifs at h with hc
    obtain rfl := Option.some.inj h
    rw [hc]

def renderFraction (fraction : ByteString) : ByteString := if fraction = [] then [] else 46 :: fraction

def renderOffset : Option (UInt8 × Nat × Nat) → ByteString
  | none => [90]
  | some (sign, hours, minutes) => sign :: (padded 2 hours ++ 58 :: padded 2 minutes)

/-- A time as it is written. -/
def Rfc3339.render (m : Rfc3339) : ByteString :=
  padded 4 m.year ++ 45 :: (padded 2 m.month ++ 45 :: (padded 2 m.day ++ 84 :: (padded 2 m.hour ++ 58 ::
    (padded 2 m.minute ++ 58 :: (padded 2 m.second ++ (renderFraction m.fraction ++ renderOffset m.offset))))))

/-- The numbers have as many digits as they are written with, and the sign is a sign. -/
structure Rfc3339.Written (m : Rfc3339) : Prop where
  year : m.year < 10 ^ 4
  month : m.month < 10 ^ 2
  day : m.day < 10 ^ 2
  hour : m.hour < 10 ^ 2
  minute : m.minute < 10 ^ 2
  second : m.second < 10 ^ 2
  fraction : ∀ c ∈ m.fraction, Decimal.isDigit c = true
  offset : ∀ sign hours minutes, m.offset = some (sign, hours, minutes) →
    (sign = 43 ∨ sign = 45) ∧ hours < 10 ^ 2 ∧ minutes < 10 ^ 2

theorem matchFraction_render {fraction rest : ByteString} (hdigits : ∀ c ∈ fraction, Decimal.isDigit c = true)
    (hrest : ∀ c t, rest = c :: t → Decimal.isDigit c = false ∧ c ≠ 46) :
    matchFraction (renderFraction fraction ++ rest) = some (fraction, rest) := by
  rw [renderFraction]
  split_ifs with hempty
  · obtain rfl := hempty
    have hpoint : matchByte 46 rest = none := by
      cases rest with
      | nil => rfl
      | cons c t => rw [matchByte, if_neg (hrest c t rfl).2]
    rw [List.nil_append, matchFraction, hpoint]
  · obtain ⟨htake, hdrop⟩ := Decimal.takeWhile_digits hdigits fun c t h => (hrest c t h).1
    rw [List.cons_append, matchFraction, matchByte_cons]
    dsimp only
    rw [htake, hdrop, if_neg hempty]

theorem matchFraction_some {s fraction rest : ByteString} (h : matchFraction s = some (fraction, rest)) :
    s = renderFraction fraction ++ rest ∧ ∀ c ∈ fraction, Decimal.isDigit c = true := by
  rw [matchFraction] at h
  cases hpoint : matchByte 46 s with
  | none =>
    rw [hpoint] at h
    obtain ⟨rfl, rfl⟩ := Prod.mk.inj (Option.some.inj h)
    exact ⟨rfl, fun c hc => nomatch hc⟩
  | some after =>
    rw [hpoint] at h
    dsimp only at h
    split_ifs at h with hempty
    obtain ⟨rfl, rfl⟩ := Prod.mk.inj (Option.some.inj h)
    rw [renderFraction, if_neg hempty, matchByte_some hpoint, List.cons_append, List.takeWhile_append_dropWhile]
    exact ⟨rfl, List.all_eq_true.mp List.all_takeWhile⟩

theorem matchOffset_render {offset : Option (UInt8 × Nat × Nat)}
    (hoffset : ∀ sign hours minutes, offset = some (sign, hours, minutes) →
      (sign = 43 ∨ sign = 45) ∧ hours < 10 ^ 2 ∧ minutes < 10 ^ 2) :
    matchOffset (renderOffset offset) = some offset := by
  cases offset with
  | none => rfl
  | some offset =>
    obtain ⟨sign, hours, minutes⟩ := offset
    obtain ⟨hsign, hhours, hminutes⟩ := hoffset sign hours minutes rfl
    have hzulu : sign ≠ 90 := by rcases hsign with rfl | rfl <;> decide
    have hclock : matchDigits 2 (padded 2 minutes) = some (minutes, []) := by
      simpa using matchDigits_padded hminutes []
    rw [renderOffset, matchOffset, if_neg hzulu, if_pos hsign, matchDigits_padded hhours]
    dsimp only [bind, Option.bind]
    rw [matchByte_cons]
    dsimp only
    rw [hclock]
    rfl

theorem matchOffset_some {s : ByteString} {offset : Option (UInt8 × Nat × Nat)} (h : matchOffset s = some offset) :
    s = renderOffset offset ∧ ∀ sign hours minutes, offset = some (sign, hours, minutes) →
      (sign = 43 ∨ sign = 45) ∧ hours < 10 ^ 2 ∧ minutes < 10 ^ 2 := by
  cases s with
  | nil => cases h
  | cons c rest =>
    rw [matchOffset] at h
    split_ifs at h with hzulu hend hsign
    · obtain rfl := Option.some.inj h
      exact ⟨by rw [renderOffset, hzulu, hend], fun sign hours minutes hnone => by cases hnone⟩
    · obtain ⟨⟨hours, afterHours⟩, hhours, h⟩ := Option.bind_eq_some_iff.mp h
      obtain ⟨afterColon, hcolon, h⟩ := Option.bind_eq_some_iff.mp h
      obtain ⟨⟨minutes, afterMinutes⟩, hminutes, h⟩ := Option.bind_eq_some_iff.mp h
      dsimp only at h
      split_ifs at h with hdone
      obtain rfl := Option.some.inj h
      obtain ⟨rfl, hhoursLt⟩ := matchDigits_some hhours
      obtain rfl := matchByte_some hcolon
      obtain ⟨rfl, hminutesLt⟩ := matchDigits_some hminutes
      refine ⟨by rw [renderOffset, hdone, List.append_nil], fun sign hours' minutes' hsome => ?_⟩
      obtain ⟨rfl, rfl, rfl⟩ : c = sign ∧ hours = hours' ∧ minutes = minutes' := by simpa using hsome
      exact ⟨hsign, hhoursLt, hminutesLt⟩

/-- What follows the seconds or the fraction starts with neither a digit nor a point. -/
theorem renderOffset_head {offset : Option (UInt8 × Nat × Nat)}
    (hoffset : ∀ sign hours minutes, offset = some (sign, hours, minutes) →
      (sign = 43 ∨ sign = 45) ∧ hours < 10 ^ 2 ∧ minutes < 10 ^ 2) (c : UInt8) (t : ByteString)
    (h : renderOffset offset = c :: t) : Decimal.isDigit c = false ∧ c ≠ 46 := by
  cases offset with
  | none =>
    obtain ⟨rfl, -⟩ := List.cons.inj h
    decide
  | some offset =>
    obtain ⟨sign, hours, minutes⟩ := offset
    obtain ⟨rfl, -⟩ := List.cons.inj h
    rcases (hoffset sign hours minutes rfl).1 with rfl | rfl <;> decide

/-- The pattern reads back what is written. -/
theorem matchRfc3339_render {m : Rfc3339} (hm : m.Written) : matchRfc3339 m.render = some m := by
  have hfraction := matchFraction_render hm.fraction (renderOffset_head hm.offset)
  simp only [matchRfc3339, Rfc3339.render, matchDigits_padded hm.year, matchDigits_padded hm.month,
    matchDigits_padded hm.day, matchDigits_padded hm.hour, matchDigits_padded hm.minute, matchDigits_padded hm.second,
    matchByte_cons, hfraction, matchOffset_render hm.offset, bind, Option.bind, pure]

/-- The pattern matches what is written, and nothing else. -/
theorem matchRfc3339_some {s : ByteString} {m : Rfc3339} (h : matchRfc3339 s = some m) : m.Written ∧ s = m.render := by
  rw [matchRfc3339] at h
  obtain ⟨⟨year, s₁⟩, hyear, h⟩ := Option.bind_eq_some_iff.mp h
  obtain ⟨s₂, hdash, h⟩ := Option.bind_eq_some_iff.mp h
  obtain ⟨⟨month, s₃⟩, hmonth, h⟩ := Option.bind_eq_some_iff.mp h
  obtain ⟨s₄, hdash', h⟩ := Option.bind_eq_some_iff.mp h
  obtain ⟨⟨day, s₅⟩, hday, h⟩ := Option.bind_eq_some_iff.mp h
  obtain ⟨s₆, htime, h⟩ := Option.bind_eq_some_iff.mp h
  obtain ⟨⟨hour, s₇⟩, hhour, h⟩ := Option.bind_eq_some_iff.mp h
  obtain ⟨s₈, hcolon, h⟩ := Option.bind_eq_some_iff.mp h
  obtain ⟨⟨minute, s₉⟩, hminute, h⟩ := Option.bind_eq_some_iff.mp h
  obtain ⟨s₁₀, hcolon', h⟩ := Option.bind_eq_some_iff.mp h
  obtain ⟨⟨second, s₁₁⟩, hsecond, h⟩ := Option.bind_eq_some_iff.mp h
  obtain ⟨⟨fraction, s₁₂⟩, hfraction, h⟩ := Option.bind_eq_some_iff.mp h
  obtain ⟨offset, hoffset, h⟩ := Option.bind_eq_some_iff.mp h
  obtain rfl := Option.some.inj h
  obtain ⟨rfl, hyearLt⟩ := matchDigits_some hyear
  obtain rfl := matchByte_some hdash
  obtain ⟨rfl, hmonthLt⟩ := matchDigits_some hmonth
  obtain rfl := matchByte_some hdash'
  obtain ⟨rfl, hdayLt⟩ := matchDigits_some hday
  obtain rfl := matchByte_some htime
  obtain ⟨rfl, hhourLt⟩ := matchDigits_some hhour
  obtain rfl := matchByte_some hcolon
  obtain ⟨rfl, hminuteLt⟩ := matchDigits_some hminute
  obtain rfl := matchByte_some hcolon'
  obtain ⟨rfl, hsecondLt⟩ := matchDigits_some hsecond
  obtain ⟨rfl, hfractionDigits⟩ := matchFraction_some hfraction
  obtain ⟨rfl, hoffsetLt⟩ := matchOffset_some hoffset
  exact ⟨⟨hyearLt, hmonthLt, hdayLt, hhourLt, hminuteLt, hsecondLt, hfractionDigits, hoffsetLt⟩, rfl⟩

end Shape

section Instants

theorem value_append (ds es : ByteString) :
    Decimal.value (ds ++ es) = Decimal.value ds * 10 ^ es.length + Decimal.value es := by
  induction es using List.reverseRecOn with
  | nil => simp [Decimal.value]
  | append_singleton es c ih =>
    rw [← List.append_assoc, value_concat, value_concat, ih, List.length_append, List.length_singleton, pow_succ]
    ring

theorem value_zeros (n : Nat) : Decimal.value (List.replicate n 48) = 0 := by
  induction n with
  | zero => rfl
  | succ n ih =>
    rw [List.replicate_succ', value_concat, ih]
    rfl

/-- The fraction of a second, in milliseconds and truncated. -/
theorem fractionMillis_eq {fraction : ByteString} (hdigits : ∀ c ∈ fraction, Decimal.isDigit c = true) :
    fractionMillis fraction = Decimal.value fraction * 1000 / 10 ^ fraction.length := by
  rw [fractionMillis]
  by_cases hshort : fraction.length < 3
  · have hscale : (1000 : Nat) = 10 ^ (3 - fraction.length) * 10 ^ fraction.length := by
      rw [← pow_add, Nat.sub_add_cancel (by omega)]
      rfl
    rw [List.take_of_length_le (by omega), value_append, value_zeros, List.length_replicate, hscale, ← mul_assoc,
      Nat.mul_div_cancel _ (by positivity), Nat.add_zero]
  · have hlength : (fraction.take 3).length = 3 := List.length_take_of_le (by omega)
    have hrest := (padded_value fun c hc => hdigits c (List.mem_of_mem_drop (i := 3) hc)).2
    have hsplit : Decimal.value fraction =
        Decimal.value (fraction.take 3) * 10 ^ (fraction.drop 3).length + Decimal.value (fraction.drop 3) := by
      rw [← value_append, List.take_append_drop]
    have hscale : 10 ^ fraction.length = 10 ^ (fraction.drop 3).length * 1000 := by
      rw [List.length_drop, show (1000 : Nat) = 10 ^ 3 from rfl, ← pow_add, Nat.sub_add_cancel (by omega)]
    rw [hlength, Nat.sub_self, List.replicate_zero, List.append_nil, hscale, Nat.mul_div_mul_right _ _ (by norm_num),
      hsplit, Nat.mul_comm, Nat.mul_add_div (by positivity), Nat.div_eq_of_lt hrest, Nat.add_zero]

/-- The seconds from 1970-01-01T00:00:00Z to a time. -/
def Rfc3339.instant (m : Rfc3339) : ℚ :=
  Calendar.dayNumber m.year m.month m.day * 86400 + m.hour * 3600 + m.minute * 60 + m.second +
    Decimal.value m.fraction / 10 ^ m.fraction.length - offsetMinutes m.offset * 60

/-- What the source checks of the numbers. -/
structure Rfc3339.InRange (m : Rfc3339) : Prop where
  month : 1 ≤ m.month ∧ m.month ≤ 12
  day : 1 ≤ m.day ∧ m.day ≤ 31
  hour : m.hour ≤ 23
  minute : m.minute ≤ 59
  second : m.second ≤ 60

/-- A time with its numbers in range is converted to whole milliseconds, rounded down. -/
theorem toSignedTimestamp_render {m : Rfc3339} (hm : m.Written) (hrange : m.InRange) :
    toSignedTimestamp m.render = some (Decimal.ofInt ⌊m.instant * 1000⌋) := by
  have htext : m.render ≠ [] := by simp [Rfc3339.render]
  have hdash : ¬m.render.all Decimal.isDigit = true := by
    intro hall
    have hdigit : Decimal.isDigit 45 = true := List.all_eq_true.mp hall 45 (by simp [Rfc3339.render])
    exact absurd hdigit (by decide)
  have hchecks : ¬(m.month < 1 ∨ 12 < m.month ∨ m.day < 1 ∨ 31 < m.day ∨ 23 < m.hour ∨ 59 < m.minute ∨ 60 < m.second) := by
    obtain ⟨hmonth, hday, hhour, hminute, hsecond⟩ := hrange
    omega
  have hmillis : ⌊m.instant * 1000⌋ = (Calendar.dayNumber m.year m.month m.day * 86400 + m.hour * 3600 + m.minute * 60 +
      m.second - offsetMinutes m.offset * 60) * 1000 + fractionMillis m.fraction := by
    have hsum : m.instant * 1000 = ((Calendar.dayNumber m.year m.month m.day * 86400 + m.hour * 3600 + m.minute * 60 +
        m.second - offsetMinutes m.offset * 60) * 1000 : Int) +
        ((Decimal.value m.fraction * 1000 : Nat) : ℚ) / ((10 ^ m.fraction.length : Nat) : ℚ) := by
      push_cast
      rw [Rfc3339.instant]
      ring
    rw [hsum, Int.floor_intCast_add, Rat.floor_natCast_div_natCast, fractionMillis_eq hm.fraction, Int.natCast_ediv]
  rw [toSignedTimestamp, if_neg htext, if_neg hdash, parseRfc3339Millis, matchRfc3339_render hm]
  dsimp only
  rw [if_neg hchecks, hmillis, daysFromCivil_eq _ hrange.month.1 hrange.month.2 hrange.day.1]

/-- Strings that are not times with their numbers in range are left alone. -/
theorem toSignedTimestamp_other {s : ByteString} (hs : s ≠ []) (hdigits : ¬s.all Decimal.isDigit = true)
    (hother : ¬∃ m : Rfc3339, m.Written ∧ m.InRange ∧ s = m.render) : toSignedTimestamp s = some s := by
  rw [toSignedTimestamp, if_neg hs, if_neg hdigits, parseRfc3339Millis]
  cases hmatch : matchRfc3339 s with
  | none => rfl
  | some m =>
    obtain ⟨hm, rfl⟩ := matchRfc3339_some hmatch
    have hchecks : m.month < 1 ∨ 12 < m.month ∨ m.day < 1 ∨ 31 < m.day ∨ 23 < m.hour ∨ 59 < m.minute ∨ 60 < m.second := by
      by_contra hall
      refine hother ⟨m, hm, ?_, rfl⟩
      constructor <;> omega
    dsimp only
    rw [if_pos hchecks]

/-- A numeral is no time: it has no `T`. -/
theorem ofInt_ne_render (i : Int) (m : Rfc3339) : Decimal.ofInt i ≠ m.render := by
  intro h
  have hmem : (84 : UInt8) ∈ Decimal.ofInt i := h ▸ by simp [Rfc3339.render]
  obtain hminus | hdigit := Decimal.mem_ofInt hmem
  · exact absurd hminus (by decide)
  · exact absurd hdigit (by decide)

/-- A date-time: the day is in its month, and the offset less than a day. The sixtieth second is there where the
table of leap seconds, by minutes of coordinated universal time, has one. -/
structure Rfc3339.Valid (leapSecond : Int → Prop) (m : Rfc3339) : Prop extends m.Written where
  month_range : 1 ≤ m.month ∧ m.month ≤ 12
  day_range : 1 ≤ m.day ∧ m.day ≤ Calendar.monthLength m.year m.month
  hour_range : m.hour ≤ 23
  minute_range : m.minute ≤ 59
  second_range : m.second ≤ 59 ∨ m.second = 60 ∧
    leapSecond (Calendar.dayNumber m.year m.month m.day * 1440 + m.hour * 60 + m.minute - offsetMinutes m.offset)
  offset_range : ∀ sign hours minutes, m.offset = some (sign, hours, minutes) → hours ≤ 23 ∧ minutes ≤ 59

theorem Rfc3339.Valid.inRange {leapSecond : Int → Prop} {m : Rfc3339} (hm : m.Valid leapSecond) : m.InRange where
  month := hm.month_range
  day := ⟨hm.day_range.1, hm.day_range.2.trans (Calendar.monthLength_le _ _)⟩
  hour := hm.hour_range
  minute := hm.minute_range
  second := by
    have := hm.second_range
    omega

/-- A date-time is signed as its milliseconds since 1970, rounded down; two texts of one instant are signed alike. -/
theorem toSignedTimestamp_instant {m : Rfc3339} (hm : m.Valid fun _ => False) :
    toSignedTimestamp m.render = some (Decimal.ofInt ⌊m.instant * 1000⌋) ∧
      ∀ m' : Rfc3339, m'.Valid (fun _ => False) → m'.instant = m.instant →
        toSignedTimestamp m'.render = toSignedTimestamp m.render := by
  have hm' := toSignedTimestamp_render hm.toWritten hm.inRange
  refine ⟨hm', fun n hn hsame => ?_⟩
  rw [toSignedTimestamp_render hn.toWritten hn.inRange, hm', hsame]

/-- The last second of 1999, in two offsets. -/
theorem toSignedTimestamp_instant_millennium :
    toSignedTimestamp (ascii "1999-12-31T23:59:59.9999Z") = some (ascii "946684799999") ∧
      toSignedTimestamp (ascii "2000-01-01T00:59:59.9999+01:00") = toSignedTimestamp (ascii "1999-12-31T23:59:59.9999Z") := by
  have hutc : (⟨1999, 12, 31, 23, 59, 59, ascii "9999", none⟩ : Rfc3339).Valid fun _ => False := by
    refine ⟨?_, by decide, by decide, by decide, by decide, .inl (by decide), fun _ _ _ h => nomatch h⟩
    exact ⟨by decide, by decide, by decide, by decide, by decide, by decide, List.all_eq_true.mp (by decide),
      fun _ _ _ h => nomatch h⟩
  have hlocal : (⟨2000, 1, 1, 0, 59, 59, ascii "9999", some (43, 1, 0)⟩ : Rfc3339).Valid fun _ => False := by
    refine ⟨?_, by decide, by decide, by decide, by decide, .inl (by decide), fun sign hours minutes h => ?_⟩
    · refine ⟨by decide, by decide, by decide, by decide, by decide, by decide, List.all_eq_true.mp (by decide),
        fun sign hours minutes h => ?_⟩
      obtain ⟨rfl, rfl, rfl⟩ : 43 = sign ∧ 1 = hours ∧ 0 = minutes := by simpa using h
      decide
    · obtain ⟨rfl, rfl, rfl⟩ : 43 = sign ∧ 1 = hours ∧ 0 = minutes := by simpa using h
      decide
  obtain ⟨hmillis, halike⟩ := toSignedTimestamp_instant hutc
  refine ⟨hmillis.trans (by decide +kernel), halike _ hlocal (by decide +kernel)⟩

/-- The source checks neither the days of the month, nor the offset, nor where the leap seconds are. -/
def Rfc3339.Overshoots (m : Rfc3339) : Prop :=
  Calendar.monthLength m.year m.month < m.day ∨
    (∃ sign hours minutes, m.offset = some (sign, hours, minutes) ∧ (23 < hours ∨ 59 < minutes)) ∨ m.second = 60

theorem Rfc3339.overshoots_of_not_valid {leapSecond : Int → Prop} {m : Rfc3339} (hm : m.Written) (hrange : m.InRange)
    (hinvalid : ¬m.Valid leapSecond) : m.Overshoots := by
  by_contra hfits
  simp only [Rfc3339.Overshoots, not_or, not_lt, not_exists, not_and] at hfits
  obtain ⟨hday, hoffset, hsecond⟩ := hfits
  have hclock : m.second ≤ 59 := by
    have := hrange.second
    omega
  exact hinvalid ⟨hm, hrange.month, ⟨hrange.day.1, hday⟩, hrange.hour, hrange.minute, .inl hclock, hoffset⟩

/-- Of the strings that are neither digits nor a date-time, those stay as they are that do not have the form of a
time with its numbers in range. -/
theorem toSignedTimestamp_unchanged_iff (leapSecond : Int → Prop) {s : ByteString} (hs : s ≠ [])
    (hdigits : ¬s.all Decimal.isDigit = true) (hinvalid : ¬∃ m : Rfc3339, m.Valid leapSecond ∧ s = m.render) :
    toSignedTimestamp s = some s ↔ ¬∃ m : Rfc3339, m.Written ∧ m.InRange ∧ m.Overshoots ∧ s = m.render := by
  constructor
  · rintro hsame ⟨m, hm, hrange, -, rfl⟩
    rw [toSignedTimestamp_render hm hrange] at hsame
    exact ofInt_ne_render _ _ (Option.some.inj hsame)
  · intro hother
    refine toSignedTimestamp_other hs hdigits fun ⟨m, hm, hrange, hrender⟩ => hother ⟨m, hm, hrange, ?_, hrender⟩
    exact Rfc3339.overshoots_of_not_valid hm hrange fun hvalid => hinvalid ⟨m, hvalid, hrender⟩

/-- A text that is no time. -/
theorem toSignedTimestamp_unchanged_iff_text :
    toSignedTimestamp (ascii "not-a-date") = some (ascii "not-a-date") ↔
      ¬∃ m : Rfc3339, m.Written ∧ m.InRange ∧ m.Overshoots ∧ ascii "not-a-date" = m.render := by
  refine toSignedTimestamp_unchanged_iff (fun _ => True) (by decide) (by decide) ?_
  rintro ⟨m, hm, hrender⟩
  have hread := matchRfc3339_render hm.toWritten
  rw [← hrender] at hread
  cases hread

/-- A time at the thirtieth of February is no date-time, and is converted. -/
theorem toSignedTimestamp_february :
    ¬∀ (leapSecond : Int → Prop) (s : ByteString), s ≠ [] → ¬s.all Decimal.isDigit = true →
      (¬∃ m : Rfc3339, m.Valid leapSecond ∧ s = m.render) → toSignedTimestamp s = some s := by
  intro hclaim
  have hsame := hclaim (fun _ => True) (ascii "2026-02-30T00:00:00Z") (by decide) (by decide) ?_
  · revert hsame
    decide
  · rintro ⟨m, hm, hrender⟩
    have hread := matchRfc3339_render hm.toWritten
    rw [← hrender] at hread
    obtain rfl : (⟨2026, 2, 30, 0, 0, 0, [], none⟩ : Rfc3339) = m := Option.some.inj hread
    exact absurd hm.day_range.2 (by decide)

end Instants

end Molecule

end KnishIO
