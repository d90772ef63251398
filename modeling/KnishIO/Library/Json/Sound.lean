import KnishIO.Library.Json.RoundTrip

open ByteString

namespace Json

section Strings

theorem hexValue_lt {c : UInt8} {n : Nat} (h : hexValue c = some n) : n < 16 := by
  unfold hexValue at h
  split_ifs at h with hdigit hlower hupper <;> obtain rfl := Option.some.inj h
  · have := UInt8.le_iff_toNat_le.mp hdigit.2
    have : (57 : UInt8).toNat = 57 := rfl
    omega
  · have := UInt8.le_iff_toNat_le.mp hlower.2
    have : (102 : UInt8).toNat = 102 := rfl
    omega
  · have := UInt8.le_iff_toNat_le.mp hupper.2
    have : (70 : UInt8).toNat = 70 := rfl
    omega

theorem hex4_lt {s rest : ByteString} {n : Nat} (h : hex4 s = some (n, rest)) : n < 0x10000 := by
  unfold hex4 at h
  split at h
  · rename_i a b c d _
    simp only [bind, Option.bind_eq_some_iff, pure, Option.some.injEq, Prod.mk.injEq] at h
    obtain ⟨a', ha, b', hb, c', hc, d', hd, rfl, -⟩ := h
    have := hexValue_lt ha
    have := hexValue_lt hb
    have := hexValue_lt hc
    have := hexValue_lt hd
    omega
  · cases h

theorem isTail_ofNat {n : Nat} (h : n < 0x40) : Utf8.isTail (UInt8.ofNat (0x80 + n)) = true := by
  have hn : (UInt8.ofNat (0x80 + n)).toNat = 0x80 + n := by
    rw [UInt8.toNat_ofNat']
    omega
  simp only [Utf8.isTail, Bool.and_eq_true, decide_eq_true_eq, UInt8.le_iff_toNat_le, hn]
  exact ⟨Nat.le_add_right _ _, show 0x80 + n ≤ 0xBF by omega⟩

/-- A continuation byte, where every continuation byte is allowed. -/
theorem validFrom_tail {q q' : Utf8.State} {n : Nat} {rest : ByteString}
    (hq : q = .tail1 ∧ q' = .start ∨ q = .tail2 ∧ q' = .tail1 ∨ q = .tail3 ∧ q' = .tail2) (hn : n < 0x40)
    (hrest : Utf8.validFrom q' rest = true) : Utf8.validFrom q (UInt8.ofNat (0x80 + n) :: rest) = true := by
  have htail := isTail_ofNat hn
  rw [Utf8.validFrom_cons]
  rcases hq with ⟨rfl, rfl⟩ | ⟨rfl, rfl⟩ | ⟨rfl, rfl⟩ <;>
  · simp only [Utf8.step, htail, ↓reduceIte]
    exact hrest

theorem validFrom_two {cp : Nat} (hlow : 0x80 ≤ cp) (hhigh : cp < 0x800) : Utf8.valid (encodeUtf8 cp) = true := by
  have hlead : ∀ n, 0xC2 ≤ n → n ≤ 0xDF → Utf8.step .start (UInt8.ofNat n) = some .tail1 := by
    intro n h₁ h₂
    interval_cases n <;> rfl
  rw [encodeUtf8, if_neg (by omega), if_pos hhigh, Utf8.valid, Utf8.validFrom_cons, hlead _ (by omega) (by omega)]
  exact validFrom_tail (.inl ⟨rfl, rfl⟩) (by omega) rfl

theorem validFrom_three {cp : Nat} (hlow : 0x800 ≤ cp) (hhigh : cp < 0x10000) (hsurrogate : cp < 0xD800 ∨ 0xE000 ≤ cp) :
    Utf8.valid (encodeUtf8 cp) = true := by
  have hlead : ∀ n, n ≤ 0xEF → 0xE1 ≤ n → n ≠ 0xED → Utf8.step .start (UInt8.ofNat n) = some .tail2 := by
    intro n h₁ h₂ h₃
    interval_cases n <;> first | rfl | exact absurd rfl h₃
  have hE0 : ∀ n, 0xA0 ≤ n → n ≤ 0xBF → Utf8.step .afterE0 (UInt8.ofNat n) = some .tail1 := by
    intro n h₁ h₂
    interval_cases n <;> rfl
  have hED : ∀ n, 0x80 ≤ n → n ≤ 0x9F → Utf8.step .afterED (UInt8.ofNat n) = some .tail1 := by
    intro n h₁ h₂
    interval_cases n <;> rfl
  have hlast : Utf8.validFrom .tail1 [UInt8.ofNat (0x80 + cp % 0x40)] = true :=
    validFrom_tail (.inl ⟨rfl, rfl⟩) (by omega) rfl
  rw [encodeUtf8, if_neg (by omega), if_neg (by omega), if_pos hhigh, Utf8.valid, Utf8.validFrom_cons]
  by_cases hfirst : cp / 0x1000 = 0
  · rw [hfirst, show Utf8.step .start (UInt8.ofNat (0xE0 + 0)) = some .afterE0 from rfl]
    dsimp only
    rw [Utf8.validFrom_cons, hE0 _ (by omega) (by omega)]
    exact hlast
  · by_cases hthird : cp / 0x1000 = 13
    · rw [hthird, show Utf8.step .start (UInt8.ofNat (0xE0 + 13)) = some .afterED from rfl]
      dsimp only
      rw [Utf8.validFrom_cons, hED _ (by omega) (by omega)]
      exact hlast
    · rw [hlead _ (by omega) (by omega) (by omega)]
      exact validFrom_tail (.inr (.inl ⟨rfl, rfl⟩)) (by omega) hlast

theorem validFrom_four {cp : Nat} (hlow : 0x10000 ≤ cp) (hhigh : cp < 0x110000) : Utf8.valid (encodeUtf8 cp) = true := by
  have hlead : ∀ n, 0xF1 ≤ n → n ≤ 0xF3 → Utf8.step .start (UInt8.ofNat n) = some .tail3 := by
    intro n h₁ h₂
    interval_cases n <;> rfl
  have hF0 : ∀ n, 0x90 ≤ n → n ≤ 0xBF → Utf8.step .afterF0 (UInt8.ofNat n) = some .tail2 := by
    intro n h₁ h₂
    interval_cases n <;> rfl
  have hF4 : ∀ n, 0x80 ≤ n → n ≤ 0x8F → Utf8.step .afterF4 (UInt8.ofNat n) = some .tail2 := by
    intro n h₁ h₂
    interval_cases n <;> rfl
  have hlast : Utf8.validFrom .tail2 [UInt8.ofNat (0x80 + cp / 0x40 % 0x40), UInt8.ofNat (0x80 + cp % 0x40)] = true :=
    validFrom_tail (.inr (.inl ⟨rfl, rfl⟩)) (by omega) (validFrom_tail (.inl ⟨rfl, rfl⟩) (by omega) rfl)
  rw [encodeUtf8, if_neg (by omega), if_neg (by omega), if_neg (by omega), Utf8.valid, Utf8.validFrom_cons]
  by_cases hfirst : cp / 0x40000 = 0
  · rw [hfirst, show Utf8.step .start (UInt8.ofNat (0xF0 + 0)) = some .afterF0 from rfl]
    dsimp only
    rw [Utf8.validFrom_cons, hF0 _ (by omega) (by omega)]
    exact hlast
  · by_cases hfourth : cp / 0x40000 = 4
    · rw [hfourth, show Utf8.step .start (UInt8.ofNat (0xF0 + 4)) = some .afterF4 from rfl]
      dsimp only
      rw [Utf8.validFrom_cons, hF4 _ (by omega) (by omega)]
      exact hlast
    · rw [hlead _ (by omega) (by omega)]
      exact validFrom_tail (.inr (.inr ⟨rfl, rfl⟩)) (by omega) hlast

/-- The encoding of a code point that is no surrogate is well formed. -/
theorem valid_encodeUtf8 {cp : Nat} (hsurrogate : cp < 0xD800 ∨ 0xE000 ≤ cp) (hmax : cp < 0x110000) :
    Utf8.valid (encodeUtf8 cp) = true := by
  by_cases h1 : cp < 0x80
  · rw [encodeUtf8, if_pos h1]
    apply Utf8.valid_of_ascii
    intro b hb
    rw [List.mem_singleton.mp hb, UInt8.le_iff_toNat_le, UInt8.toNat_ofNat']
    exact show cp % 2 ^ 8 ≤ 0x7F by omega
  · by_cases h2 : cp < 0x800
    · exact validFrom_two (by omega) h2
    · by_cases h3 : cp < 0x10000
      · exact validFrom_three (by omega) h3 hsurrogate
      · exact validFrom_four (by omega) hmax

/-- The character of a `\u` escape, or of two that make a surrogate pair. -/
theorem unicode_valid {s rest cs : ByteString} (h : unescape (117 :: s) = some (cs, rest)) : Utf8.valid cs = true := by
  rw [unescape, if_neg (by decide), if_neg (by decide), if_neg (by decide), if_neg (by decide), if_neg (by decide),
    if_neg (by decide), if_neg (by decide), if_neg (by decide), if_pos rfl] at h
  cases hhex : hex4 s with
  | none => simp [hhex] at h
  | some r =>
    obtain ⟨cp, tail⟩ := r
    have hcp := hex4_lt hhex
    rw [hhex] at h
    dsimp only at h
    by_cases hhigh : 0xD800 ≤ cp ∧ cp ≤ 0xDBFF
    · rw [if_pos hhigh] at h
      cases tail with
      | nil => cases h
      | cons b tail =>
        cases tail with
        | nil => cases h
        | cons u tail =>
          dsimp only at h
          by_cases hnext : b = 92 ∧ u = 117
          · rw [if_pos hnext] at h
            cases hlowHex : hex4 tail with
            | none => rw [hlowHex] at h; cases h
            | some r =>
              obtain ⟨low, tail'⟩ := r
              rw [hlowHex] at h
              dsimp only at h
              by_cases hlow : 0xDC00 ≤ low ∧ low ≤ 0xDFFF
              · rw [if_pos hlow] at h
                obtain ⟨rfl, -⟩ := Prod.mk.inj (Option.some.inj h)
                exact valid_encodeUtf8 (.inr (by omega)) (by omega)
              · rw [if_neg hlow] at h
                cases h
          · rw [if_neg hnext] at h
            cases h
    · rw [if_neg hhigh] at h
      by_cases hlow : 0xDC00 ≤ cp ∧ cp ≤ 0xDFFF
      · rw [if_pos hlow] at h
        cases h
      · rw [if_neg hlow] at h
        obtain ⟨rfl, -⟩ := Prod.mk.inj (Option.some.inj h)
        exact valid_encodeUtf8 (by omega) (by omega)

/-- An escape stands for well-formed bytes. -/
theorem unescape_valid {s rest cs : ByteString} (h : unescape s = some (cs, rest)) : Utf8.valid cs = true := by
  cases s with
  | nil => cases h
  | cons c s =>
    by_cases h117 : c = 117
    · subst h117
      exact unicode_valid h
    rw [unescape] at h
    have hplain {b : UInt8} (hb : Utf8.valid [b] = true) (hs : some ([b], s) = some (cs, rest)) : Utf8.valid cs = true := by
      obtain ⟨rfl, -⟩ := Prod.mk.inj (Option.some.inj hs)
      exact hb
    by_cases h34 : c = 34
    · rw [if_pos h34] at h
      exact hplain (b := 34) (by decide) h
    rw [if_neg h34] at h
    by_cases h92 : c = 92
    · rw [if_pos h92] at h
      exact hplain (b := 92) (by decide) h
    rw [if_neg h92] at h
    by_cases h47 : c = 47
    · rw [if_pos h47] at h
      exact hplain (b := 47) (by decide) h
    rw [if_neg h47] at h
    by_cases h98 : c = 98
    · rw [if_pos h98] at h
      exact hplain (b := 8) (by decide) h
    rw [if_neg h98] at h
    by_cases h102 : c = 102
    · rw [if_pos h102] at h
      exact hplain (b := 12) (by decide) h
    rw [if_neg h102] at h
    by_cases h110 : c = 110
    · rw [if_pos h110] at h
      exact hplain (b := 10) (by decide) h
    rw [if_neg h110] at h
    by_cases h114 : c = 114
    · rw [if_pos h114] at h
      exact hplain (b := 13) (by decide) h
    rw [if_neg h114] at h
    by_cases h116 : c = 116
    · rw [if_pos h116] at h
      exact hplain (b := 9) (by decide) h
    rw [if_neg h116] at h
    rw [if_neg h117] at h
    cases h

theorem scanString_valid {n : Nat} {q : Utf8.State} {s r rest : ByteString} (h : scanString n q s = some (r, rest)) :
    Utf8.validFrom q r = true := by
  induction n generalizing q s r with
  | zero => cases h
  | succ n ih =>
    cases s with
    | nil => cases h
    | cons b s =>
      rw [scanString] at h
      split_ifs at h with hquote hescape hcontrol
      · obtain ⟨rfl, -⟩ := Prod.mk.inj (Option.some.inj h)
        simp [Utf8.validFrom, hquote.1]
      · split at h
        · cases h
        · rename_i cs rest' hunescape
          obtain ⟨⟨r', t⟩, hscan, heq⟩ := Option.map_eq_some_iff.mp h
          obtain ⟨rfl, rfl⟩ := Prod.mk.inj heq
          rw [hescape.1]
          exact Utf8.valid_append (unescape_valid hunescape) (ih hscan)
      · split at h
        · cases h
        · rename_i q' hstep
          obtain ⟨⟨r', t⟩, hscan, heq⟩ := Option.map_eq_some_iff.mp h
          obtain ⟨rfl, rfl⟩ := Prod.mk.inj heq
          rw [Utf8.validFrom_cons, hstep]
          exact ih hscan

end Strings

section Values

variable {F : FloatText}

theorem scanNumber_valid {s rest : ByteString} {j : Json} (h : scanNumber F s = some (j, rest)) : j.Valid F := by
  have hdouble {text tail : ByteString} (h : (F.canon text).map (fun t => (Json.float t, tail)) = some (j, rest)) :
      j.Valid F := by
    obtain ⟨t, ht, heq⟩ := Option.map_eq_some_iff.mp h
    obtain ⟨rfl, -⟩ := Prod.mk.inj heq
    exact F.canon_canon _ _ ht
  unfold scanNumber at h
  cases hint : scanInt (scanMinus s).2 with
  | none => simp [hint] at h
  | some w =>
    obtain ⟨whole, s₁⟩ := w
    cases hfrac : scanFrac s₁ with
    | none => simp [hint, hfrac] at h
    | some f =>
      obtain ⟨frac, s₂⟩ := f
      cases hexp : scanExp s₂ with
      | none => simp [hint, hfrac, hexp] at h
      | some e =>
        obtain ⟨exp, s₃⟩ := e
        simp only [hint, hfrac, hexp] at h
        by_cases hinteger : frac = [] ∧ exp = []
        · rw [if_pos hinteger] at h
          by_cases hsign : (scanMinus s).1 = []
          · rw [if_pos hsign] at h
            by_cases hsmall : Decimal.value whole < 2 ^ 64
            · rw [if_pos hsmall] at h
              obtain ⟨rfl, -⟩ := Prod.mk.inj (Option.some.inj h)
              exact ⟨by omega, by exact_mod_cast hsmall⟩
            · rw [if_neg hsmall] at h
              exact hdouble h
          · rw [if_neg hsign] at h
            by_cases hsmall : Decimal.value whole ≤ 2 ^ 63
            · rw [if_pos hsmall] at h
              obtain ⟨rfl, -⟩ := Prod.mk.inj (Option.some.inj h)
              exact ⟨by omega, by omega⟩
            · rw [if_neg hsmall] at h
              exact hdouble h
        · rw [if_neg hinteger] at h
          exact hdouble h

theorem scanLiteral_valid {name : String} {value j : Json} {s rest : ByteString} (hvalue : value.Valid F)
    (h : scanLiteral name value s = some (j, rest)) : j.Valid F := by
  unfold scanLiteral at h
  split at h
  · obtain ⟨rfl, -⟩ := Prod.mk.inj (Option.some.inj h)
    exact hvalue
  · cases h

theorem validMembers_insert {key : ByteString} {value : Json} {ms : List (ByteString × Json)}
    (hkey : Utf8.valid key = true) (hvalue : value.Valid F) (hms : ValidMembers F ms) :
    ValidMembers F (insert key value ms) := by
  refine (validMembers_iff F _).mpr fun m hm => ?_
  obtain rfl | hm := mem_insert hm
  · exact ⟨hkey, hvalue⟩
  · exact (validMembers_iff F _).mp hms m hm

/-- The induction is on the fuel, over the three parsers at once. -/
theorem parse_all_valid (n : Nat) :
    (∀ s j rest, parseValue F n s = some (j, rest) → j.Valid F) ∧
    (∀ acc s j rest, ValidItems F acc → parseItems F n acc s = some (j, rest) → j.Valid F) ∧
    ∀ acc s j rest, Sorted acc → ValidMembers F acc → parseMembers F n acc s = some (j, rest) → j.Valid F := by
  induction n with
  | zero =>
    refine ⟨fun s j rest h => ?_, fun acc s j rest _ h => ?_, fun acc s j rest _ _ h => ?_⟩
    · simp [parseValue] at h
    · simp [parseItems] at h
    · simp [parseMembers] at h
  | succ n ih =>
    obtain ⟨hvalue, hitems, hmembers⟩ := ih
    refine ⟨?_, ?_, ?_⟩
    · intro s j rest h
      rw [parseValue] at h
      cases hstart : skipWs s with
      | nil => simp [hstart] at h
      | cons c tail =>
        simp only [hstart] at h
        by_cases hobject : c = 123
        · rw [if_pos hobject] at h
          cases hnext : skipWs tail with
          | nil => simp [hnext] at h
          | cons d tail' =>
            simp only [hnext] at h
            by_cases hclose : d = 125
            · rw [if_pos hclose] at h
              obtain ⟨rfl, -⟩ := Prod.mk.inj (Option.some.inj h)
              exact ⟨List.Pairwise.nil, trivial⟩
            · rw [if_neg hclose] at h
              exact hmembers _ _ _ _ List.Pairwise.nil trivial h
        rw [if_neg hobject] at h
        by_cases harray : c = 91
        · rw [if_pos harray] at h
          cases hnext : skipWs tail with
          | nil => simp [hnext] at h
          | cons d tail' =>
            simp only [hnext] at h
            by_cases hclose : d = 93
            · rw [if_pos hclose] at h
              obtain ⟨rfl, -⟩ := Prod.mk.inj (Option.some.inj h)
              trivial
            · rw [if_neg hclose] at h
              exact hitems [] _ _ _ trivial h
        rw [if_neg harray] at h
        by_cases hstring : c = 34
        · rw [if_pos hstring] at h
          obtain ⟨⟨r, t⟩, hscan, heq⟩ := Option.map_eq_some_iff.mp h
          obtain ⟨rfl, -⟩ := Prod.mk.inj heq
          exact scanString_valid hscan
        rw [if_neg hstring] at h
        by_cases hnumber : c = 45 ∨ Decimal.isDigit c = true
        · rw [if_pos hnumber] at h
          exact scanNumber_valid h
        rw [if_neg hnumber] at h
        by_cases htrue : c = 116
        · rw [if_pos htrue] at h
          exact scanLiteral_valid (show Valid F (.bool true) from trivial) h
        rw [if_neg htrue] at h
        by_cases hfalse : c = 102
        · rw [if_pos hfalse] at h
          exact scanLiteral_valid (show Valid F (.bool false) from trivial) h
        rw [if_neg hfalse] at h
        by_cases hnull : c = 110
        · rw [if_pos hnull] at h
          exact scanLiteral_valid (show Valid F .null from trivial) h
        · rw [if_neg hnull] at h
          cases h
    · intro acc s j rest hacc h
      rw [parseItems] at h
      cases hfirst : parseValue F n s with
      | none => simp [hfirst] at h
      | some r =>
        obtain ⟨v, tail⟩ := r
        have hv := hvalue _ _ _ hfirst
        have hacc' : ValidItems F (acc ++ [v]) := by
          refine (validItems_iff F _).mpr fun k hk => ?_
          obtain hk | hk := List.mem_append.mp hk
          · exact (validItems_iff F _).mp hacc k hk
          · rw [List.mem_singleton.mp hk]
            exact hv
        simp only [hfirst] at h
        cases hnext : skipWs tail with
        | nil => simp [hnext] at h
        | cons c tail' =>
          simp only [hnext] at h
          by_cases hcomma : c = 44
          · rw [if_pos hcomma] at h
            exact hitems _ _ _ _ hacc' h
          rw [if_neg hcomma] at h
          by_cases hclose : c = 93
          · rw [if_pos hclose] at h
            obtain ⟨rfl, -⟩ := Prod.mk.inj (Option.some.inj h)
            exact hacc'
          · rw [if_neg hclose] at h
            cases h
    · intro acc s j rest hsorted hacc h
      rw [parseMembers] at h
      cases hstart : skipWs s with
      | nil => simp [hstart] at h
      | cons q s₁ =>
        simp only [hstart] at h
        by_cases hquote : q = 34
        · rw [if_pos hquote] at h
          cases hkey : scanString (s₁.length + 1) .start s₁ with
          | none => simp [hkey] at h
          | some r =>
            obtain ⟨key, s₂⟩ := r
            have hutf8 : Utf8.valid key = true := scanString_valid hkey
            simp only [hkey] at h
            cases hnext : skipWs s₂ with
            | nil => simp [hnext] at h
            | cons c s₃ =>
              simp only [hnext] at h
              by_cases hcolon : c = 58
              · rw [if_pos hcolon] at h
                cases hfirst : parseValue F n s₃ with
                | none => simp [hfirst] at h
                | some r =>
                  obtain ⟨v, s₄⟩ := r
                  have hsorted' : Sorted (insert key v acc) := sorted_insert hsorted
                  have hacc' := validMembers_insert hutf8 (hvalue _ _ _ hfirst) hacc
                  simp only [hfirst] at h
                  cases hafter : skipWs s₄ with
                  | nil => simp [hafter] at h
                  | cons d tail =>
                    simp only [hafter] at h
                    by_cases hcomma : d = 44
                    · rw [if_pos hcomma] at h
                      exact hmembers _ _ _ _ hsorted' hacc' h
                    rw [if_neg hcomma] at h
                    by_cases hclose : d = 125
                    · rw [if_pos hclose] at h
                      obtain ⟨rfl, -⟩ := Prod.mk.inj (Option.some.inj h)
                      exact ⟨hsorted', hacc'⟩
                    · rw [if_neg hclose] at h
                      cases h
              · rw [if_neg hcolon] at h
                cases h
        · rw [if_neg hquote] at h
          cases h

/-- Every document that the parser accepts is valid. -/
theorem parse_valid {s : ByteString} {j : Json} (h : parse F s = some j) : j.Valid F := by
  unfold parse at h
  cases hbom : skipBom s with
  | none => simp [hbom] at h
  | some t =>
    simp only [hbom] at h
    cases hvalue : parseValue F (t.length + 1) t with
    | none => simp [hvalue] at h
    | some r =>
      obtain ⟨k, rest⟩ := r
      have hk := (parse_all_valid (t.length + 1)).1 _ _ _ hvalue
      simp only [hvalue] at h
      split at h
      · obtain rfl := Option.some.inj h
        exact hk
      · split at h
        · obtain rfl := Option.some.inj h
          exact hk
        · cases h

theorem valid_of_find? {j value : Json} {key : ByteString} (hj : j.Valid F) (h : j.find? key = some value) :
    value.Valid F := by
  cases j with
  | obj ms =>
    have hlookup : ∀ ms : List (ByteString × Json), ValidMembers F ms → lookup key ms = some value → value.Valid F := by
      intro ms
      induction ms with
      | nil => nofun
      | cons m ms ih =>
        intro hms hfound
        obtain ⟨name, member⟩ := m
        rw [lookup] at hfound
        split_ifs at hfound with heq
        · obtain rfl := Option.some.inj hfound
          exact hms.2.1
        · exact ih hms.2.2 hfound
    exact hlookup ms hj.2 h
  | _ => cases h

theorem valid_of_elements {j item : Json} (hj : j.Valid F) (hmem : item ∈ j.elements) : item.Valid F := by
  cases j with
  | null => cases hmem
  | arr items => exact (validItems_iff F items).mp hj item hmem
  | obj ms =>
    obtain ⟨m, hm, rfl⟩ := List.mem_map.mp hmem
    exact ((validMembers_iff F ms).mp hj.2 m hm).2
  | _ =>
    obtain rfl := List.mem_singleton.mp hmem
    exact hj

end Values

section Texts

/-- ASCII bytes leave the decoder where a character may start. -/
theorem validFrom_ascii_append {s : ByteString} (hs : ∀ b ∈ s, b ≤ 0x7F) (t : ByteString) :
    Utf8.validFrom .start (s ++ t) = Utf8.validFrom .start t := by
  induction s with
  | nil => rfl
  | cons b s ih =>
    rw [List.cons_append, Utf8.validFrom_cons, Utf8.step_ascii (hs b List.mem_cons_self)]
    exact ih fun c hc => hs c (List.mem_cons_of_mem _ hc)

theorem escapeByte_high {b : UInt8} (h : 0x80 ≤ b) : escapeByte b = [b] :=
  forall_byte_of_fin (P := fun b => 0x80 ≤ b → escapeByte b = [b]) (by decide +kernel) b h

theorem escapeByte_ascii {b : UInt8} (h : b ≤ 0x7F) : ∀ c ∈ escapeByte b, c ≤ 0x7F :=
  forall_byte_of_fin (P := fun b => b ≤ 0x7F → ∀ c ∈ escapeByte b, c ≤ 0x7F) (by decide +kernel) b h

/-- Escaping keeps UTF-8: the bytes that are escaped are ASCII and stand where a character may start. -/
theorem validFrom_escape {q : Utf8.State} {s : ByteString} (h : Utf8.validFrom q s = true) (t : ByteString)
    (ht : Utf8.valid t = true) : Utf8.validFrom q (escape s ++ t) = true := by
  induction s generalizing q with
  | nil =>
    have hq : q = .start := by simpa [Utf8.validFrom] using h
    rw [hq, escape_nil, List.nil_append]
    exact ht
  | cons b s ih =>
    rw [Utf8.validFrom_cons] at h
    cases hstep : Utf8.step q b with
    | none => simp [hstep] at h
    | some q' =>
      simp only [hstep] at h
      rw [escape_cons, List.append_assoc]
      by_cases hascii : b ≤ 0x7F
      · have hq : q = .start := by
          by_contra hne
          have hhigh := UInt8.le_trans (Utf8.high_of_step hne hstep) hascii
          exact absurd hhigh (by decide)
        subst hq
        rw [Utf8.step_ascii hascii] at hstep
        obtain rfl := Option.some.inj hstep
        rw [validFrom_ascii_append (escapeByte_ascii hascii)]
        exact ih h
      · have hhigh : 0x80 ≤ b := by
          rw [UInt8.le_iff_toNat_le] at hascii ⊢
          have h80 : (0x80 : UInt8).toNat = 0x80 := rfl
          have h7F : (0x7F : UInt8).toNat = 0x7F := rfl
          omega
        rw [escapeByte_high hhigh, List.singleton_append, Utf8.validFrom_cons, hstep]
        exact ih h

theorem valid_cons {b : UInt8} (hb : b ≤ 0x7F) {s : ByteString} (hs : Utf8.valid s = true) : Utf8.valid (b :: s) = true := by
  rw [Utf8.valid, Utf8.validFrom_cons, Utf8.step_ascii hb]
  exact hs

theorem valid_quote {s : ByteString} (h : Utf8.valid s = true) : Utf8.valid (quote s) = true :=
  valid_cons (by decide) (validFrom_escape h [34] (by decide))

mutual

/-- What is written of a value of UTF-8 strings is UTF-8. -/
theorem utf8_text (j : Json) (hj : j.utf8 = true) : Utf8.valid j.text = true := by
  match j, hj with
  | .null, _ => decide
  | .bool true, _ => decide
  | .bool false, _ => decide
  | .int n, _ => exact Utf8.valid_of_ascii fun _ hc => Decimal.ofInt_ascii hc
  | .float t, ht => exact ht
  | .str s, hs => exact valid_quote hs
  | .arr items, hitems => exact valid_cons (by decide) (Utf8.valid_append (utf8_textItems items hitems) (by decide))
  | .obj ms, hms => exact valid_cons (by decide) (Utf8.valid_append (utf8_textMembers ms hms) (by decide))

theorem utf8_textItems (items : List Json) (h : utf8Items items = true) : Utf8.valid (textItems items) = true := by
  match items, h with
  | [], _ => rfl
  | [j], h =>
    rw [utf8Items, Bool.and_eq_true] at h
    exact utf8_text j h.1
  | j :: k :: rest, h =>
    rw [utf8Items, Bool.and_eq_true] at h
    exact Utf8.valid_append (utf8_text j h.1) (valid_cons (by decide) (utf8_textItems (k :: rest) h.2))

theorem utf8_textMembers (ms : List (ByteString × Json)) (h : utf8Members ms = true) : Utf8.valid (textMembers ms) = true := by
  match ms, h with
  | [], _ => rfl
  | [(key, v)], h =>
    rw [utf8Members, Bool.and_eq_true, Bool.and_eq_true] at h
    exact Utf8.valid_append (valid_quote h.1.1) (valid_cons (by decide) (utf8_text v h.1.2))
  | (key, v) :: m :: rest, h =>
    rw [utf8Members, Bool.and_eq_true, Bool.and_eq_true] at h
    have hrest := utf8_textMembers (m :: rest) h.2
    have hvalue := Utf8.valid_append (utf8_text v h.1.2) (valid_cons (b := 44) (by decide) hrest)
    exact Utf8.valid_append (valid_quote h.1.1) (valid_cons (by decide) hvalue)

end

theorem valid_text (j : Json) (hj : j.Valid F) : Utf8.valid j.text = true := utf8_text j (Valid.utf8 j hj)

end Texts

end Json
