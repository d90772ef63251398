import KnishIO.Wallet
import KnishIO.CryptoBigint.HexAdd

open ByteString

namespace KnishIO

namespace Wallet

section Sponge

variable {H : Shake256} {secret token position secret₁ token₁ position₁ secret₂ token₂ position₂ : ByteString}

/-- What key generation absorbs, up to the two calls of SHAKE256. -/
def intermediateKeySponge (H : Shake256) (secret token position : ByteString) (otsVersion : Int) : Throws ByteString :=
  match checkedOtsVersion otsVersion with
  | .error e => .error e
  | .ok version =>
    if secret = [] then .error (.invalidArgument (ascii "Wallet::generateWalletKey() - Secret is required!"))
    else if position = [] then .error (.invalidArgument (ascii "Wallet::generateWalletKey() - Position is required!"))
    else
      match WalletCrypto.constantTimeHexAdd (hexOrDigest H secret 1024) (hexOrDigest H position 256) with
      | .error e => .error (.runtimeError (ascii "Wallet key generation failed: " ++ e.what))
      | .ok indexedKeyHex => .ok (keySponge indexedKeyHex token version)

/-- The key of a sponge input. -/
def squeezeKey (H : Shake256) (sponge : ByteString) (version : Int) : ByteString :=
  shake256Hex H (shake256Hex H sponge 8192) (if version = 2 then 32768 else 8192)

theorem generateWalletKey_eq_map (H : Shake256) (secret token position : ByteString) (otsVersion : Int) :
    generateWalletKey H secret token position otsVersion =
      (intermediateKeySponge H secret token position otsVersion).map (squeezeKey H · otsVersion) := by
  unfold generateWalletKey intermediateKeySponge
  cases hversion : checkedOtsVersion otsVersion with
  | error e => rfl
  | ok version =>
    obtain rfl := checkedOtsVersion_eq hversion
    dsimp only
    by_cases hsecret : secret = []
    · rw [if_pos hsecret, if_pos hsecret]
      rfl
    rw [if_neg hsecret, if_neg hsecret]
    by_cases hposition : position = []
    · rw [if_pos hposition, if_pos hposition]
      rfl
    rw [if_neg hposition, if_neg hposition]
    cases WalletCrypto.constantTimeHexAdd (hexOrDigest H secret 1024) (hexOrDigest H position 256) <;> rfl

theorem generateWalletKey_absorbs {otsVersion : Int} {key : ByteString}
    (h : generateWalletKey H secret token position otsVersion = .ok key) :
    ∃ sponge, intermediateKeySponge H secret token position otsVersion = .ok sponge ∧
      squeezeKey H sponge otsVersion = key := by
  rw [generateWalletKey_eq_map] at h
  cases hsponge : intermediateKeySponge H secret token position otsVersion with
  | error e => simp [hsponge, Except.map] at h
  | ok sponge =>
    rw [hsponge] at h
    exact ⟨sponge, rfl, Except.ok.inj h⟩

/-- The number that the key of a wallet comes from: the secret's and the position's, hashed first where they are not
hexadecimal. -/
def keyNumber (H : Shake256) (secret position : ByteString) : Nat :=
  hexNumber (hexOrDigest H secret 1024) + hexNumber (hexOrDigest H position 256)

/-- What is absorbed, in terms of that number. -/
theorem intermediateKeySponge_ok {version : Int} {sponge : ByteString}
    (h : intermediateKeySponge H secret token position version = .ok sponge) :
    sponge = keySponge (CryptoBigInt.streamHex (keyNumber H secret position)) token version := by
  unfold intermediateKeySponge at h
  cases hversion : checkedOtsVersion version with
  | error e => simp [hversion] at h
  | ok checked =>
    obtain rfl := checkedOtsVersion_eq hversion
    rw [hversion, WalletCrypto.constantTimeHexAdd_eq (isValidHex_hexOrDigest H secret 1024 (by norm_num))
      (isValidHex_hexOrDigest H position 256 (by norm_num))] at h
    dsimp only at h
    split_ifs at h
    exact (Except.ok.inj h).symm

theorem exists_intermediateKeySponge (H : Shake256) (token : ByteString) {version : Int} (hversion : version = 1 ∨ version = 2)
    (hsecret : secret ≠ []) (hposition : position ≠ []) :
    ∃ sponge, intermediateKeySponge H secret token position version = .ok sponge := by
  have hsum := WalletCrypto.constantTimeHexAdd_eq (isValidHex_hexOrDigest H secret 1024 (by norm_num))
    (isValidHex_hexOrDigest H position 256 (by norm_num))
  refine ⟨keySponge (WalletCrypto.hexSum (hexOrDigest H secret 1024) (hexOrDigest H position 256)) token version, ?_⟩
  simp only [intermediateKeySponge, checkedOtsVersion_ok hversion, if_neg hsecret, if_neg hposition, hsum]

theorem keySponge_one {n : Nat} : ∃ c rest, keySponge (CryptoBigInt.streamHex n) token 1 = c :: rest ∧ isHexLower c = true := by
  have hnumeral := hexNumeral_streamHex n
  cases hdigits : CryptoBigInt.streamHex n with
  | nil =>
    obtain hzero | ⟨c, rest, hcons, -⟩ := hnumeral.minimal
    · rw [hdigits] at hzero
      cases hzero
    · rw [hdigits] at hcons
      cases hcons
  | cons c rest =>
    refine ⟨c, rest ++ token, rfl, hnumeral.lower c ?_⟩
    rw [hdigits]
    exact List.mem_cons_self

/-- The tag is no hexadecimal digit. -/
theorem keySponge_two_ne_one {n m : Nat} :
    keySponge (CryptoBigInt.streamHex n) token₁ 2 ≠ keySponge (CryptoBigInt.streamHex m) token₂ 1 := by
  have hfirst : ∃ c rest, keySponge (CryptoBigInt.streamHex m) token₂ 1 = c :: rest ∧ isHexLower c = true := keySponge_one
  obtain ⟨c, rest, hone, hlower⟩ := hfirst
  intro heq
  rw [hone] at heq
  have htwo : keySponge (CryptoBigInt.streamHex n) token₁ 2 =
      75 :: (ascii "nishIO-OTS-v2|" ++ CryptoBigInt.streamHex n ++ ascii "|" ++ token₁) := rfl
  obtain ⟨rfl, -⟩ := List.cons.inj (htwo.symm.trans heq)
  exact absurd hlower (by decide)

/-- The numeral ends at the first delimiter after the tag, whatever the token holds. -/
theorem keySponge_two_inj {n m : Nat} :
    keySponge (CryptoBigInt.streamHex n) token₁ 2 = keySponge (CryptoBigInt.streamHex m) token₂ 2 ↔
      token₁ = token₂ ∧ n = m := by
  have hundelimited (k : Nat) : (124 : UInt8) ∉ CryptoBigInt.streamHex k := fun hmem =>
    absurd ((hexNumeral_streamHex k).lower 124 hmem) (by decide)
  have hform (k : Nat) (token : ByteString) : keySponge (CryptoBigInt.streamHex k) token 2 =
      ascii "KnishIO-OTS-v2|" ++ (CryptoBigInt.streamHex k ++ 124 :: token) := by
    rw [keySponge, if_pos rfl, List.append_assoc, List.append_assoc]
    rfl
  rw [hform, hform, List.append_cancel_left_eq]
  constructor
  · intro heq
    have hprefix (k : Nat) (token : ByteString) :
        (CryptoBigInt.streamHex k ++ 124 :: token).takeWhile (· ≠ 124) = CryptoBigInt.streamHex k := by
      have hdigits : ∀ c ∈ CryptoBigInt.streamHex k, decide (c ≠ 124) = true := fun c hc => by
        refine decide_eq_true ?_
        rintro rfl
        exact hundelimited k hc
      rw [List.takeWhile_append_of_pos hdigits]
      simp
    have hsum : CryptoBigInt.streamHex n = CryptoBigInt.streamHex m := by
      rw [← hprefix n token₁, ← hprefix m token₂, heq]
    rw [hsum, List.append_cancel_left_eq] at heq
    refine ⟨(List.cons.inj heq).2, ?_⟩
    rw [← (hexNumeral_streamHex n).value, ← (hexNumeral_streamHex m).value, hsum]
  · rintro ⟨rfl, rfl⟩
    rfl

/-- Two different inputs with one digest. -/
def Collision (H : Shake256) (bits : Nat) (x y : ByteString) : Prop := x ≠ y ∧ shake256Hex H x bits = shake256Hex H y bits

/-- Version 2 absorbs nothing that version 1 absorbs, and absorbs the same for equal tokens and key numbers only; equal
keys of two tokens are a collision of one of the two hashes. -/
theorem version2_separated (H : Shake256) (secret₁ token₁ position₁ secret₂ token₂ position₂ : ByteString) :
    (∀ s t, intermediateKeySponge H secret₁ token₁ position₁ 2 = .ok s →
      intermediateKeySponge H secret₂ token₂ position₂ 1 = .ok t → s ≠ t) ∧
    (∀ s t, intermediateKeySponge H secret₁ token₁ position₁ 2 = .ok s →
      intermediateKeySponge H secret₂ token₂ position₂ 2 = .ok t →
        (s = t ↔ token₁ = token₂ ∧ keyNumber H secret₁ position₁ = keyNumber H secret₂ position₂)) ∧
    ∀ key, generateWalletKey H secret₁ token₁ position₁ 2 = .ok key →
      generateWalletKey H secret₂ token₂ position₂ 2 = .ok key → token₁ ≠ token₂ →
        ∃ s t, intermediateKeySponge H secret₁ token₁ position₁ 2 = .ok s ∧
          intermediateKeySponge H secret₂ token₂ position₂ 2 = .ok t ∧
          (Collision H 8192 s t ∨ Collision H 32768 (shake256Hex H s 8192) (shake256Hex H t 8192)) := by
  refine ⟨fun s t hs ht => ?_, fun s t hs ht => ?_, fun key hkey₁ hkey₂ htokens => ?_⟩
  · rw [intermediateKeySponge_ok hs, intermediateKeySponge_ok ht]
    exact keySponge_two_ne_one
  · rw [intermediateKeySponge_ok hs, intermediateKeySponge_ok ht]
    exact keySponge_two_inj
  · obtain ⟨s, hs, hkeyS⟩ := generateWalletKey_absorbs hkey₁
    obtain ⟨t, ht, hkeyT⟩ := generateWalletKey_absorbs hkey₂
    have hne : s ≠ t := by
      rw [intermediateKeySponge_ok hs, intermediateKeySponge_ok ht]
      exact fun heq => htokens (keySponge_two_inj.mp heq).1
    refine ⟨s, t, hs, ht, ?_⟩
    by_cases hinner : shake256Hex H s 8192 = shake256Hex H t 8192
    · exact .inl ⟨hne, hinner⟩
    · exact .inr ⟨hinner, hkeyS.trans hkeyT.symm⟩

theorem version2_separated_delimiter :
    ∃ s t, intermediateKeySponge (.constant 0) (ascii "ab") (ascii "x|T") (ascii "01") 2 = .ok s ∧
      intermediateKeySponge (.constant 0) (ascii "ab") (ascii "T") (ascii "01") 1 = .ok t ∧ s ≠ t := by
  obtain ⟨s, hs⟩ := exists_intermediateKeySponge (.constant 0) (ascii "x|T") (.inr rfl) (show ascii "ab" ≠ [] by decide)
    (show ascii "01" ≠ [] by decide)
  obtain ⟨t, ht⟩ := exists_intermediateKeySponge (.constant 0) (ascii "T") (.inl rfl) (show ascii "ab" ≠ [] by decide)
    (show ascii "01" ≠ [] by decide)
  exact ⟨s, t, hs, ht, (version2_separated _ _ _ _ _ _ _).1 s t hs ht⟩

end Sponge

end Wallet

end KnishIO
