import KnishIO.Keccak.Sponge
import KnishIO.Wallet

open ByteString

namespace KnishIO

section Shake

/-- What a buffer of zeros holds after a call. -/
def Keccak.Outcome.output : Keccak.Outcome → ByteString
  | .written output => output
  | _ => []

theorem fits_shake256 : Keccak.Fits 1088 512 := ⟨by decide, by decide, by decide, by decide⟩

theorem FIPS202_SHAKE256_output (input : ByteString) (outputByteLen : Nat) :
    (FIPS202_SHAKE256 input outputByteLen).output =
      (Keccak.byteSponge 136 (by decide)).hash (Vector.replicate 200 0) (Keccak.pad 136 0x1F input) outputByteLen := by
  rw [FIPS202_SHAKE256, Keccak.Keccak_eq_byteSponge fits_shake256 (by decide)]
  rfl

/-- The SHAKE256 of the source: the input's length goes through an `unsigned int`. Output sizes are below `2 ^ 31`. -/
def keccakShake256 : Shake256 where
  squeeze str size := (FIPS202_SHAKE256 (str.take (str.length % 2 ^ 32)) size).output
  length_squeeze str size := by
    rw [FIPS202_SHAKE256_output, Sponge.hash, Sponge.length_squeeze]

/-- A shorter output is the front of a longer one for the same input. -/
theorem squeeze_prefix_of_le (str : ByteString) {short long : Nat} (h : short ≤ long) :
    keccakShake256.squeeze str short <+: keccakShake256.squeeze str long := by
  simp only [keccakShake256]
  rw [FIPS202_SHAKE256_output, FIPS202_SHAKE256_output, Sponge.hash, Sponge.hash, ← Sponge.take_squeeze _ _ h]
  exact List.take_prefix _ _

theorem toHexString_prefix {a b : ByteString} (h : a <+: b) : toHexString a <+: toHexString b := by
  obtain ⟨rest, rfl⟩ := h
  exact ⟨toHexString rest, (List.flatMap_append).symm⟩

theorem shake256Hex_prefix (str : ByteString) {short long : Nat} (h : short ≤ long) :
    shake256Hex keccakShake256 str short <+: shake256Hex keccakShake256 str long :=
  toHexString_prefix (squeeze_prefix_of_le str (Nat.div_le_div_right h))

end Shake

section Secrets

/-- `shake256` with its conversions: the size is cast to an `int`, so that the end of a larger buffer keeps its
zeros, and a negative size runs past the buffer. -/
def shake256Sized (H : Shake256) (str : ByteString) (bits : UInt64) : Throws ByteString :=
  if bits = 0 ∨ bits % 8 ≠ 0 then .error (.invalidArgument (ascii "SHAKE256 bits size must be positive and divisible by 8"))
  else
    let size := (bits / 8).toNat
    let cast := size % 2 ^ 32
    if 2 ^ 31 ≤ cast then .error .undefinedBehavior
    else .ok (H.squeeze str cast ++ List.replicate (size - cast) 0)

/-- `KnishIOClient::generateSecret` with a seed; the product wraps around. -/
def generateSecret (H : Shake256) (seed : ByteString) (length : UInt64) : Throws ByteString :=
  if seed = [] then .error (.knishio (ascii "Seed cannot be empty for deterministic generation"))
  else if length = 0 ∨ length % 2 ≠ 0 then .error (.knishio (ascii "Secret length must be positive and even"))
  else (shake256Sized H seed (length * 4)).map toHexString

/-- Below `2 ^ 31` bytes the conversions change nothing. -/
theorem shake256Sized_eq (H : Shake256) (str : ByteString) {bits : UInt64} (hne : bits ≠ 0) (hbytes : bits % 8 = 0)
    (hsmall : bits.toNat < 2 ^ 34) : shake256Sized H str bits = .ok (shake256 H str bits.toNat) := by
  have hsize : (bits / 8).toNat = bits.toNat / 8 := UInt64.toNat_div bits 8
  have hcast : bits.toNat / 8 % 2 ^ 32 = bits.toNat / 8 := Nat.mod_eq_of_lt (by omega)
  rw [shake256Sized, if_neg (by simp [hne, hbytes])]
  simp only [hsize, hcast]
  rw [if_neg (by omega), Nat.sub_self, List.replicate_zero, List.append_nil]
  rfl

theorem generateSecret_eq (H : Shake256) {seed : ByteString} (hseed : seed ≠ []) {length : UInt64} (hne : length ≠ 0)
    (heven : length % 2 = 0) (hsmall : length.toNat < 2 ^ 32) :
    generateSecret H seed length = .ok (shake256Hex H seed (length.toNat * 4)) := by
  have hproduct : (length * 4).toNat = length.toNat * 4 := by
    rw [UInt64.toNat_mul]
    exact Nat.mod_eq_of_lt (show length.toNat * 4 < 2 ^ 64 by omega)
  have hhalf : length.toNat % 2 = 0 := by
    have := congrArg UInt64.toNat heven
    rwa [UInt64.toNat_mod] at this
  have hpositive : length.toNat ≠ 0 := fun h => hne (UInt64.toNat_inj.mp h)
  have hzero : length * 4 ≠ 0 := by
    intro h
    have hnothing : length.toNat * 4 = 0 := hproduct.symm.trans (congrArg UInt64.toNat h)
    omega
  have hbytes : length * 4 % 8 = 0 := by
    refine UInt64.toNat_inj.mp ?_
    rw [UInt64.toNat_mod, hproduct]
    exact show length.toNat * 4 % 8 = 0 by omega
  rw [generateSecret, if_neg hseed, if_neg (by simp [hne, heven]), shake256Sized_eq H seed hzero hbytes (by omega), hproduct]
  rfl

theorem generateSecret_ok {H : Shake256} {seed secret : ByteString} {length : UInt64} (hsmall : length.toNat < 2 ^ 32)
    (h : generateSecret H seed length = .ok secret) : length.toNat % 2 = 0 ∧ secret = shake256Hex H seed (length.toNat * 4) := by
  have hchecked : seed ≠ [] ∧ length ≠ 0 ∧ length % 2 = 0 := by
    unfold generateSecret at h
    split_ifs at h with hseed hlength
    exact ⟨hseed, by simpa using hlength⟩
  obtain ⟨hseed, hne, heven⟩ := hchecked
  rw [generateSecret_eq H hseed hne heven hsmall] at h
  refine ⟨?_, (Except.ok.inj h).symm⟩
  have := congrArg UInt64.toNat heven
  rwa [UInt64.toNat_mod] at this

/-- Secrets of one seed are fronts of one another, up to the lengths whose bytes an `int` counts. -/
theorem generateSecret_prefix {seed short long : ByteString} {m n : UInt64} (hmn : m ≤ n) (hn : n.toNat < 2 ^ 32)
    (hshort : generateSecret keccakShake256 seed m = .ok short) (hlong : generateSecret keccakShake256 seed n = .ok long) :
    short = long.take m.toNat := by
  have hmn' : m.toNat ≤ n.toNat := UInt64.le_iff_toNat_le.mp hmn
  obtain ⟨heven, rfl⟩ := generateSecret_ok (hmn'.trans_lt hn) hshort
  obtain ⟨-, rfl⟩ := generateSecret_ok hn hlong
  have hlength : (shake256Hex keccakShake256 seed (m.toNat * 4)).length = m.toNat := by
    rw [length_shake256Hex]
    omega
  have hprefix := shake256Hex_prefix seed (Nat.mul_le_mul_right 4 hmn')
  rw [List.prefix_iff_eq_take, hlength] at hprefix
  exact hprefix

theorem generateSecret_prefix_letter :
    shake256Hex keccakShake256 (ascii "a") (64 * 4) = (shake256Hex keccakShake256 (ascii "a") (128 * 4)).take 64 := by
  have hseed : ascii "a" ≠ [] := by decide
  exact generateSecret_prefix (m := 64) (n := 128) (by decide) (by decide)
    (generateSecret_eq keccakShake256 hseed (by decide) (by decide) (by decide))
    (generateSecret_eq keccakShake256 hseed (by decide) (by decide) (by decide))

/-- The seed of the ML-KEM key pair is the secret generated from the wallet's key, read back. -/
theorem fromHexString_generateSecret (H : Shake256) {key : ByteString} (hkey : key ≠ []) :
    (generateSecret H key 128).bind fromHexString = .ok (shake256 H key 512) := by
  rw [generateSecret_eq H hkey (by decide) (by decide) (by decide)]
  exact fromHexString_toHexString _

namespace Wallet

theorem hexOrDigest_idem (H : Shake256) (secret : ByteString) (bits : Nat) (hbits : 8 ≤ bits) :
    hexOrDigest H (hexOrDigest H secret bits) bits = hexOrDigest H secret bits :=
  if_pos (isValidHex_hexOrDigest H secret bits hbits)

/-- Keys are generated from the digest of a secret that is not hexadecimal as from the secret itself. -/
theorem generateWalletKey_hexOrDigest (H : Shake256) {secret : ByteString} (hsecret : secret ≠ []) (token position : ByteString)
    (otsVersion : Int) :
    generateWalletKey H (hexOrDigest H secret 1024) token position otsVersion =
      generateWalletKey H secret token position otsVersion := by
  have hdigest : hexOrDigest H secret 1024 ≠ [] := by
    unfold hexOrDigest
    split
    · exact hsecret
    · exact List.ne_nil_of_length_pos (by rw [length_shake256Hex]; decide)
  unfold generateWalletKey
  simp only [hexOrDigest_idem H secret 1024 (by decide), if_neg hsecret, if_neg hdigest]

/-- A secret that is not hexadecimal has the keys of one that is, of 256 digits, and the first 64 of these are the
bundle hash. -/
theorem keys_of_digest {secret : ByteString} (hsecret : secret ≠ []) (hhex : WalletCrypto.isValidHex secret = false) :
    ∃ rest : ByteString, rest.length = 192 ∧ ∀ token position otsVersion,
      generateWalletKey keccakShake256 (generateBundleHash keccakShake256 secret ++ rest) token position otsVersion =
        generateWalletKey keccakShake256 secret token position otsVersion := by
  obtain ⟨rest, hrest⟩ : generateBundleHash keccakShake256 secret <+: shake256Hex keccakShake256 secret 1024 :=
    shake256Hex_prefix secret (by norm_num)
  have hdigest : hexOrDigest keccakShake256 secret 1024 = generateBundleHash keccakShake256 secret ++ rest := by
    rw [hexOrDigest, if_neg (by rw [hhex]; exact Bool.false_ne_true), hrest]
  refine ⟨rest, ?_, fun token position otsVersion => ?_⟩
  · have hlength := congrArg List.length hrest
    rw [List.length_append, generateBundleHash, length_shake256Hex, length_shake256Hex] at hlength
    omega
  · rw [← hdigest, generateWalletKey_hexOrDigest _ hsecret]

theorem keys_of_digest_letter :
    ∃ rest : ByteString, rest.length = 192 ∧ ∀ token position otsVersion,
      generateWalletKey keccakShake256 (generateBundleHash keccakShake256 (ascii "z") ++ rest) token position otsVersion =
        generateWalletKey keccakShake256 (ascii "z") token position otsVersion :=
  keys_of_digest (by decide) (by decide)

end Wallet

end Secrets

end KnishIO
