import KnishIO.Library.BinaryFloat
import KnishIO.Molecule.Signing

open ByteString BinaryFloat

namespace KnishIO

/-- `(size_t)` of a double; out of range it has no meaning. -/
def toSizeT : BinaryFloat.Value → Throws Nat
  | .finite q => if -1 < q ∧ q < 2 ^ 64 then .ok ⌊q⌋.toNat else .error .undefinedBehavior
  | _ => .error .undefinedBehavior

/-- `(size_t)std::ceil((double)str.length() / size)`. -/
def numChunks (length size : Nat) : Throws Nat :=
  toSizeT (ceil (div double (round double length) (round double size)))

/-- `std::string::substr`. -/
def substr (str : ByteString) (pos count : Nat) : Throws ByteString :=
  if str.length < pos then .error (.outOfRange (ascii "basic_string::substr"))
  else .ok ((str.drop pos).take count)

/-- The loop of `chunkSubstr`: a number of pieces from an offset on. -/
def chunksFrom (str : ByteString) (size : Nat) : Nat → Nat → Throws (List ByteString)
  | 0, _ => .ok []
  | i + 1, offset => do
    let chunk ← substr str offset size
    let chunks ← chunksFrom str size i (offset + size)
    return chunk :: chunks

/-- `chunkSubstr` step by step. -/
def chunkSubstrLoop (str : ByteString) (size : Nat) : Throws (List ByteString) := do
  let count ← numChunks str.length size
  chunksFrom str size count 0

section Counting

theorem toSizeT_ceil {q : ℚ} (h : 0 ≤ q) (hq : q ≤ 2 ^ 53) : toSizeT (.finite ⌈q⌉) = .ok ⌈q⌉₊ := by
  have hnonneg : (0 : ℚ) ≤ (⌈q⌉ : ℤ) := Int.cast_nonneg (Int.ceil_nonneg h)
  have htop : ((⌈q⌉ : ℤ) : ℚ) ≤ 2 ^ 53 := by
    exact_mod_cast Int.ceil_le.mpr (by exact_mod_cast hq : q ≤ ((2 ^ 53 : ℤ) : ℚ))
  have hrange : (-1 : ℚ) < (⌈q⌉ : ℤ) ∧ ((⌈q⌉ : ℤ) : ℚ) < 2 ^ 64 := by
    constructor
    · linarith
    · exact htop.trans_lt (by norm_num)
  rw [toSizeT, if_pos hrange, Int.floor_intCast, Int.ceil_toNat]

/-- Up to the last length before doubles leave integers out, the pieces are counted exactly. -/
theorem numChunks_eq {length size : Nat} (hlength : length ≤ 2 ^ 53) (hsize : size ≤ 2 ^ 53) (hpos : 0 < size) :
    numChunks length size = .ok ((length + size - 1) / size) := by
  have hsizeq : (0 : ℚ) < size := by exact_mod_cast hpos
  have hbound : (length / size : ℚ) ≤ 2 ^ 53 := by
    calc (length / size : ℚ) ≤ length := div_le_self (by positivity) (by exact_mod_cast hpos)
      _ ≤ 2 ^ 53 := by exact_mod_cast hlength
  rw [numChunks, ceil_div_nat (by decide) (by decide) (by decide) hlength hsize hpos, toSizeT_ceil (by positivity) hbound]
  congr 1
  refine eq_of_forall_ge_iff fun c => ?_
  rw [Nat.ceil_le, div_le_iff₀ hsizeq, Nat.div_le_iff_le_mul_add_pred hpos]
  constructor
  · intro h
    have : length ≤ c * size := by exact_mod_cast h
    rw [Nat.mul_comm]
    omega
  · intro h
    rw [Nat.mul_comm] at h
    exact_mod_cast (by omega : length ≤ c * size)

/-- The loop stays inside the text as long as every piece starts there. -/
theorem chunksFrom_eq {str : ByteString} {size count : Nat} (offset : Nat) (h : ∀ i < count, offset + i * size ≤ str.length) :
    chunksFrom str size count offset =
      .ok ((List.range count).map fun i => (str.drop (offset + i * size)).take size) := by
  induction count generalizing offset with
  | zero => rfl
  | succ count ih =>
    have hstart : offset ≤ str.length := by simpa using h 0 (by omega)
    have hrest := ih (offset + size) fun i hi => by
      have := h (i + 1) (by omega)
      rw [Nat.succ_mul] at this
      omega
    have hcut : substr str offset size = .ok ((str.drop offset).take size) := if_neg (by omega)
    rw [chunksFrom, Throws.bind_of_ok hcut, Throws.bind_of_ok hrest, List.range_succ_eq_map, List.map_cons, List.map_map,
      Nat.zero_mul, Nat.add_zero]
    refine congrArg Except.ok (congrArg (_ :: ·) (List.map_congr_left fun i _ => ?_))
    rw [Function.comp_apply, Nat.succ_mul, Nat.add_assoc, Nat.add_comm size]

/-- Every piece starts inside the text. -/
theorem start_lt {length size i : Nat} (hi : i < (length + size - 1) / size) : i * size < length := by
  obtain rfl | hsize := size.eq_zero_or_pos
  · rw [Nat.div_zero] at hi
    omega
  have hle := (Nat.le_div_iff_mul_le hsize).mp (Nat.succ_le_of_lt hi)
  rw [Nat.succ_mul] at hle
  omega

/-- The loop on doubles cuts as `chunkSubstr` does. -/
theorem chunkSubstrLoop_eq {str : ByteString} {size : Nat} (hstr : str.length ≤ 2 ^ 53) (hsize : size ≤ 2 ^ 53)
    (hpos : 0 < size) : chunkSubstrLoop str size = .ok (chunkSubstr str size) := by
  rw [chunkSubstrLoop, Throws.bind_of_ok (numChunks_eq hstr hsize hpos), chunksFrom_eq 0 fun i hi => ?_]
  · simp only [Nat.zero_add]
    rfl
  · rw [Nat.zero_add]
    exact (start_lt hi).le

end Counting

section Cuts

/-- A text cut into at most `n` pieces: none is empty, and all but the last have one size. -/
structure Cuts (str : ByteString) (size n : Nat) (chunks : List ByteString) : Prop where
  count : chunks.length ≤ n
  nonempty : ∀ chunk ∈ chunks, chunk ≠ []
  full : ∀ chunk ∈ chunks.dropLast, chunk.length = size
  whole : chunks.flatten = str

theorem cuts_chunkSubstr {str : ByteString} {n : Nat} (hstr : str ≠ []) (hn : 0 < n) :
    Cuts str ((str.length + n - 1) / n) n (chunkSubstr str ((str.length + n - 1) / n)) := by
  have hsize : 0 < (str.length + n - 1) / n := by
    have := List.length_pos_of_ne_nil hstr
    exact Nat.div_pos (by omega) hn
  refine ⟨Molecule.length_chunkSubstr_le hn, ?_, ?_, flatten_blocks hsize str⟩
  · intro chunk hchunk
    obtain ⟨i, hi, rfl⟩ := List.mem_map.mp hchunk
    have hstart := start_lt (List.mem_range.mp hi)
    refine List.ne_nil_of_length_pos ?_
    rw [List.length_take, List.length_drop]
    omega
  · intro chunk hchunk
    rw [chunkSubstr, blocks, ← List.map_dropLast, List.dropLast_eq_take, List.length_range, List.take_range] at hchunk
    obtain ⟨i, hi, rfl⟩ := List.mem_map.mp hchunk
    have hi := List.mem_range.mp hi
    -- the piece after this one starts inside the text too
    have hnext : (i + 1) * ((str.length + n - 1) / n) < str.length := start_lt (by omega)
    rw [Nat.succ_mul] at hnext
    rw [List.length_take, List.length_drop]
    omega

end Cuts

namespace Molecule

section Assigning

/-- The loop that assigns the pieces from an atom on; there is nothing past the last atom. The position of the last
atom assigned to is carried along. -/
def assignFrom (atoms : List Atom) (lastPosition : ByteString) : Nat → List ByteString → Throws (List Atom × ByteString)
  | _, [] => .ok (atoms, lastPosition)
  | chunkCount, fragment :: fragments =>
    match atoms[chunkCount]? with
    | none => .error .undefinedBehavior
    | some atom =>
      assignFrom (atoms.set chunkCount { atom with otsFragment := fragment }) atom.position (chunkCount + 1) fragments

/-- What `sign` does with a signature text: the atoms with their fragments, and the last position. -/
def writeSignature (atoms : List Atom) (signatureFragments : ByteString) : Throws (List Atom × ByteString) := do
  let chunkSize := (signatureFragments.length + atoms.length - 1) / atoms.length
  let chunkedSignature ← chunkSubstrLoop signatureFragments chunkSize
  assignFrom atoms [] 0 chunkedSignature

theorem assignFrom_eq (front : List Atom) {back : List Atom} {fragments : List ByteString} (lastPosition : ByteString)
    (h : fragments.length ≤ back.length) :
    assignFrom (front ++ back) lastPosition front.length fragments =
      .ok (front ++ assignFragments back fragments, (back.take fragments.length).getLast?.elim lastPosition (·.position)) := by
  induction fragments generalizing front back lastPosition with
  | nil => cases back <;> rfl
  | cons fragment fragments ih =>
    cases back with
    | nil => simp at h
    | cons atom back =>
      have hhere : (front ++ atom :: back)[front.length]? = some atom := by simp
      have hset : (front ++ atom :: back).set front.length { atom with otsFragment := fragment } =
          (front ++ [{ atom with otsFragment := fragment }]) ++ back := by simp
      have hrest := ih (front ++ [{ atom with otsFragment := fragment }]) atom.position
        (show fragments.length ≤ back.length by simpa using h)
      rw [List.length_append, List.length_singleton, ← hset, List.append_assoc, List.singleton_append] at hrest
      have hstep : assignFrom (front ++ atom :: back) lastPosition front.length (fragment :: fragments) =
          assignFrom ((front ++ atom :: back).set front.length { atom with otsFragment := fragment }) atom.position
            (front.length + 1) fragments := by
        simp only [assignFrom, hhere]
      rw [hstep, hrest, assignFragments, List.length_cons, List.take_succ_cons, List.getLast?_cons]
      cases (back.take fragments.length).getLast? with
      | none => rfl
      | some last => rfl

theorem chunkSize_bounds {length n : Nat} (hlength : 0 < length) (hn : 0 < n) :
    0 < (length + n - 1) / n ∧ (length + n - 1) / n ≤ length := by
  refine ⟨Nat.div_pos (by omega) hn, Nat.div_le_of_le_mul ?_⟩
  obtain ⟨l, rfl⟩ := Nat.exists_eq_succ_of_ne_zero hlength.ne'
  obtain ⟨k, rfl⟩ := Nat.exists_eq_succ_of_ne_zero hn.ne'
  rw [Nat.succ_mul, Nat.mul_succ]
  omega

theorem chunkSubstrLoop_ceil {str : ByteString} {n : Nat} (hstr : str ≠ []) (hlength : str.length ≤ 2 ^ 53) (hn : 0 < n) :
    chunkSubstrLoop str ((str.length + n - 1) / n) = .ok (chunkSubstr str ((str.length + n - 1) / n)) := by
  obtain ⟨hpos, hle⟩ := chunkSize_bounds (List.length_pos_of_ne_nil hstr) hn
  exact chunkSubstrLoop_eq hlength (hle.trans hlength) hpos

/-- The loops write every piece, and none past the last atom. -/
theorem writeSignature_eq {atoms : List Atom} {signature : ByteString} (hatoms : atoms ≠ []) (hsignature : signature ≠ [])
    (hlength : signature.length ≤ 2 ^ 53) :
    writeSignature atoms signature =
      .ok (assignFragments atoms (chunkSubstr signature ((signature.length + atoms.length - 1) / atoms.length)),
        (atoms.take (chunkSubstr signature ((signature.length + atoms.length - 1) / atoms.length)).length).getLast?.elim []
          (·.position)) := by
  have hn := List.length_pos_of_ne_nil hatoms
  rw [writeSignature, Throws.bind_of_ok (chunkSubstrLoop_ceil hsignature hlength hn)]
  exact assignFrom_eq [] [] (length_chunkSubstr_le hn)

/-- A signature that `sign` makes is written as its loops write it. -/
theorem sign_writes {H : Shake256} {m signed : Molecule} {secret position : ByteString} {anonymous compressed : Bool}
    (hsign : (sign H secret anonymous compressed).exec m = (.ok position, signed)) :
    ∃ key hash signature, oneTimeSignature H key hash compressed = .ok signature ∧
      writeSignature m.atoms signature = .ok (signed.atoms, position) := by
  cases hatoms : m.atoms with
  | nil =>
    simp only [sign, Act.exec_bind, Act.exec_get, Act.andThen_ok, hatoms, Act.exec_throw] at hsign
    cases hsign
  | cons front rest =>
    obtain ⟨hash, key, signature, hhash, hkey, hsig, -⟩ := sign_ok_inv hatoms hsign
    rw [sign_exec hatoms anonymous hhash hkey hsig] at hsign
    obtain ⟨hposition, rfl⟩ := Prod.mk.inj hsign
    obtain rfl := Except.ok.inj hposition
    have hlength := length_oneTimeSignature hkey (hashAtomsBase17_signable hhash) hsig
    have hbounds : 1 ≤ signature.length ∧ signature.length ≤ 8192 := by
      rw [hlength, signatureLength]
      split_ifs <;> omega
    refine ⟨key, hash, signature, hsig, ?_⟩
    rw [← hatoms]
    exact writeSignature_eq (by simp [hatoms]) (List.ne_nil_of_length_pos (by omega)) (hbounds.2.trans (by norm_num))

/-- Up to 2^53 characters, a text cut for a number of atoms never has more pieces than there are atoms: none is empty,
all but the last have the computed size, nothing is lost, and the loop that assigns them stays inside the atoms; this
covers every signature that `sign` makes. -/
theorem signature_fits (H : Shake256) :
    (∀ (str : ByteString) (n : Nat), str ≠ [] → str.length ≤ 2 ^ 53 → 0 < n →
      ∃ chunks, chunkSubstrLoop str ((str.length + n - 1) / n) = .ok chunks ∧
        Cuts str ((str.length + n - 1) / n) n chunks) ∧
    (∀ (atoms : List Atom) (signature : ByteString), atoms ≠ [] → signature ≠ [] → signature.length ≤ 2 ^ 53 →
      ∃ written position, writeSignature atoms signature = .ok (written, position)) ∧
    ∀ (secret : ByteString) (anonymous compressed : Bool) (m signed : Molecule) (position : ByteString),
      (sign H secret anonymous compressed).exec m = (.ok position, signed) →
      ∃ key hash signature, oneTimeSignature H key hash compressed = .ok signature ∧
        writeSignature m.atoms signature = .ok (signed.atoms, position) :=
  ⟨fun _ _ hstr hlength hn => ⟨_, chunkSubstrLoop_ceil hstr hlength hn, cuts_chunkSubstr hstr hn⟩,
    fun _ _ hatoms hsignature hlength => ⟨_, _, writeSignature_eq hatoms hsignature hlength⟩,
    fun _ _ _ _ _ _ hsign => sign_writes hsign⟩

/-- Seven characters for three atoms. -/
theorem signature_fits_seven :
    ∃ chunks, chunkSubstrLoop (ascii "abcdefg") 3 = .ok chunks ∧ Cuts (ascii "abcdefg") 3 3 chunks :=
  (signature_fits (.constant 0)).1 (ascii "abcdefg") 3 (by decide) (by decide) (by norm_num)

example : chunkSubstr (ascii "abcdefg") 3 = [ascii "abc", ascii "def", ascii "g"] := by decide

end Assigning

end Molecule

end KnishIO
