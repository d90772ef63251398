import Mathlib.Tactic

/-- A C++ `std::string` or byte vector: bytes without any encoding attached. -/
abbrev ByteString := List UInt8

namespace ByteString

/-- The bytes of an ASCII literal of the source. -/
def ascii (s : String) : ByteString := s.toList.map fun c => UInt8.ofNat c.toNat

/-- Left-padding to a given width, the effect of `setw` with `setfill`. -/
def padLeft (width : Nat) (fill : UInt8) (s : ByteString) : ByteString :=
  List.replicate (width - s.length) fill ++ s

@[simp] theorem length_padLeft (width : Nat) (fill : UInt8) (s : ByteString) :
    (padLeft width fill s).length = max width s.length := by
  simp [padLeft]
  omega

theorem mem_padLeft {width : Nat} {fill c : UInt8} {s : ByteString} (hmem : c ∈ padLeft width fill s) :
    c = fill ∨ c ∈ s := by
  rcases List.mem_append.mp hmem with h | h
  · exact .inl (List.eq_of_mem_replicate h)
  · exact .inr h

/-- A decidable statement about every byte follows from its 256 instances. -/
theorem forall_byte_of_fin {P : UInt8 → Prop} (h : ∀ n : Fin 256, P (UInt8.ofNat n.val)) (b : UInt8) : P b := by
  have hb := h ⟨b.toNat, b.toNat_lt⟩
  simpa using hb

/-- Concatenations whose blocks have pairwise equal lengths agree only blockwise. -/
theorem flatten_inj_of_lengths {α : Type} {xs ys : List (List α)}
    (hlen : xs.map List.length = ys.map List.length) (heq : xs.flatten = ys.flatten) : xs = ys := by
  induction xs generalizing ys with
  | nil =>
    cases ys with
    | nil => rfl
    | cons y ys => simp at hlen
  | cons x xs ih =>
    cases ys with
    | nil => simp at hlen
    | cons y ys =>
      simp only [List.map_cons, List.cons.injEq] at hlen
      simp only [List.flatten_cons] at heq
      obtain ⟨hx, hrest⟩ := List.append_inj heq hlen.1
      rw [hx, ih hlen.2 hrest]

/-- Two lists of pieces whose lengths agree but for the pieces in one place. -/
def LengthsButOne {α : Type} (xs ys : List (List α)) : Prop :=
  ∃ front x back front' y back', xs = front ++ x :: back ∧ ys = front' ++ y :: back' ∧
    front.map List.length = front'.map List.length ∧ back.map List.length = back'.map List.length

/-- The total length determines the one length that is left open. -/
theorem flatten_inj_of_lengthsButOne {α : Type} {xs ys : List (List α)} (h : LengthsButOne xs ys)
    (heq : xs.flatten = ys.flatten) : xs = ys := by
  obtain ⟨front, x, back, front', y, back', rfl, rfl, hfront, hback⟩ := h
  have htotal := congrArg List.length heq
  simp only [List.length_flatten, List.map_append, List.map_cons, List.sum_append, List.sum_cons, hfront, hback] at htotal
  have hone : x.length = y.length := by omega
  refine flatten_inj_of_lengths ?_ heq
  simp only [List.map_append, List.map_cons, hfront, hback, hone]

/-- Concatenations differ where the first pieces that differ are not prefixes of one another. -/
theorem flatten_ne_of_incomparable {α : Type} (common : List (List α)) {p q : List α} (hpq : ¬ p <+: q) (hqp : ¬ q <+: p)
    (xs ys : List (List α)) : (common ++ p :: xs).flatten ≠ (common ++ q :: ys).flatten := by
  intro heq
  rw [List.flatten_append, List.flatten_append, List.append_cancel_left_eq, List.flatten_cons, List.flatten_cons] at heq
  have hp : p <+: q ++ ys.flatten := heq ▸ List.prefix_append p xs.flatten
  obtain h | h := List.prefix_or_prefix_of_prefix hp (List.prefix_append q ys.flatten)
  · exact hpq h
  · exact hqp h

section Blocks

/-- The text cut into pieces of one size; the last piece may be shorter. -/
def blocks (size : Nat) (s : ByteString) : List ByteString :=
  (List.range ((s.length + size - 1) / size)).map fun i => (s.drop (i * size)).take size

variable {size : Nat}

@[simp] theorem blocks_nil : blocks size [] = [] := by
  rcases Nat.eq_zero_or_pos size with rfl | hsize
  · simp [blocks]
  · simp [blocks, Nat.div_eq_of_lt (show size - 1 < size by omega)]

/-- A non-empty text starts with its first block. -/
theorem blocks_of_ne_nil (hsize : 0 < size) {s : ByteString} (hs : s ≠ []) :
    blocks size s = s.take size :: blocks size (s.drop size) := by
  have hpos : 0 < s.length := List.length_pos_of_ne_nil hs
  have hcount : (s.length + size - 1) / size = ((s.drop size).length + size - 1) / size + 1 := by
    rw [List.length_drop]
    by_cases hle : size ≤ s.length
    · rw [show s.length + size - 1 = (s.length - size + size - 1) + size by omega, Nat.add_div_right _ hsize]
    · have hrest : (s.length - size + size - 1) / size = 0 := Nat.div_eq_of_lt (by omega)
      rw [hrest, show s.length + size - 1 = s.length - 1 + size by omega, Nat.add_div_right _ hsize,
        Nat.div_eq_of_lt (by omega)]
  unfold blocks
  rw [hcount, List.range_succ_eq_map, List.map_cons, List.map_map]
  congr 1
  · simp
  · refine List.map_congr_left fun i _ => ?_
    simp only [Function.comp_apply, List.drop_drop]
    rw [show (i + 1) * size = size + i * size by ring]

theorem blocks_append (hsize : 0 < size) {x : ByteString} (hx : x.length = size) (s : ByteString) :
    blocks size (x ++ s) = x :: blocks size s := by
  have hne : x ++ s ≠ [] := by
    rintro h
    obtain ⟨rfl, _⟩ := List.append_eq_nil_iff.mp h
    simp at hx
    omega
  rw [blocks_of_ne_nil hsize hne]
  simp [← hx]

/-- Blocks of a concatenation of full blocks are the blocks it was made of. -/
theorem blocks_flatten (hsize : 0 < size) {xs : List ByteString} (hxs : ∀ x ∈ xs, x.length = size) :
    blocks size xs.flatten = xs := by
  induction xs with
  | nil => simp
  | cons x xs ih =>
    rw [List.flatten_cons, blocks_append hsize (hxs x (by simp)), ih fun y hy => hxs y (by simp [hy])]

/-- Every text is empty or a first block followed by a shorter text. -/
theorem block_induction (hsize : 0 < size) {P : ByteString → Prop} (nil : P [])
    (step : ∀ s, s ≠ [] → P (s.drop size) → P s) (s : ByteString) : P s := by
  induction hn : s.length using Nat.strong_induction_on generalizing s with
  | _ n ih =>
    by_cases hs : s = []
    · exact hs ▸ nil
    · have hpos := List.length_pos_of_ne_nil hs
      exact step s hs (ih (s.drop size).length (by rw [List.length_drop]; omega) _ rfl)

/-- Nothing is lost by cutting. -/
theorem flatten_blocks (hsize : 0 < size) (s : ByteString) : (blocks size s).flatten = s := by
  induction s using block_induction hsize with
  | nil => simp
  | step s hs ih => rw [blocks_of_ne_nil hsize hs, List.flatten_cons, ih, List.take_append_drop]

@[simp] theorem length_blocks (s : ByteString) : (blocks size s).length = (s.length + size - 1) / size := by
  simp [blocks]

theorem mem_of_mem_blocks {s x : ByteString} {c : UInt8} (hx : x ∈ blocks size s) (hc : c ∈ x) : c ∈ s := by
  obtain ⟨i, _, rfl⟩ := List.mem_map.mp hx
  exact List.mem_of_mem_drop (List.mem_of_mem_take hc)

theorem length_of_mem_blocks {s x : ByteString} (hdvd : size ∣ s.length) (hx : x ∈ blocks size s) :
    x.length = size := by
  obtain ⟨i, hi, rfl⟩ := List.mem_map.mp hx
  obtain ⟨k, hk⟩ := hdvd
  have hsize : 0 < size := by
    by_contra h
    obtain rfl : size = 0 := by omega
    simp at hi
  have hik : i < k := by
    have := List.mem_range.mp hi
    rw [hk, show size * k + size - 1 = size - 1 + size * k by omega, Nat.add_mul_div_left _ _ hsize,
      Nat.div_eq_of_lt (by omega)] at this
    omega
  have hroom : size + i * size ≤ s.length := by
    rw [hk]
    calc size + i * size = size * (i + 1) := by ring
      _ ≤ size * k := Nat.mul_le_mul_left _ hik
  rw [List.length_take, List.length_drop]
  omega

end Blocks

end ByteString
