import KnishIO.Library.ByteString

open ByteString

/-- What a sponge does with its state: blocks of `rate` bytes are added to it, and its first `rate` bytes are given
out. -/
structure Sponge (σ : Type) where
  rate : Nat
  rate_pos : 0 < rate
  permute : σ → σ
  add : σ → ByteString → σ
  byte : σ → Nat → UInt8

namespace Sponge

variable {σ τ : Type}

def absorb (S : Sponge σ) (s : σ) (blocks : List ByteString) : σ := blocks.foldl (fun s block => S.permute (S.add s block)) s

/-- The byte of the output at place `k`. -/
def outputByte (S : Sponge σ) (s : σ) (k : Nat) : UInt8 := S.byte (S.permute^[k / S.rate] s) (k % S.rate)

def squeeze (S : Sponge σ) (s : σ) (size : Nat) : ByteString := (List.range size).map (S.outputByte s)

/-- The output for a padded text, from the state `s`. -/
def hash (S : Sponge σ) (s : σ) (padded : ByteString) (size : Nat) : ByteString :=
  S.squeeze (S.absorb s (blocks S.rate padded)) size

section Squeeze

variable (S : Sponge σ)

@[simp] theorem length_squeeze (s : σ) (size : Nat) : (S.squeeze s size).length = size := by simp [squeeze]

/-- A shorter output is the front of a longer one. -/
theorem take_squeeze (s : σ) {short long : Nat} (h : short ≤ long) : (S.squeeze s long).take short = S.squeeze s short := by
  rw [squeeze, squeeze, ← List.map_take, List.take_range, Nat.min_eq_left h]

theorem outputByte_of_lt (s : σ) {k : Nat} (hk : k < S.rate) : S.outputByte s k = S.byte s k := by
  rw [outputByte, Nat.div_eq_of_lt hk, Nat.mod_eq_of_lt hk, Function.iterate_zero_apply]

theorem outputByte_add_rate (s : σ) (k : Nat) : S.outputByte s (S.rate + k) = S.outputByte (S.permute s) k := by
  rw [outputByte, outputByte, Nat.add_div_left _ S.rate_pos, Nat.add_mod_left, Function.iterate_succ_apply]

theorem squeeze_of_le (s : σ) {size : Nat} (hsize : size ≤ S.rate) : S.squeeze s size = (List.range size).map (S.byte s) :=
  List.map_congr_left fun _ hk => S.outputByte_of_lt s ((List.mem_range.mp hk).trans_le hsize)

/-- Beyond the rate the state is permuted, and the output goes on from there. -/
theorem squeeze_rate_add (s : σ) (size : Nat) :
    S.squeeze s (S.rate + size) = (List.range S.rate).map (S.byte s) ++ S.squeeze (S.permute s) size := by
  rw [← squeeze_of_le S s le_rfl, squeeze, squeeze, squeeze, List.range_add, List.map_append, List.map_map]
  congr 1
  exact List.map_congr_left fun k _ => S.outputByte_add_rate s k

end Squeeze

section Simulation

/-- One sponge computes what another computes on a view of the state. -/
structure Simulates (S : Sponge σ) (T : Sponge τ) (view : σ → τ) : Prop where
  rate : S.rate = T.rate
  permute : ∀ s, view (S.permute s) = T.permute (view s)
  add : ∀ s block, view (S.add s block) = T.add (view s) block
  byte : ∀ s, ∀ k < S.rate, S.byte s k = T.byte (view s) k

variable {S : Sponge σ} {T : Sponge τ} {view : σ → τ}

theorem Simulates.absorb (h : S.Simulates T view) (s : σ) (blocks : List ByteString) :
    view (S.absorb s blocks) = T.absorb (view s) blocks := by
  induction blocks generalizing s with
  | nil => rfl
  | cons block blocks ih =>
    rw [Sponge.absorb, List.foldl_cons]
    refine (ih _).trans ?_
    rw [h.permute, h.add]
    rfl

theorem Simulates.permutes (h : S.Simulates T view) (n : Nat) (s : σ) : view (S.permute^[n] s) = T.permute^[n] (view s) :=
  have hview : Function.Semiconj view S.permute T.permute := h.permute
  (hview.iterate_right n).eq s

theorem Simulates.squeeze (h : S.Simulates T view) (s : σ) (size : Nat) : S.squeeze s size = T.squeeze (view s) size := by
  refine List.map_congr_left fun k _ => ?_
  rw [outputByte, outputByte, h.byte _ _ (Nat.mod_lt _ S.rate_pos), h.permutes, h.rate]

/-- The outputs are the same for every text. -/
theorem Simulates.hash (h : S.Simulates T view) (s : σ) (padded : ByteString) (size : Nat) :
    S.hash s padded size = T.hash (view s) padded size := by
  rw [Sponge.hash, Sponge.hash, h.squeeze, h.absorb, h.rate]

end Simulation

section Collisions

variable {S : Sponge σ}

theorem absorb_append (s : σ) (front back : List ByteString) : S.absorb s (front ++ back) = S.absorb (S.absorb s front) back :=
  List.foldl_append

/-- Full blocks in front of a text are absorbed before it. -/
theorem blocks_append_front {size : Nat} (hsize : 0 < size) {front : ByteString} (hfront : size ∣ front.length)
    (text : ByteString) :
    blocks size (front ++ text) = blocks size front ++ blocks size text := by
  have hfull : ∀ fulls : List ByteString, (∀ x ∈ fulls, x.length = size) →
      blocks size (fulls.flatten ++ text) = fulls ++ blocks size text := by
    intro fulls hlength
    induction fulls with
    | nil => rfl
    | cons full fulls ih =>
      rw [List.flatten_cons, List.append_assoc, blocks_append hsize (hlength full (by simp)),
        ih fun x hx => hlength x (by simp [hx]), List.cons_append]
  have h := hfull (blocks size front) fun x hx => length_of_mem_blocks hfront hx
  rwa [flatten_blocks hsize] at h

/-- Where the permutation is injective, absorbing the same blocks keeps different states apart. -/
theorem absorb_injective (hpermute : Function.Injective S.permute) (hadd : ∀ block, Function.Injective fun s => S.add s block)
    (blocks : List ByteString) : Function.Injective fun s => S.absorb s blocks := by
  induction blocks with
  | nil => exact fun s t h => h
  | cons block blocks ih => exact fun s t h => hadd block (hpermute (ih h))

end Collisions

section Padding

/-- The bits of the multi-rate padding of a text of some length: a one, as few zeros as possible, and a one. -/
def multiRatePadding (rate length : Nat) : List Bool :=
  true :: (List.replicate ((rate - (length + 2) % rate) % rate) false ++ [true])

theorem eq_of_replicate_append {M M' : List Bool} : ∀ {j j' : Nat},
    List.replicate j false ++ true :: M = List.replicate j' false ++ true :: M' → M = M'
  | 0, 0, h => (List.cons.inj h).2
  | 0, j' + 1, h => absurd (List.cons.inj h).1 (by decide)
  | j + 1, 0, h => absurd (List.cons.inj h).1 (by decide)
  | j + 1, j' + 1, h => eq_of_replicate_append (List.cons.inj h).2

/-- The text is what stands before the last one but one. -/
theorem multiRatePadding_inj {M M' : List Bool} {rate rate' length length' : Nat}
    (h : M ++ multiRatePadding rate length = M' ++ multiRatePadding rate' length') : M = M' := by
  have hreverse := congrArg List.reverse h
  simp only [multiRatePadding, List.reverse_append, List.reverse_cons, List.reverse_nil, List.nil_append, List.reverse_replicate,
    List.append_assoc, List.cons_append, List.cons.injEq, true_and] at hreverse
  exact List.reverse_inj.mp (eq_of_replicate_append hreverse)

end Padding

end Sponge
