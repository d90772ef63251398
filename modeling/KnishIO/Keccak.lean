import KnishIO.Library.ByteString

open ByteString

namespace KnishIO

namespace Keccak

/-- `UINT8 state[200]`. -/
abbrev State := Vector UInt8 200

/-- `tKeccakLane`. -/
abbrev Lane := BitVec 64

/-- The place of byte `k` of the lane with index `i`. -/
def byteIndex (i : Fin 25) (k : Fin 8) : Fin 200 := ⟨8 * i.val + k.val, by omega⟩

instance neZero_five : NeZero 5 := ⟨by decide⟩

section Lanes

/-- The bytes from the last to the first, each shifted in. -/
def load64 (s : State) (i : Fin 25) : Lane :=
  ([7, 6, 5, 4, 3, 2, 1, 0] : List (Fin 8)).foldl (fun u k => u <<< 8 ||| (s.get (byteIndex i k)).toBitVec.setWidth 64) 0

def bytePlaces : List (Fin 8) := [0, 1, 2, 3, 4, 5, 6, 7]

def lowByte (u : Lane) : UInt8 := ⟨u.setWidth 8⟩

def store64 (s : State) (i : Fin 25) (u : Lane) : State :=
  (bytePlaces.foldl (fun (r : State × Lane) k => (r.1.set (byteIndex i k) (lowByte r.2), r.2 >>> 8)) (s, u)).1

def xor64 (s : State) (i : Fin 25) (u : Lane) : State :=
  (bytePlaces.foldl
    (fun (r : State × Lane) k => (r.1.set (byteIndex i k) (r.1.get (byteIndex i k) ^^^ lowByte r.2), r.2 >>> 8)) (s, u)).1

/-- The macro `i`. -/
def laneIndex (x y : Fin 5) : Fin 25 := ⟨x.val + 5 * y.val, by omega⟩

def readLane (s : State) (x y : Fin 5) : Lane := load64 s (laneIndex x y)

def writeLane (s : State) (x y : Fin 5) (lane : Lane) : State := store64 s (laneIndex x y) lane

def xorLane (s : State) (x y : Fin 5) (lane : Lane) : State := xor64 s (laneIndex x y) lane

/-- The macro `ROL64`, defined for offsets from 1 to 63. -/
def rol64 (a : Lane) (offset : Nat) : Lane := a <<< offset ^^^ a >>> (64 - offset)

end Lanes

section Permutation

/-- The result bit and the register after one step. -/
def LFSR86540 (LFSR : UInt8) : Bool × UInt8 :=
  (LFSR &&& 0x01 ≠ 0, if LFSR &&& 0x80 ≠ 0 then LFSR <<< 1 ^^^ 0x71 else LFSR <<< 1)

def coordinates : List (Fin 5) := [0, 1, 2, 3, 4]

def theta (s : State) : State :=
  let C (x : Fin 5) : Lane := readLane s x 0 ^^^ readLane s x 1 ^^^ readLane s x 2 ^^^ readLane s x 3 ^^^ readLane s x 4
  coordinates.foldl (fun s x =>
    let D := C (x + 4) ^^^ rol64 (C (x + 1)) 1
    coordinates.foldl (fun s y => xorLane s x y D) s) s

/-- The rotation constant of step `t`. -/
def rotation (t : Nat) : Nat := (t + 1) * (t + 2) / 2 % 64

/-- One step of the walk over the lanes: the lane in hand is rotated into the next place. -/
def rhoPiStep (r : State × Fin 5 × Fin 5 × Lane) (t : Nat) : State × Fin 5 × Fin 5 × Lane :=
  let (s, x, y, current) := r
  let (x, y) := (y, 2 * x + 3 * y)
  (writeLane s x y (rol64 current (rotation t)), x, y, readLane s x y)

def rhoPi (s : State) : State := ((List.range 24).foldl rhoPiStep (s, 1, 0, readLane s 1 0)).1

def chi (s : State) : State :=
  coordinates.foldl (fun s y =>
    let temp (x : Fin 5) : Lane := readLane s x y
    coordinates.foldl (fun s x => writeLane s x y (temp x ^^^ (~~~temp (x + 1) &&& temp (x + 2)))) s) s

/-- One bit of the register added to the first lane. -/
def iotaStep (r : State × UInt8) (j : Nat) : State × UInt8 :=
  let (bit, next) := LFSR86540 r.2
  let bitPosition := 2 ^ j - 1
  (if bit then xorLane r.1 0 0 ((1 : Lane) <<< bitPosition) else r.1, next)

def iota (s : State) (LFSRstate : UInt8) : State × UInt8 := (List.range 7).foldl iotaStep (s, LFSRstate)

def round (r : State × UInt8) : State × UInt8 := iota (chi (rhoPi (theta r.1))) r.2

def KeccakF1600_StatePermute (s : State) : State := (round^[24] (s, 0x01)).1

end Permutation

section Sponge

/-- The first bytes of the input added to the state. -/
def xorBytes (s : State) (input : ByteString) : State :=
  Vector.ofFn fun i => s.get i ^^^ input.getD i.val 0

/-- The absorbing loop and the size of the block it ends in; the length of the input is fuel enough for a positive
rate. -/
def absorbInput (rateInBytes : Nat) : Nat → State → ByteString → State × Nat
  | 0, s, _ => (s, 0)
  | fuel + 1, s, input =>
    if input = [] then (s, 0)
    else
      let blockSize := min input.length rateInBytes
      let s := xorBytes s (input.take blockSize)
      if blockSize = rateInBytes then absorbInput rateInBytes fuel (KeccakF1600_StatePermute s) (input.drop blockSize)
      else (s, blockSize)

def xorByte (s : State) (place : Nat) (byte : UInt8) : State :=
  Vector.ofFn fun i => if i.val = place then s.get i ^^^ byte else s.get i

/-- The padding and the switch to the squeezing phase. -/
def switchPhase (rateInBytes : Nat) (delimitedSuffix : UInt8) (s : State) (blockSize : Nat) : State :=
  let s := xorByte s blockSize delimitedSuffix
  let s := if delimitedSuffix &&& 0x80 ≠ 0 ∧ blockSize = rateInBytes - 1 then KeccakF1600_StatePermute s else s
  KeccakF1600_StatePermute (xorByte s (rateInBytes - 1) 0x80)

/-- The state after all of the input, before the first byte of the output. -/
def squeezingState (rateInBytes : Nat) (delimitedSuffix : UInt8) (input : ByteString) : State :=
  let (s, blockSize) := absorbInput rateInBytes input.length (Vector.replicate 200 0) input
  switchPhase rateInBytes delimitedSuffix s blockSize

/-- The squeezing loop; the length of the output is fuel enough for a positive rate. -/
def squeezeOutput (rateInBytes : Nat) : Nat → State → Nat → ByteString
  | 0, _, _ => []
  | fuel + 1, s, outputByteLen =>
    if outputByteLen = 0 then []
    else
      let blockSize := min outputByteLen rateInBytes
      let rest := outputByteLen - blockSize
      s.toList.take blockSize ++
        (if rest > 0 then squeezeOutput rateInBytes fuel (KeccakF1600_StatePermute s) rest else [])

end Sponge

end Keccak

section Hash

open Keccak

/-- What a call does to the output buffer. -/
inductive Keccak.Outcome where
  | unwritten
  | written (output : ByteString)
  | undefined

/-- The guard adds in 32 bits. A rate that passes it and is zero or larger than the state leads out of the state. -/
def Keccak (rate capacity : UInt32) (input : ByteString) (delimitedSuffix : UInt8) (outputByteLen : Nat) : Outcome :=
  if rate + capacity ≠ 1600 ∨ rate % 8 ≠ 0 then .unwritten
  else if rate = 0 ∨ 1600 < rate then .undefined
  else
    let rateInBytes := rate.toNat / 8
    .written (squeezeOutput rateInBytes outputByteLen (squeezingState rateInBytes delimitedSuffix input) outputByteLen)

def FIPS202_SHAKE256 (input : ByteString) (outputByteLen : Nat) : Outcome :=
  Keccak 1088 512 input 0x1F outputByteLen

end Hash

end KnishIO
