import KnishIO.Library.ByteString

open ByteString

namespace Utf8

/-- What the bytes read so far still require of the next byte. -/
inductive State where
  | start
  | tail1
  | tail2
  | tail3
  | afterE0
  | afterED
  | afterF0
  | afterF4
  deriving DecidableEq, Repr

def isTail (b : UInt8) : Bool := 0x80 ≤ b && b ≤ 0xBF

/-- One byte; `none` where no well-formed text continues. Overlong forms, surrogates and values
past U+10FFFF are excluded by the ranges after E0, ED, F0 and F4. -/
def step : State → UInt8 → Option State
  | .start, b =>
    if b ≤ 0x7F then some .start
    else if 0xC2 ≤ b && b ≤ 0xDF then some .tail1
    else if b = 0xE0 then some .afterE0
    else if b = 0xED then some .afterED
    else if 0xE1 ≤ b && b ≤ 0xEF then some .tail2
    else if b = 0xF0 then some .afterF0
    else if 0xF1 ≤ b && b ≤ 0xF3 then some .tail3
    else if b = 0xF4 then some .afterF4
    else none
  | .tail1, b => if isTail b then some .start else none
  | .tail2, b => if isTail b then some .tail1 else none
  | .tail3, b => if isTail b then some .tail2 else none
  | .afterE0, b => if 0xA0 ≤ b && b ≤ 0xBF then some .tail1 else none
  | .afterED, b => if 0x80 ≤ b && b ≤ 0x9F then some .tail1 else none
  | .afterF0, b => if 0x90 ≤ b && b ≤ 0xBF then some .tail2 else none
  | .afterF4, b => if 0x80 ≤ b && b ≤ 0x8F then some .tail2 else none

/-- Reading a text from a given state ends between two characters. -/
def validFrom : State → ByteString → Bool
  | q, [] => q = .start
  | q, b :: rest =>
    match step q b with
    | some q' => validFrom q' rest
    | none => false

def valid (s : ByteString) : Bool := validFrom .start s

/-- Inside a character every byte has its top bit set. -/
theorem high_of_step {q q' : State} {b : UInt8} (hq : q ≠ .start) (hstep : step q b = some q') : 0x80 ≤ b := by
  cases q with
  | start => exact absurd rfl hq
  | tail1 | tail2 | tail3 | afterED | afterF4 =>
    simp [step, isTail] at hstep
    exact hstep.1.1
  | afterE0 | afterF0 =>
    simp [step] at hstep
    exact UInt8.le_trans (by decide) hstep.1.1

theorem step_ascii {b : UInt8} (hb : b ≤ 0x7F) : step .start b = some .start := by
  simp [step, hb]

@[simp] theorem validFrom_cons (q : State) (b : UInt8) (s : ByteString) :
    validFrom q (b :: s) = match step q b with
      | some q' => validFrom q' s
      | none => false := rfl

theorem validFrom_append {q : State} {s t : ByteString} (hs : validFrom q s = true) (ht : valid t = true) :
    validFrom q (s ++ t) = true := by
  induction s generalizing q with
  | nil =>
    have hq : q = .start := by simpa [validFrom] using hs
    rw [hq, List.nil_append]
    exact ht
  | cons b s ih =>
    rw [List.cons_append, validFrom_cons]
    rw [validFrom_cons] at hs
    cases hstep : step q b with
    | none => simp [hstep] at hs
    | some q' =>
      simp only [hstep] at hs ⊢
      exact ih hs

theorem valid_append {s t : ByteString} (hs : valid s = true) (ht : valid t = true) : valid (s ++ t) = true :=
  validFrom_append hs ht

theorem valid_of_ascii {s : ByteString} (hs : ∀ b ∈ s, b ≤ 0x7F) : valid s = true := by
  induction s with
  | nil => rfl
  | cons b s ih =>
    unfold valid
    rw [validFrom_cons, step_ascii (hs b (by simp))]
    exact ih fun c hc => hs c (by simp [hc])

end Utf8
