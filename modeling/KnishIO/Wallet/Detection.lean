import KnishIO.Wallet

open ByteString

namespace KnishIO

namespace Wallet

section Detection

variable {H : Shake256} {secret token position address : ByteString} {preferred v : Int}

/-- The address that a version derives is this one, up to letter case. -/
def Derives (H : Shake256) (secret token position address : ByteString) (v : Int) : Prop :=
  ∃ derived, addressAt H secret token position v = .ok derived ∧ derived.map toLower = address.map toLower

/-- What detection is to find: a version that derives the address, the preferred one if it does. -/
structure Detects (H : Shake256) (secret token position address : ByteString) (preferred : Int) (found : Option Int) :
    Prop where
  some_iff : ∀ v, found = some v ↔
    Derives H secret token position address v ∧ (Derives H secret token position address preferred → v = preferred)
  none_iff : found = none ↔ ∀ v, ¬ Derives H secret token position address v

/-- The first of two candidates, where no others come into question. -/
theorem firstOf_iff {α : Type} {P : α → Prop} {a b : Prop} [Decidable a] [Decidable b] {first second : α}
    (hfirst : P first ↔ a) (hsecond : P second ↔ b) (honly : ∀ v, P v → v = first ∨ v = second) :
    (∀ v, (if a then some first else if b then some second else none) = some v ↔ P v ∧ (P first → v = first)) ∧
      ((if a then some first else if b then some second else none) = none ↔ ∀ v, ¬ P v) := by
  by_cases ha : a
  · have hP := hfirst.mpr ha
    simp only [if_pos ha, Option.some.injEq]
    refine ⟨fun v => ⟨?_, fun h => (h.2 hP).symm⟩, by simp, fun h => absurd hP (h first)⟩
    rintro rfl
    exact ⟨hP, fun _ => rfl⟩
  · have hP : ¬ P first := fun h => ha (hfirst.mp h)
    by_cases hb : b
    · have hQ := hsecond.mpr hb
      simp only [if_neg ha, if_pos hb, Option.some.injEq]
      refine ⟨fun v => ⟨?_, ?_⟩, by simp, fun h => absurd hQ (h second)⟩
      · rintro rfl
        exact ⟨hQ, fun h => absurd h hP⟩
      · rintro ⟨hv, -⟩
        exact ((honly v hv).resolve_left fun h => hP (h ▸ hv)).symm
    · have hnone (v : α) : ¬ P v := by
        intro hv
        obtain rfl | rfl := honly v hv
        · exact hP hv
        · exact hb (hsecond.mp hv)
      simp only [if_neg ha, if_neg hb]
      exact ⟨fun v => ⟨by simp, fun h => absurd h.1 (hnone v)⟩, fun _ => hnone, fun _ => trivial⟩

theorem toLower_isHexLower {c : UInt8} (hc : isHexLower c = true) : toLower c = c :=
  forall_byte_of_fin (P := fun c => isHexLower c = true → toLower c = c) (by decide +kernel) c hc

theorem addressAt_ok (H : Shake256) (token : ByteString) (hv : v = 1 ∨ v = 2) (hsecret : secret ≠ [])
    (hposition : position ≠ []) :
    ∃ derived, addressAt H secret token position v = .ok derived := by
  obtain ⟨sum, hkey⟩ := generateWalletKey_eq H token hv hsecret hposition
  exact ⟨_, by rw [addressAt, hkey]; rfl⟩

/-- Derived addresses have no capital letters. -/
theorem addressAt_lower {derived : ByteString} (h : addressAt H secret token position v = .ok derived) :
    derived.map toLower = derived := by
  unfold addressAt at h
  cases hkey : generateWalletKey H secret token position v with
  | error e => simp [hkey, Except.map] at h
  | ok key =>
    rw [hkey] at h
    obtain rfl := Except.ok.inj h
    exact List.map_congr_left (fun c hc => toLower_isHexLower (isHexLower_shake256Hex hc)) |>.trans (List.map_id _)

theorem derives_iff {derived : ByteString} (h : addressAt H secret token position v = .ok derived) :
    Derives H secret token position address v ↔ derived = address.map toLower := by
  constructor
  · rintro ⟨derived', h', hlower⟩
    obtain rfl : derived = derived' := Except.ok.inj (h.symm.trans h')
    rwa [addressAt_lower h] at hlower
  · intro heq
    exact ⟨derived, h, (addressAt_lower h).trans heq⟩

/-- Only the two versions derive an address, and only from a secret. -/
theorem Derives.inv (h : Derives H secret token position address v) : (v = 1 ∨ v = 2) ∧ secret ≠ [] := by
  obtain ⟨derived, h, -⟩ := h
  unfold addressAt at h
  cases hkey : generateWalletKey H secret token position v with
  | error e => simp [hkey, Except.map] at h
  | ok key =>
    obtain ⟨hv, hsecret, -⟩ := generateWalletKey_inv hkey
    exact ⟨hv, hsecret⟩

theorem detectOtsVersion_detects (H : Shake256) (secret token : ByteString) (hpreferred : preferred = 1 ∨ preferred = 2)
    (hposition : position ≠ []) (haddress : address ≠ []) :
    ∃ found, detectOtsVersion H secret token position address preferred = .ok found ∧
      Detects H secret token position address preferred found := by
  by_cases hsecret : secret = []
  · -- no version derives anything from an empty secret
    have hnone (v : Int) : ¬ Derives H secret token position address v := fun h => h.inv.2 hsecret
    refine ⟨none, ?_, ?_, fun _ => hnone, fun _ => rfl⟩
    · simp [detectOtsVersion, checkedOtsVersion_ok hpreferred, hsecret, bind, Except.bind, pure, Except.pure]
    · exact fun v => ⟨by simp, fun h => absurd h.1 (hnone v)⟩
  have hother : (if preferred = 1 then 2 else 1 : Int) = 1 ∨ (if preferred = 1 then 2 else 1 : Int) = 2 := by
    split
    · exact .inr rfl
    · exact .inl rfl
  obtain ⟨first, hfirst⟩ := addressAt_ok H token hpreferred hsecret hposition
  obtain ⟨second, hsecond⟩ := addressAt_ok H token hother hsecret hposition
  have heval : detectOtsVersion H secret token position address preferred =
      .ok (if first = address.map toLower then some preferred
        else if second = address.map toLower then some (if preferred = 1 then 2 else 1) else none) := by
    simp only [detectOtsVersion, checkedOtsVersion_ok hpreferred, hsecret, hposition, haddress, or_self, if_false, hfirst,
      hsecond, bind, Except.bind, pure, Except.pure]
    split_ifs <;> rfl
  have honly (v : Int) (h : Derives H secret token position address v) :
      v = preferred ∨ v = if preferred = 1 then 2 else 1 := by
    have hv := h.inv.1
    split <;> omega
  obtain ⟨hsome, hnone⟩ := firstOf_iff (derives_iff hfirst) (derives_iff hsecond) honly
  exact ⟨_, heval, hsome, hnone⟩

end Detection

end Wallet

end KnishIO
