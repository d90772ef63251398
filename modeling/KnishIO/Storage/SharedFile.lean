import KnishIO.Storage.Durability

open ByteString FileSystem

namespace KnishIO

namespace FileStorageBackend

variable (S : Setting)

/-- The maps of the instances and the disk they share. -/
structure Shared (ι : Type) where
  stores : ι → StdMap ByteString
  disk : Disk

namespace Shared

variable {ι : Type} [DecidableEq ι]

/-- The instance as it is at the start of a call. -/
def instanceState (s : Shared ι) (i : ι) : State := { store := s.stores i, start := s.disk }

/-- One whole call on one of the instances. -/
def perform (i : ι) (r : Request) : Act Exception (Shared ι) Reply := fun s =>
  let result := (FileStorageBackend.perform S r).exec (s.instanceState i)
  (result.1, { stores := Function.update s.stores i result.2.store, disk := result.2.disk })

/-- What a call of one instance needs of its map for the file to come out right: it agrees with the file's on every
other key, and on this one where the call is the removal of a key that the instance does not know. -/
def Fresh (own file : StdMap ByteString) : Request → Prop
  | .setItem _ key _ => ∀ k, k ≠ key → own.find? k = file.find? k
  | .removeItem _ key =>
    if own.contains key then ∀ k, k ≠ key → own.find? k = file.find? k else file.find? key = none
  | _ => True

theorem set_eq_set_iff {m m' : StdMap ByteString} {key value : ByteString} :
    m.set key value = m'.set key value ↔ ∀ k, k ≠ key → m.find? k = m'.find? k := by
  constructor
  · intro h k hk
    have := congrArg (·.find? k) h
    simpa [StdMap.find?_set, hk] using this
  · intro h
    apply StdMap.ext_find?
    intro k
    rw [StdMap.find?_set, StdMap.find?_set]
    split
    next => rfl
    next hk => exact h k hk

theorem erase_eq_erase_iff {m m' : StdMap ByteString} {key : ByteString} :
    m.erase key = m'.erase key ↔ ∀ k, k ≠ key → m.find? k = m'.find? k := by
  constructor
  · intro h k hk
    have := congrArg (·.find? k) h
    simpa [StdMap.find?_erase, hk] using this
  · intro h
    apply StdMap.ext_find?
    intro k
    rw [StdMap.find?_erase, StdMap.find?_erase]
    split
    next => rfl
    next hk => exact h k hk

/-- No call throws. -/
def Returns (s : Shared ι) : List (ι × Request) → Prop
  | [] => True
  | (i, r) :: calls => (∃ reply, ((perform S i r).exec s).1 = .ok reply) ∧ Returns ((perform S i r).exec s).2 calls

/-- After every call a new instance loads what the calls so far, in their order, make of the first map. -/
def NothingLost (expected : StdMap ByteString) (s : Shared ι) : List (ι × Request) → Prop
  | [] => load S true s.disk = .ok expected
  | (i, r) :: calls =>
    load S true s.disk = .ok expected ∧ NothingLost (r.update expected) ((perform S i r).exec s).2 calls

/-- Every call is made on an instance that is fresh enough for it. -/
def AllFresh (s : Shared ι) : List (ι × Request) → Prop
  | [] => True
  | (i, r) :: calls =>
    (∃ file, load S true s.disk = .ok file ∧ Fresh (s.stores i) file r) ∧ AllFresh ((perform S i r).exec s).2 calls

theorem exec_perform (s : Shared ι) (i : ι) (r : Request) :
    (perform S i r).exec s = (((FileStorageBackend.perform S r).exec (s.instanceState i)).1,
      ⟨Function.update s.stores i ((FileStorageBackend.perform S r).exec (s.instanceState i)).2.store,
        ((FileStorageBackend.perform S r).exec (s.instanceState i)).2.disk⟩) := rfl

/-- The file after a call that returns. -/
theorem load_perform {s : Shared ι} {i : ι} {r : Request} {file : StdMap ByteString} {reply : Reply}
    (hload : load S true s.disk = .ok file) (hreply : ((perform S i r).exec s).1 = .ok reply) :
    load S true ((perform S i r).exec s).2.disk = .ok (r.filed file (s.stores i)) := by
  obtain ⟨outcome, added, hexec, hthrows, -, hreplaces⟩ := perform_cases S r (s.instanceState i)
  have hopen : ¬ Blocked S (s.instanceState i) r := fun hb => by
    obtain ⟨e, he⟩ := hthrows.mpr hb
    rw [exec_perform, hexec, he] at hreply
    cases hreply
  have hwhole := (hreplaces hopen file hload).wholly
  rw [exec_perform, hexec]
  change load S true (run ([] ++ added) s.disk) = _
  exact hwhole

/-- The file is what it is to be exactly when the instance was fresh enough. -/
theorem filed_eq_update_iff (file own : StdMap ByteString) (r : Request) :
    r.filed file own = r.update file ↔ Fresh own file r := by
  cases r with
  | setItem A key value => exact set_eq_set_iff
  | removeItem A key =>
    rw [Request.filed, Request.update, Fresh]
    by_cases hkey : own.contains key = true
    · rw [if_pos hkey, if_pos hkey]
      exact erase_eq_erase_iff
    · rw [if_neg hkey, if_neg hkey, eq_comm]
      exact StdMap.erase_eq_self
  | _ => exact iff_of_true rfl trivial

/-- One call loses nothing exactly when its instance was fresh enough. -/
theorem load_perform_iff {s : Shared ι} {i : ι} {r : Request} {file : StdMap ByteString} {reply : Reply}
    (hload : load S true s.disk = .ok file) (hreply : ((perform S i r).exec s).1 = .ok reply) :
    load S true ((perform S i r).exec s).2.disk = .ok (r.update file) ↔ Fresh (s.stores i) file r := by
  rw [load_perform S hload hreply, Except.ok.injEq]
  exact filed_eq_update_iff file (s.stores i) r

theorem NothingLost.load {expected : StdMap ByteString} {s : Shared ι} {calls : List (ι × Request)}
    (h : NothingLost S expected s calls) : FileStorageBackend.load S true s.disk = .ok expected := by
  cases calls with
  | nil => exact h
  | cons c calls => exact h.1

/-- Whole calls on instances of one path, none of which throws, lose no update exactly when each of them is made on
an instance that is fresh enough for it. -/
theorem nothingLost_iff {s : Shared ι} {initial : StdMap ByteString} (hload : load S true s.disk = .ok initial)
    {calls : List (ι × Request)} (hreturns : Returns S s calls) : NothingLost S initial s calls ↔ AllFresh S s calls := by
  induction calls generalizing s initial with
  | nil => exact iff_of_true hload trivial
  | cons c calls ih =>
    obtain ⟨i, r⟩ := c
    obtain ⟨⟨reply, hreply⟩, hrest⟩ := hreturns
    have hstep := load_perform_iff S hload hreply
    constructor
    · rintro ⟨-, hlater⟩
      have hnext := hlater.load
      exact ⟨⟨initial, hload, hstep.mp hnext⟩, (ih hnext hrest).mp hlater⟩
    · rintro ⟨⟨file, hfile, hfresh⟩, hlater⟩
      obtain rfl := Except.ok.inj (hload.symm.trans hfile)
      exact ⟨hload, (ih (hstep.mpr hfresh) hrest).mpr hlater⟩

/-- Two instances opened on a store that has never been written. -/
def sample : Shared Bool := { stores := fun _ => {}, disk := sampleDisk }

/-- Both instances write the one key of the store. -/
def rewrites : List (Bool × Request) :=
  [(false, .setItem {} (ascii "a") (ascii "1")), (true, .setItem {} (ascii "a") (ascii "2"))]

theorem nothingLost_iff_sample :
    Returns sampleSetting sample rewrites ∧ AllFresh sampleSetting sample rewrites ∧
      NothingLost sampleSetting {} sample rewrites := by
  have hreturns : Returns sampleSetting sample rewrites := ⟨⟨.done, rfl⟩, ⟨.done, rfl⟩, trivial⟩
  have hfile := load_perform sampleSetting (s := sample) (i := false) (r := .setItem {} (ascii "a") (ascii "1")) rfl rfl
  have hfresh : AllFresh sampleSetting sample rewrites := by
    refine ⟨⟨{}, rfl, fun _ _ => rfl⟩, ⟨_, hfile, fun k hk => ?_⟩, trivial⟩
    rw [Request.filed, StdMap.find?_set, if_neg hk]
    rfl
  exact ⟨hreturns, hfresh, (nothingLost_iff sampleSetting rfl hreturns).mpr hfresh⟩

/-- What one instance stores is dropped when the other one, opened before that, stores something else. -/
theorem setItem_loses_update :
    (∀ i, load sampleSetting true sample.disk = .ok (sample.stores i)) ∧
      Returns sampleSetting sample
        [(false, .setItem {} (ascii "a") (ascii "1")), (true, .setItem {} (ascii "b") (ascii "2"))] ∧
      ¬ NothingLost sampleSetting {} sample
        [(false, .setItem {} (ascii "a") (ascii "1")), (true, .setItem {} (ascii "b") (ascii "2"))] := by
  refine ⟨fun _ => rfl, ⟨⟨.done, rfl⟩, ⟨.done, rfl⟩, trivial⟩, fun h => ?_⟩
  obtain ⟨-, hfirst, hsecond⟩ := h
  have hreply : ((perform sampleSetting true (.setItem {} (ascii "b") (ascii "2"))).exec
      ((perform sampleSetting false (.setItem {} (ascii "a") (ascii "1"))).exec sample).2).1 = .ok .done := rfl
  have hfresh := (load_perform_iff sampleSetting hfirst hreply).mp hsecond
  have hmissing := hfresh (ascii "a") (by decide)
  cases hmissing

end Shared

end FileStorageBackend

end KnishIO
