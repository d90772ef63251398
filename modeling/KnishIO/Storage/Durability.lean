import KnishIO.Storage.Persistence

open ByteString FileSystem

namespace KnishIO

namespace FileStorageBackend

variable (S : Setting)

/-- What an operation is to make of the map. -/
def Request.update (store : StdMap ByteString) : Request → StdMap ByteString
  | .setItem _ key value => store.set key value
  | .removeItem _ key => store.erase key
  | _ => store

/-- What the file of an instance with the map `own` holds after an operation that returns. -/
def Request.filed (file own : StdMap ByteString) : Request → StdMap ByteString
  | .setItem _ key value => own.set key value
  | .removeItem _ key => if own.contains key then own.erase key else file
  | _ => file

theorem Request.filed_self (store : StdMap ByteString) (r : Request) : r.filed store store = r.update store := by
  cases r with
  | removeItem A key =>
    by_cases hkey : store.contains key = true
    · rw [filed, if_pos hkey, update]
    · rw [filed, if_neg hkey, update, StdMap.erase_eq_self.mpr]
      simpa [StdMap.contains] using hkey
  | _ => rfl

/-- The file holds the map: a new instance would load it. -/
def Synced (s : State) : Prop := load S true s.disk = .ok s.store

/-- The system refuses the `persist` that the operation comes to. -/
def Blocked (s : State) : Request → Prop
  | .setItem A key value => Refused S A s.disk (s.store.set key value)
  | .removeItem A key => s.store.contains key = true ∧ Refused S A s.disk (s.store.erase key)
  | _ => False

/-- Every operation updates the map. It throws exactly when it is blocked, and then its calls leave the file alone;
otherwise the file is replaced by the updated map. -/
theorem perform_cases (r : Request) (s : State) :
    ∃ outcome added, (perform S r).exec s = (outcome, { store := r.update s.store, start := s.start, log := s.log ++ added }) ∧
      ((∃ e, outcome = .error e) ↔ Blocked S s r) ∧ (Blocked S s r → Quiet S added) ∧
      (¬ Blocked S s r → ∀ file, load S true s.disk = .ok file → Replaces S file added s.disk (r.filed file s.store)) := by
  have hstill (file : StdMap ByteString) (hload : load S true s.disk = .ok file) : Replaces S file [] s.disk file :=
    replaces_of_quiet S (by simp [Quiet]) hload
  cases r with
  | getItem key => exact ⟨.ok (.item (s.store.find? key)), [], by simp [perform, getItem, Request.update],
      by simp [Blocked], by simp [Quiet], fun _ => hstill⟩
  | keys => exact ⟨.ok (.keys s.store.keys), [], by simp [perform, keys, Request.update],
      by simp [Blocked], by simp [Quiet], fun _ => hstill⟩
  | setItem A key value =>
    obtain ⟨outcome, added, hexec, hthrows, hquiet, hreplaces⟩ :=
      exec_persist S A { s with store := s.store.set key value }
    refine ⟨outcome.map fun _ => .done, added, ?_, ?_, hquiet, hreplaces⟩
    · simp only [perform, setItem, Act.exec_bind, Act.exec_modify, Act.andThen_ok, hexec]
      cases outcome <;> rfl
    · refine Iff.trans ?_ hthrows
      cases outcome <;> simp [Except.map]
  | removeItem A key =>
    by_cases hkey : s.store.contains key = true
    · obtain ⟨outcome, added, hexec, hthrows, hquiet, hreplaces⟩ := exec_persist S A { s with store := s.store.erase key }
      refine ⟨outcome.map fun _ => .removed true, added, ?_, ?_, fun h => hquiet h.2, fun hopen file hload => ?_⟩
      · simp only [perform, removeItem, Act.exec_bind, Act.exec_get, Act.andThen_ok, hkey, ↓reduceIte,
          Act.exec_set, hexec]
        cases outcome <;> rfl
      · refine Iff.trans ?_ (hthrows.trans (and_iff_right hkey).symm)
        cases outcome <;> simp [Except.map]
      · rw [Request.filed, if_pos hkey]
        exact hreplaces (fun h => hopen ⟨hkey, h⟩) file hload
    · have hupdate : s.store.erase key = s.store := by
        apply StdMap.erase_eq_self.mpr
        simpa [StdMap.contains] using hkey
      refine ⟨.ok (.removed false), [], ?_, by simp [Blocked, hkey], by simp [Quiet], fun _ file hload => ?_⟩
      · simp [perform, removeItem, Request.update, hkey, hupdate]
      · rw [Request.filed, if_neg hkey]
        exact hstill file hload

section NeverAhead

/-- After every operation of a run the file holds the map, and an operation that throws leaves the map as it was. -/
def NeverAhead (s : State) : List Request → Prop
  | [] => Synced S s
  | r :: rs =>
    Synced S s ∧ (∀ e, ((perform S r).exec s).1 = .error e → ((perform S r).exec s).2.store = s.store) ∧
      NeverAhead ((perform S r).exec s).2 rs

/-- The operations that are blocked would not have changed the map. -/
def Harmless (s : State) : List Request → Prop
  | [] => True
  | r :: rs => (Blocked S s r → r.update s.store = s.store) ∧ Harmless ((perform S r).exec s).2 rs

/-- One operation keeps the file and the map together unless it is blocked and changes the map. -/
theorem synced_perform_iff {s : State} (h : Synced S s) (r : Request) :
    Synced S ((perform S r).exec s).2 ↔ (Blocked S s r → r.update s.store = s.store) := by
  obtain ⟨outcome, added, hexec, -, hquiet, hreplaces⟩ := perform_cases S r s
  rw [hexec, Synced]
  change load S true (run (s.log ++ added) s.start) = .ok (r.update s.store) ↔ _
  rw [run_append]
  change load S true (run added s.disk) = .ok (r.update s.store) ↔ _
  by_cases hblocked : Blocked S s r
  · rw [load_quiet S (hquiet hblocked), show load S true s.disk = .ok s.store from h]
    simp [hblocked, eq_comm]
  · refine iff_of_true ?_ fun hb => absurd hb hblocked
    rw [(hreplaces hblocked s.store h).wholly, Request.filed_self]

/-- The memory of an instance runs ahead of its file exactly when an operation that changes the map is blocked. -/
theorem neverAhead_iff {s : State} (h : Synced S s) (rs : List Request) : NeverAhead S s rs ↔ Harmless S s rs := by
  induction rs generalizing s with
  | nil => exact iff_of_true h trivial
  | cons r rs ih =>
    have hstep := synced_perform_iff S h r
    obtain ⟨outcome, added, hexec, hthrows, -, -⟩ := perform_cases S r s
    constructor
    · rintro ⟨-, -, hrest⟩
      have hnext : Synced S ((perform S r).exec s).2 := by
        cases rs with
        | nil => exact hrest
        | cons r' rs => exact hrest.1
      exact ⟨hstep.mp hnext, (ih hnext).mp hrest⟩
    · rintro ⟨hharmless, hrest⟩
      refine ⟨h, fun e he => ?_, (ih (hstep.mpr hharmless)).mpr hrest⟩
      rw [hexec] at he ⊢
      exact hharmless (hthrows.mp ⟨e, he⟩)

theorem synced_opened {readable : Bool} {d : Disk} {s : State} (h : opened S readable d = .ok s) :
    s.start = d ∧ s.log = [] ∧ Synced S s := by
  unfold opened at h
  cases hload : load S readable d with
  | error e => simp [hload, Except.map] at h
  | ok store =>
    rw [hload] at h
    obtain rfl := Except.ok.inj h
    refine ⟨rfl, rfl, ?_⟩
    cases readable with
    | true => exact hload
    | false =>
      -- an instance that could not open a file has none
      cases hfile : d.files S.path with
      | none =>
        rw [load, hfile] at hload
        obtain rfl := Except.ok.inj hload
        change load S true d = _
        rw [load, hfile]
      | some text => simp [load, hfile] at hload

/-- The memory of an instance stays with its file exactly when the operations that change the map are not blocked. -/
theorem opened_neverAhead_iff {readable : Bool} {d : Disk} {s : State} (h : opened S readable d = .ok s)
    (rs : List Request) : NeverAhead S s rs ↔ Harmless S s rs := neverAhead_iff S (synced_opened S h).2.2 rs

/-- A store that has never been written. -/
def sampleSetting : Setting := { path := ascii "store.json", floatText := integersOnly }

def sampleDisk : Disk := ⟨fun _ => none, fun _ => false⟩

theorem opened_sample (S : Setting) (readable : Bool) : opened S readable sampleDisk = .ok { start := sampleDisk } := rfl

theorem opened_neverAhead_iff_sample :
    opened sampleSetting true sampleDisk = .ok { start := sampleDisk } ∧
      (NeverAhead sampleSetting { start := sampleDisk } [.setItem {} (ascii "a") (ascii "1"), .removeItem {} (ascii "a")] ↔
        Harmless sampleSetting { start := sampleDisk } [.setItem {} (ascii "a") (ascii "1"), .removeItem {} (ascii "a")]) :=
  ⟨rfl, opened_neverAhead_iff sampleSetting (opened_sample sampleSetting true) _⟩

/-- A value whose file could not be renamed stays in the memory. -/
theorem setItem_runs_ahead :
    opened sampleSetting true sampleDisk = .ok { start := sampleDisk } ∧
      ¬ NeverAhead sampleSetting { start := sampleDisk }
        [.setItem { renameError := some (ascii "Permission denied") } (ascii "a") (ascii "1")] := by
  refine ⟨rfl, fun h => ?_⟩
  have hharmless := (neverAhead_iff sampleSetting (synced_opened sampleSetting (opened_sample sampleSetting true)).2.2 _).mp h
  have hunchanged := hharmless.1 (by simp [Blocked, Refused])
  cases StdMap.set_eq_self.mp hunchanged

end NeverAhead

section Crash

/-- A run in which every operation returns. -/
def performAll : List Request → Run Unit
  | [] => return ()
  | r :: rs => do
    let _ ← perform S r
    performAll rs

theorem performAll_cons_ok {r : Request} {rs : List Request} {s t : State}
    (h : (performAll S (r :: rs)).exec s = (.ok (), t)) :
    ∃ reply u, (perform S r).exec s = (.ok reply, u) ∧ (performAll S rs).exec u = (.ok (), t) := by
  rw [performAll, Act.exec_bind] at h
  rcases hr : (perform S r).exec s with ⟨outcome, u⟩
  rw [hr] at h
  cases outcome with
  | error e => cases h
  | ok reply => exact ⟨reply, u, rfl, h⟩

/-- A run that returns has made all its updates, and its file holds the map. -/
theorem performAll_ok {rs : List Request} {s t : State} (hsynced : Synced S s)
    (h : (performAll S rs).exec s = (.ok (), t)) :
    t.store = rs.foldl Request.update s.store ∧ t.start = s.start ∧ s.log <+: t.log ∧ Synced S t := by
  induction rs generalizing s with
  | nil =>
    obtain ⟨-, rfl⟩ := Prod.mk.inj h
    exact ⟨rfl, rfl, List.prefix_rfl, hsynced⟩
  | cons r rs ih =>
    obtain ⟨reply, u, hr, hrest⟩ := performAll_cons_ok S h
    obtain ⟨outcome, added, hexec, hthrows, -, -⟩ := perform_cases S r s
    obtain ⟨rfl, rfl⟩ := Prod.mk.inj (hexec.symm.trans hr)
    have hopen : ¬ Blocked S s r := fun hb => by
      obtain ⟨e, he⟩ := hthrows.mpr hb
      cases he
    have hnext := (synced_perform_iff S hsynced r).mpr fun hb => absurd hb hopen
    rw [hr] at hnext
    obtain ⟨hstore, hstart, hlog, hlast⟩ := ih hnext hrest
    exact ⟨hstore, hstart, (List.prefix_append _ _).trans hlog, hlast⟩

/-- An operation that is cut short anywhere leaves the map before it or the map after it. -/
theorem load_cut {s : State} (hsynced : Synced S s) (r : Request) {k : Nat} (hk : s.log.length ≤ k) :
    load S true (run (((perform S r).exec s).2.log.take k) s.start) = .ok s.store ∨
      load S true (run (((perform S r).exec s).2.log.take k) s.start) = .ok (r.update s.store) := by
  obtain ⟨outcome, added, hexec, -, hquiet, hreplaces⟩ := perform_cases S r s
  rw [hexec]
  have hdisk : run ((s.log ++ added).take k) s.start = run (added.take (k - s.log.length)) s.disk := by
    rw [List.take_append, List.take_of_length_le hk, run_append]
    rfl
  simp only [hdisk]
  by_cases hblocked : Blocked S s r
  · left
    rw [load_quiet S ((hquiet hblocked).take S _)]
    exact hsynced
  · have hreplace := hreplaces hblocked s.store hsynced
    rw [Request.filed_self] at hreplace
    by_cases hlast : k - s.log.length < added.length
    · exact .inl (hreplace.partly _ hlast)
    · rw [List.take_of_length_le (by omega)]
      exact .inr hreplace.wholly

/-- Killed at any point of a run in which every operation has returned so far, the store is reopened with the map
after the last operation that returned, or with the map that the operation in flight was to leave. -/
theorem load_killed {readable : Bool} {d : Disk} {s t : State} (hopened : opened S readable d = .ok s)
    {rs : List Request} (hrun : (performAll S rs).exec s = (.ok (), t)) :
    load S true t.disk = .ok (rs.foldl Request.update s.store) ∧
      ∀ r k, t.log.length ≤ k →
        load S true (run (((perform S r).exec t).2.log.take k) d) = .ok (rs.foldl Request.update s.store) ∨
        load S true (run (((perform S r).exec t).2.log.take k) d) = .ok ((rs ++ [r]).foldl Request.update s.store) := by
  obtain ⟨hstart, -, hsynced⟩ := synced_opened S hopened
  obtain ⟨hstore, hstart', -, hlast⟩ := performAll_ok S hsynced hrun
  simp only [List.foldl_append, ← hstore, ← hstart, ← hstart']
  exact ⟨hlast, fun r k hk => load_cut S hlast r hk⟩

/-- What is left of a store killed while it replaces its first value by a second one. -/
theorem load_killed_sample :
    (load sampleSetting true ((performAll sampleSetting [.setItem {} (ascii "a") (ascii "1")]).exec
        { start := sampleDisk }).2.disk = .ok (({} : StdMap ByteString).set (ascii "a") (ascii "1"))) ∧
      ∀ k, ((performAll sampleSetting [.setItem {} (ascii "a") (ascii "1")]).exec { start := sampleDisk }).2.log.length ≤ k →
        load sampleSetting true (run (((perform sampleSetting (.setItem {} (ascii "a") (ascii "2"))).exec
            ((performAll sampleSetting [.setItem {} (ascii "a") (ascii "1")]).exec { start := sampleDisk }).2).2.log.take k)
          sampleDisk) = .ok (({} : StdMap ByteString).set (ascii "a") (ascii "1")) ∨
        load sampleSetting true (run (((perform sampleSetting (.setItem {} (ascii "a") (ascii "2"))).exec
            ((performAll sampleSetting [.setItem {} (ascii "a") (ascii "1")]).exec { start := sampleDisk }).2).2.log.take k)
          sampleDisk) = .ok ((({} : StdMap ByteString).set (ascii "a") (ascii "1")).set (ascii "a") (ascii "2")) := by
  have hrun : (performAll sampleSetting [.setItem {} (ascii "a") (ascii "1")]).exec { start := sampleDisk } =
      (.ok (), ((performAll sampleSetting [.setItem {} (ascii "a") (ascii "1")]).exec { start := sampleDisk }).2) :=
    Prod.ext rfl rfl
  obtain ⟨hreturned, hcut⟩ := load_killed sampleSetting (opened_sample sampleSetting true) hrun
  exact ⟨hreturned, fun k hk => hcut (.setItem {} (ascii "a") (ascii "2")) k hk⟩

end Crash

end FileStorageBackend

end KnishIO
