import KnishIO.Storage.StorageBackend

open ByteString FileSystem

namespace KnishIO

namespace FileStorageBackend

variable (S : Setting)

section RoundTrip

variable {store : StdMap ByteString}

theorem sorted_storeJson (store : StdMap ByteString) :
    Json.Sorted (store.entries.map fun e => (e.1, Json.str e.2)) :=
  List.pairwise_map.mpr store.sorted

theorem utf8_storeJson : (storeJson store).utf8 = true ↔
    ∀ e ∈ store.entries, Utf8.valid e.1 = true ∧ Utf8.valid e.2 = true := by
  rw [storeJson, Json.utf8, Json.utf8Members_iff, List.forall_mem_map]
  rfl

theorem valid_storeJson (F : Json.FloatText) (h : (storeJson store).utf8 = true) : (storeJson store).Valid F := by
  refine ⟨sorted_storeJson store, (Json.validMembers_iff F _).mpr ?_⟩
  rw [List.forall_mem_map]
  exact utf8_storeJson.mp h

theorem find?_foldl_set (items : List (ByteString × ByteString)) (acc : StdMap ByteString)
    (hnodup : (items.map Prod.fst).Nodup) (key value : ByteString) :
    (items.foldl (fun store e => store.set e.1 e.2) acc).find? key = some value ↔
      (key, value) ∈ items ∨ key ∉ items.map Prod.fst ∧ acc.find? key = some value := by
  induction items generalizing acc with
  | nil => simp
  | cons e items ih =>
    rw [List.map_cons, List.nodup_cons] at hnodup
    rw [List.foldl_cons, ih _ hnodup.2, StdMap.find?_set]
    by_cases hkey : key = e.1
    · subst hkey
      have hfresh : (e.1, value) ∉ items := fun hmem => hnodup.1 (List.mem_map.mpr ⟨_, hmem, rfl⟩)
      simp [hfresh, hnodup.1, Prod.ext_iff, eq_comm]
    · simp [hkey, Prod.ext_iff]

/-- The strings of a written store are the store. -/
theorem stringItems_storeJson (store : StdMap ByteString) : stringItems (storeJson store) = store := by
  have hfold : stringItems (storeJson store) = store.entries.foldl (fun store e => store.set e.1 e.2) {} := by
    rw [stringItems, storeJson, Json.members, List.foldl_map]
    rfl
  apply StdMap.ext_find?
  intro key
  apply Option.ext
  intro value
  rw [hfold, find?_foldl_set _ _ store.nodup_keys]
  simp [StdMap.find?_eq_some]

/-- A new instance reads what was written. -/
theorem load_dumpStore {text : ByteString} (htext : dumpStore store = .ok text) {d : Disk}
    (hfile : d.files S.path = some text) : load S true d = .ok store := by
  have hdump := Throws.ofOption_ok htext
  rw [Json.dumpIndented] at hdump
  split at hdump
  next hutf8 =>
    obtain rfl := Option.some.inj hdump
    have hparse : parseJson S.floatText ((storeJson store).indented 2 0) = .ok (storeJson store) := by
      rw [parseJson, Json.parse_indented _ _ _ (valid_storeJson _ hutf8)]
    rw [load, hfile]
    simp only [Bool.not_true, Bool.false_eq_true, ↓reduceIte, hparse, Except.map, stringItems_storeJson, Except.mapError]
  next => cases hdump

theorem load_congr {d d' : Disk} (h : d.files S.path = d'.files S.path) (readable : Bool) :
    load S readable d = load S readable d' := by
  rw [load, load, h]

end RoundTrip

section Persist

/-- The calls that leave the store's own file alone. -/
def Quiet (calls : List Call) : Prop := ∀ c ∈ calls, S.path ∉ c.targets

theorem Quiet.append {calls calls' : List Call} (h : Quiet S calls) (h' : Quiet S calls') : Quiet S (calls ++ calls') := by
  intro c hc
  obtain hc | hc := List.mem_append.mp hc
  · exact h c hc
  · exact h' c hc

theorem tmpPath_ne (A : Answers) : tmpPath S A ≠ S.path := by
  intro h
  have := congrArg List.length h
  simp [tmpPath] at this

theorem quiet_tmp {A : Answers} {calls : List Call} (h : ∀ c ∈ calls, c.targets ⊆ [tmpPath S A]) : Quiet S calls := by
  intro c hc hmem
  exact tmpPath_ne S A (List.mem_singleton.mp (h c hc hmem)).symm

/-- The calls that write the temporary file. -/
theorem quiet_written (A : Answers) (text : ByteString) :
    Quiet S (.truncate (tmpPath S A) :: (appends (tmpPath S A) text ++ [.chmod (tmpPath S A)])) := by
  apply quiet_tmp S
  intro c hc
  simp only [List.mem_cons, List.mem_append, List.not_mem_nil, or_false] at hc
  obtain rfl | hc | rfl := hc
  · exact List.Subset.refl _
  · rw [targets_appends hc]
    exact List.Subset.refl _
  · exact List.nil_subset _

/-- The directory of the store is not there and cannot be made, or nobody can tell. -/
def ParentRefused (A : Answers) (d : Disk) : Prop :=
  ∃ parent, S.parentPath = some parent ∧
    (A.existsError.isSome ∨ d.directories parent = false ∧ A.createError.isSome)

/-- A call that `persist` comes to fails, or the store has a string that is not UTF-8. -/
def Refused (A : Answers) (d : Disk) (store : StdMap ByteString) : Prop :=
  ParentRefused S A d ∨ A.randomError.isSome ∨ A.tmpOpens = false ∨ (storeJson store).utf8 = false ∨
    A.written.isSome ∨ A.renameError.isSome

theorem exec_syscall (c : Call) (s : State) : (syscall c).exec s = (.ok (), { s with log := s.log ++ [c] }) := rfl

theorem exec_write (name text : ByteString) (s : State) :
    (write name text).exec s = (.ok (), { s with log := s.log ++ appends name text }) := rfl

theorem createParent_cases (A : Answers) (s : State) :
    ¬ ParentRefused S A s.disk ∧
      (∃ calls, Quiet S calls ∧ (createParent S A).exec s = (.ok (), { s with log := s.log ++ calls })) ∨
    ParentRefused S A s.disk ∧ ∃ e, (createParent S A).exec s = (.error e, s) := by
  unfold createParent ParentRefused
  cases hparent : S.parentPath with
  | none => exact .inl ⟨by simp, [], by simp [Quiet], by simp⟩
  | some parent =>
  cases hexists : A.existsError with
  | some e => exact .inr ⟨⟨parent, rfl, by simp⟩, e, by simp⟩
  | none =>
  by_cases hthere : s.disk.directories parent = true
  · exact .inl ⟨by simp [hthere], [], by simp [Quiet], by simp [hthere]⟩
  cases hcreate : A.createError with
  | some message => exact .inr ⟨⟨parent, rfl, by simp [hthere]⟩, _, by simp [hthere]; rfl⟩
  | none =>
    refine .inl ⟨by simp, [.createDirectories parent], ?_, by simp [hthere, exec_syscall]⟩
    intro c hc
    rw [List.mem_singleton.mp hc]
    exact List.not_mem_nil

theorem exec_removeTmp (A : Answers) (s : State) :
    ∃ r calls, Quiet S calls ∧ (removeTmp S A).exec s = (r, { s with log := s.log ++ calls }) := by
  unfold removeTmp
  cases A.removeError with
  | some e => exact ⟨.error e, [], by simp [Quiet], by simp⟩
  | none =>
    refine ⟨.ok (), [.remove (tmpPath S A)], ?_, rfl⟩
    apply quiet_tmp S (A := A)
    intro c hc
    rw [List.mem_singleton.mp hc]
    exact List.Subset.refl _

/-- Whatever becomes of the removal, an exception ends the operation. -/
theorem exec_removeTmp_throw (A : Answers) (e : Exception) (s : State) :
    ∃ e' calls, Quiet S calls ∧
      (removeTmp S A >>= fun _ => (throw e : Run Unit)).exec s = (.error e', { s with log := s.log ++ calls }) := by
  obtain ⟨r, calls, hquiet, hexec⟩ := exec_removeTmp S A s
  rw [Act.exec_bind, hexec]
  cases r with
  | error e' => exact ⟨e', calls, hquiet, rfl⟩
  | ok _ => exact ⟨e, calls, hquiet, rfl⟩

theorem writeTmp_cases (A : Answers) (text : ByteString) (s : State) :
    A.written = none ∧ (writeTmp S A text).exec s = (.ok (), { s with log := s.log ++ appends (tmpPath S A) text }) ∨
    A.written.isSome ∧ ∃ e calls, Quiet S calls ∧ (writeTmp S A text).exec s = (.error e, { s with log := s.log ++ calls }) := by
  unfold writeTmp
  cases A.written with
  | none => exact .inl ⟨rfl, rfl⟩
  | some n =>
    obtain ⟨e, calls, hquiet, hexec⟩ := exec_removeTmp_throw S A (storageError "failed to write to " (tmpPath S A))
      { s with log := s.log ++ appends (tmpPath S A) (text.take n) }
    refine .inr ⟨rfl, e, appends (tmpPath S A) (text.take n) ++ calls, Quiet.append S ?_ hquiet, ?_⟩
    · apply quiet_tmp S (A := A)
      intro c hc
      rw [targets_appends hc]
      exact List.Subset.refl _
    · rw [Act.exec_bind, exec_write, Act.andThen_ok, hexec, List.append_assoc]

theorem renameTmp_cases (A : Answers) (s : State) :
    A.renameError = none ∧
      (renameTmp S A).exec s = (.ok (), { s with log := s.log ++ [.rename (tmpPath S A) S.path] }) ∨
    A.renameError.isSome ∧ ∃ e calls, Quiet S calls ∧ (renameTmp S A).exec s = (.error e, { s with log := s.log ++ calls }) := by
  unfold renameTmp
  cases A.renameError with
  | none => exact .inl ⟨rfl, rfl⟩
  | some message => exact .inr ⟨rfl, exec_removeTmp_throw S A _ s⟩

theorem dumpStore_cases (store : StdMap ByteString) :
    (storeJson store).utf8 = true ∧ (∃ text, dumpStore store = .ok text) ∨
    (storeJson store).utf8 = false ∧ dumpStore store = .error .jsonUtf8 := by
  unfold dumpStore Json.dumpIndented
  cases hutf8 : (storeJson store).utf8 with
  | true => exact .inl ⟨rfl, _, rfl⟩
  | false => exact .inr ⟨rfl, rfl⟩

/-- `persist` replaces the file in its last call, or throws and leaves it alone. -/
theorem persist_cases (A : Answers) (s : State) :
    ¬ Refused S A s.disk s.store ∧
      (∃ calls text, Quiet S calls ∧ dumpStore s.store = .ok text ∧
        (persist S A).exec s = (.ok (), { s with log := s.log ++ (calls ++
          (.truncate (tmpPath S A) :: appends (tmpPath S A) text ++
            [.chmod (tmpPath S A), .rename (tmpPath S A) S.path])) })) ∨
    Refused S A s.disk s.store ∧
      ∃ e calls, Quiet S calls ∧ (persist S A).exec s = (.error e, { s with log := s.log ++ calls }) := by
  unfold persist Refused
  obtain ⟨hparent, calls, hquiet, hcreate⟩ | ⟨hparent, e, hcreate⟩ := createParent_cases S A s
  swap
  · exact .inr ⟨.inl hparent, e, [], by simp [Quiet], by simp [hcreate]⟩
  cases hrandom : A.randomError with
  | some e => exact .inr ⟨by simp, e, calls, hquiet, by simp [hcreate]⟩
  | none =>
  by_cases hopens : A.tmpOpens = true
  swap
  · exact .inr ⟨by simp [hopens], _, calls, hquiet, by simp [hcreate, Act.require, hopens]; rfl⟩
  have htruncate : Quiet S [.truncate (tmpPath S A)] := by
    apply quiet_tmp S (A := A)
    intro c hc
    rw [List.mem_singleton.mp hc]
    exact List.Subset.refl _
  obtain ⟨hutf8, text, htext⟩ | ⟨hutf8, htext⟩ := dumpStore_cases s.store
  swap
  · refine .inr ⟨by simp [hutf8], .jsonUtf8, calls ++ [.truncate (tmpPath S A)], hquiet.append S htruncate, ?_⟩
    simp [hcreate, Act.require, hopens, exec_syscall, htext]
  obtain ⟨hwritten, hwrite⟩ | ⟨hwritten, e, calls', hquiet', hwrite⟩ := writeTmp_cases S A text
    { s with log := s.log ++ (calls ++ [.truncate (tmpPath S A)]) }
  swap
  · refine .inr ⟨by simp [hwritten], e, calls ++ [.truncate (tmpPath S A)] ++ calls', ?_, ?_⟩
    · exact (hquiet.append S htruncate).append S hquiet'
    · rw [List.append_assoc] at hwrite
      simp [hcreate, Act.require, hopens, exec_syscall, htext, hwrite]
  simp only [List.append_assoc] at hwrite
  have hsteps : Quiet S (calls ++ .truncate (tmpPath S A) :: (appends (tmpPath S A) text ++ [.chmod (tmpPath S A)])) :=
    hquiet.append S (quiet_written S A text)
  obtain ⟨hrename, hlast⟩ | ⟨hrename, e, calls', hquiet', hlast⟩ := renameTmp_cases S A
    { s with log := s.log ++ (calls ++ .truncate (tmpPath S A) :: (appends (tmpPath S A) text ++ [.chmod (tmpPath S A)])) }
  · refine .inl ⟨by simp [hparent, hopens, hutf8, hwritten, hrename], calls, text, hquiet, htext, ?_⟩
    simp only [List.append_assoc, List.cons_append, List.nil_append] at hlast
    simp [hcreate, Act.require, hopens, exec_syscall, htext, hwrite, hlast]
  · refine .inr ⟨by simp [hrename], e, _ ++ calls', hsteps.append S hquiet', ?_⟩
    simp only [List.append_assoc, List.cons_append, List.nil_append] at hlast
    simp [hcreate, Act.require, hopens, exec_syscall, htext, hwrite, hlast]

end Persist

section Disk

theorem load_quiet {calls : List Call} (h : Quiet S calls) (d : Disk) (readable : Bool) :
    load S readable (run calls d) = load S readable d := load_congr S (run_files h d) readable

theorem Quiet.take {calls : List Call} (h : Quiet S calls) (k : Nat) : Quiet S (calls.take k) :=
  fun c hc => h c (List.mem_of_mem_take hc)

/-- What one operation does to the file: its calls leave the file alone, but for the last one of a `persist` that
returns. -/
structure Replaces (before : StdMap ByteString) (added : List Call) (d : Disk) (after : StdMap ByteString) : Prop where
  partly : ∀ k < added.length, load S true (run (added.take k) d) = .ok before
  wholly : load S true (run added d) = .ok after

theorem replaces_of_quiet {added : List Call} {d : Disk} {store : StdMap ByteString} (h : Quiet S added)
    (hload : load S true d = .ok store) : Replaces S store added d store where
  partly k _ := (load_quiet S (h.take S k) d true).trans hload
  wholly := (load_quiet S h d true).trans hload

/-- A `persist` that returns replaces the file at once. -/
theorem replaces_of_written {A : Answers} {calls : List Call} {text : ByteString} {before after : StdMap ByteString}
    {d : Disk} (hquiet : Quiet S calls) (htext : dumpStore after = .ok text) (hload : load S true d = .ok before) :
    Replaces S before (calls ++ (.truncate (tmpPath S A) :: appends (tmpPath S A) text ++
      [.chmod (tmpPath S A), .rename (tmpPath S A) S.path])) d after where
  partly k hk := by
    have hsteps := hquiet.append S (quiet_written S A text)
    have hsplit : calls ++ (.truncate (tmpPath S A) :: appends (tmpPath S A) text ++
        [.chmod (tmpPath S A), .rename (tmpPath S A) S.path]) =
        (calls ++ .truncate (tmpPath S A) :: (appends (tmpPath S A) text ++ [.chmod (tmpPath S A)])) ++
          [.rename (tmpPath S A) S.path] := by simp
    rw [hsplit] at hk ⊢
    rw [List.length_append, List.length_singleton] at hk
    rw [List.take_append_of_le_length (by omega), load_quiet S (hsteps.take S k), hload]
  wholly := by
    rw [run_append]
    exact load_dumpStore S htext (run_replace (tmpPath_ne S A) text _)

/-- A `persist` throws exactly when it is refused, and then leaves the file alone; otherwise it replaces the file. -/
theorem exec_persist (A : Answers) (s : State) :
    ∃ outcome added, (persist S A).exec s = (outcome, { s with log := s.log ++ added }) ∧
      ((∃ e, outcome = .error e) ↔ Refused S A s.disk s.store) ∧ (Refused S A s.disk s.store → Quiet S added) ∧
      (¬ Refused S A s.disk s.store → ∀ before, load S true s.disk = .ok before →
        Replaces S before added s.disk s.store) := by
  obtain ⟨hrefused, calls, text, hquiet, htext, hexec⟩ | ⟨hrefused, e, calls, hquiet, hexec⟩ := persist_cases S A s
  · refine ⟨.ok (), _, hexec, iff_of_false (by simp) hrefused, fun h => absurd h hrefused, fun _ before hload => ?_⟩
    exact replaces_of_written S hquiet htext hload
  · exact ⟨.error e, calls, hexec, iff_of_true ⟨e, rfl⟩ hrefused, fun _ => hquiet, fun h => absurd hrefused h⟩

end Disk

end FileStorageBackend

end KnishIO
