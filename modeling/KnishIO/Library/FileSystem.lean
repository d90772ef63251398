import KnishIO.Library.ByteString

namespace FileSystem

/-- The content of every file and the directories there are. A program that is killed leaves what its calls up to
then have made. -/
structure Disk where
  files : ByteString → Option ByteString
  directories : ByteString → Bool

inductive Call where
  | createDirectories (name : ByteString)
  | truncate (name : ByteString)
  | append (name : ByteString) (byte : UInt8)
  | chmod (name : ByteString)
  | rename (source target : ByteString)
  | remove (name : ByteString)
  deriving DecidableEq, Repr

namespace Disk

def write (d : Disk) (name : ByteString) (content : Option ByteString) : Disk :=
  { d with files := Function.update d.files name content }

@[simp] theorem write_files (d : Disk) (name other : ByteString) (content : Option ByteString) :
    (d.write name content).files other = if other = name then content else d.files other := Function.update_apply _ _ _ _

@[simp] theorem write_directories (d : Disk) (name : ByteString) (content : Option ByteString) :
    (d.write name content).directories = d.directories := rfl

end Disk

namespace Call

/-- Renaming takes place in one piece. -/
def apply (d : Disk) : Call → Disk
  | createDirectories name => { d with directories := Function.update d.directories name true }
  | truncate name => d.write name (some [])
  | append name byte => d.write name (some ((d.files name).getD [] ++ [byte]))
  | chmod _ => d
  | rename source target => if source = target then d else (d.write target (d.files source)).write source none
  | remove name => d.write name none

/-- The files whose content a call may change. -/
def targets : Call → List ByteString
  | createDirectories _ => []
  | truncate name => [name]
  | append name _ => [name]
  | chmod _ => []
  | rename source target => [source, target]
  | remove name => [name]

theorem apply_files {c : Call} {name : ByteString} (h : name ∉ c.targets) (d : Disk) :
    (c.apply d).files name = d.files name := by
  cases c with
  | createDirectories _ => rfl
  | chmod _ => rfl
  | rename source target =>
    simp only [targets, List.mem_cons, List.not_mem_nil, or_false, not_or] at h
    by_cases hsame : source = target
    · simp [apply, hsame]
    · simp [apply, hsame, h.1, h.2]
  | _ =>
    simp only [targets, List.mem_singleton] at h
    simp [apply, h]

end Call

def run (calls : List Call) (d : Disk) : Disk := calls.foldl Call.apply d

@[simp] theorem run_nil (d : Disk) : run [] d = d := rfl

@[simp] theorem run_cons (c : Call) (calls : List Call) (d : Disk) : run (c :: calls) d = run calls (c.apply d) := rfl

theorem run_append (calls calls' : List Call) (d : Disk) : run (calls ++ calls') d = run calls' (run calls d) :=
  List.foldl_append

/-- A file that no call is about keeps its content. -/
theorem run_files {calls : List Call} {name : ByteString} (h : ∀ c ∈ calls, name ∉ c.targets) (d : Disk) :
    (run calls d).files name = d.files name := by
  induction calls generalizing d with
  | nil => rfl
  | cons c calls ih =>
    rw [run_cons, ih fun c' hc' => h c' (List.mem_cons_of_mem _ hc')]
    exact Call.apply_files (h c List.mem_cons_self) d

/-- A text is written to the end of a file, byte by byte. -/
def appends (name text : ByteString) : List Call := text.map (.append name)

theorem targets_appends {name text : ByteString} {c : Call} (hc : c ∈ appends name text) : c.targets = [name] := by
  obtain ⟨byte, _, rfl⟩ := List.mem_map.mp hc
  rfl

theorem run_appends (name text : ByteString) (d : Disk) {content : ByteString} (hcontent : d.files name = some content) :
    (run (appends name text) d).files name = some (content ++ text) := by
  induction text generalizing d content with
  | nil => simp [appends, hcontent]
  | cons byte text ih =>
    have hnext : ((Call.append name byte).apply d).files name = some (content ++ [byte]) := by
      simp [Call.apply, hcontent]
    have := ih _ hnext
    rw [List.append_assoc, List.singleton_append] at this
    exact this

/-- A file is replaced by writing its text to another file and renaming that one. -/
theorem run_replace {tmp target : ByteString} (hne : tmp ≠ target) (text : ByteString) (d : Disk) :
    (run (.truncate tmp :: appends tmp text ++ [.chmod tmp, .rename tmp target]) d).files target = some text := by
  have hempty : ((Call.truncate tmp).apply d).files tmp = some [] := by
    simp [Call.apply]
  have hwritten := run_appends tmp text _ hempty
  rw [List.cons_append, run_cons, run_append]
  simp only [run_cons, run_nil, Call.apply, if_neg hne, Disk.write_files, if_neg (Ne.symm hne), if_true] at hwritten ⊢
  exact hwritten

end FileSystem
