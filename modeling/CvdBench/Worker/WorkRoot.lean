import CvdBench.Foundation.Lexical
import CvdBench.Foundation.Machine
import CvdBench.Spec.WorkerId
import CvdBench.Worker.IoTask

/-!
The work root of a job on a worker, and its removal: `cleanup_root` of the write runner
and `best_effort_cleanup` of the lifecycle.
-/

set_option autoImplicit false

namespace CvdBench.Worker

open Foundation

def segments (path : List Char) : List (List Char) :=
  (Spec.splitSlash path).filter (· ≠ [])

/-- Where an absolute path leads when `.` and `..` are resolved in its text. -/
def normalize (path : List Char) : List (List Char) := resolve ['.'] ['.', '.'] (segments path)

/-- What `read_dir` gives as the name of an entry. -/
structure EntryName where
  chars : List Char
  notEmpty : chars ≠ []
  noSlash : '/' ∉ chars
  notDots : chars ≠ ['.'] ∧ chars ≠ ['.', '.']

/-- Joining two paths joins their segments, but for empty ones between them. -/
theorem splitSlash_joinPath {keep : List Char → Bool} (hkeep : keep [] = false)
    {base path : List Char} (hbase : base ≠ []) (hpath : path.head? ≠ some '/') :
    (Spec.splitSlash (joinPath base path)).filter keep =
      (Spec.splitSlash base).filter keep ++ (Spec.splitSlash path).filter keep := by
  unfold joinPath
  rw [if_neg hpath]
  by_cases hlast : base.getLast? = some '/'
  · obtain ⟨init, rfl⟩ : ∃ init, base = init ++ ['/'] := List.getLast?_eq_some_iff.mp hlast
    rw [if_pos (Or.inr hlast), List.append_assoc, List.singleton_append, Spec.splitSlash_join,
      Spec.splitSlash_join, List.filter_append, List.filter_append]
    simp [Spec.splitSlash, hkeep]
  · rw [if_neg (by simp [hbase, hlast]), Spec.splitSlash_join, List.filter_append]

theorem segments_join {base path : List Char} (hbase : base ≠ []) (hpath : path.head? ≠ some '/') :
    segments (joinPath base path) = segments base ++ segments path :=
  splitSlash_joinPath (by simp) hbase hpath

theorem joinPath_head {base path : List Char} (hbase : base ≠ [])
    (hpath : path.head? ≠ some '/') : (joinPath base path).head? = base.head? := by
  obtain ⟨c, cs, rfl⟩ := List.exists_cons_of_ne_nil hbase
  unfold joinPath
  rw [if_neg hpath]
  split <;> rfl

theorem pathComponents_join {base path : List Char} (hbase : base ≠ [])
    (hpath : path.head? ≠ some '/') :
    pathComponents base <+: pathComponents (joinPath base path) := by
  unfold pathComponents
  rw [joinPath_head hbase hpath, splitSlash_joinPath (by simp) hbase hpath, ← List.append_assoc]
  exact List.prefix_append _ _

theorem segments_name {name : List Char} (hne : name ≠ []) (hslash : '/' ∉ name) :
    segments name = [name] := by
  unfold segments
  rw [Spec.splitSlash_self hslash]
  simp [hne]

theorem joinPath_ne_nil {base : List Char} (path : List Char) (hbase : base ≠ []) :
    joinPath base path ≠ [] := by
  unfold joinPath
  split
  · next hhead =>
    intro hnil
    simp [hnil] at hhead
  · split <;> simp [hbase]

theorem noSlash_head {name : List Char} (hslash : '/' ∉ name) : name.head? ≠ some '/' := by
  cases name with
  | nil => simp
  | cons c cs =>
    intro hhead
    obtain rfl := Option.some.inj hhead
    simp at hslash

theorem normalize_entry {dir : List Char} (hdir : dir ≠ []) (name : EntryName) :
    normalize (joinPath dir name.chars) = normalize dir ++ [name.chars] := by
  unfold normalize
  rw [segments_join hdir (noSlash_head name.noSlash), segments_name name.notEmpty name.noSlash]
  exact resolve_append_names _ (by simpa using name.notDots)

def workRoot (mountPoint dir workerId jobId : String) : List Char :=
  joinPath (joinPath (joinPath mountPoint.toList dir.toList) workerId.toList) jobId.toList

/-- What the metadata of the root says about it. -/
inductive RootKind where
  | notFound | symlink | dir | other
  deriving DecidableEq, Repr

/-- The loop of the removal: the directories still to visit, each with whether its entries
are gone already, and the directory whose entries are being read. -/
structure Sweep where
  stack : List (List Char × Bool)
  listing : Option (List Char)
  deriving DecidableEq, Repr

/-- How a cleanup begins: it refuses the target, finds nothing to do, or starts the loop. -/
inductive CleanupStart where
  | refused
  | nothing
  | sweep (s : Sweep)
  deriving DecidableEq, Repr

def Sweep.from (root : List Char) : Sweep := ⟨[(root, false)], none⟩

def cleanupRoot (mount root : List Char) (kind : RootKind) : CleanupStart :=
  if ¬ pathStartsWith root mount then .refused
  else match kind with
    | .notFound => .nothing
    | .symlink => .refused
    | .dir => .sweep (.from root)
    | .other => .refused

/-- As `cleanupRoot`, but a root that is no directory is left alone without an error. -/
def bestEffortCleanup (mount root : List Char) (kind : RootKind) : CleanupStart :=
  if ¬ pathStartsWith root mount then .refused
  else match kind with
    | .notFound => .nothing
    | .symlink => .refused
    | .dir => .sweep (.from root)
    | .other => .nothing

/-- What `symlink_metadata` says about an entry, which may be gone by then. -/
inductive EntryKind where
  | dir | other | gone
  deriving DecidableEq, Repr

/-- One turn of the loop: the next directory of the stack, an entry of the directory that
is being read, or the end of its entries. A call that fails ends the loop. -/
inductive SweepAct where
  | next
  | entry (name : EntryName) (kind : EntryKind)
  | endOfDir

inductive Removal where
  | removeDir (path : List Char)
  | removeFile (path : List Char)

def Removal.path : Removal → List Char
  | .removeDir path | .removeFile path => path

def Sweep.step (s : Sweep) : SweepAct → Option (Sweep × Option Removal)
  | .next => match s.listing, s.stack with
      | none, (dir, true) :: rest => some (⟨rest, none⟩, some (.removeDir dir))
      | none, (dir, false) :: rest => some (⟨(dir, true) :: rest, some dir⟩, none)
      | _, _ => none
  | .entry name kind => match s.listing with
      | none => none
      | some dir => match kind with
          | .dir => some (⟨(joinPath dir name.chars, false) :: s.stack, some dir⟩, none)
          | .other => some (s, some (.removeFile (joinPath dir name.chars)))
          | .gone => some (s, none)
  | .endOfDir => s.listing.map fun _ => (⟨s.stack, none⟩, none)

def sweeping (s : Sweep) : Machine Sweep SweepAct (Option Removal) := ⟨s, Sweep.step⟩

theorem workRoot_startsWith {mountPoint dir workerId jobId : String} (hmount : mountPoint ≠ "")
    (hdir : dir.toList.head? ≠ some '/') (hworker : workerId.toList.head? ≠ some '/')
    (hjob : jobId.toList.head? ≠ some '/') :
    pathStartsWith (workRoot mountPoint dir workerId jobId) mountPoint.toList = true := by
  have hmount' : mountPoint.toList ≠ [] := by simpa using hmount
  have hbase := joinPath_ne_nil dir.toList hmount'
  have hworkers := joinPath_ne_nil workerId.toList hbase
  refine List.isPrefixOf_iff_prefix.mpr ?_
  calc pathComponents mountPoint.toList
      <+: pathComponents (joinPath mountPoint.toList dir.toList) :=
        pathComponents_join hmount' hdir
    _ <+: pathComponents (joinPath (joinPath mountPoint.toList dir.toList) workerId.toList) :=
        pathComponents_join hbase hworker
    _ <+: pathComponents (workRoot mountPoint dir workerId jobId) :=
        pathComponents_join hworkers hjob

def Below (root path : List Char) : Prop := path ≠ [] ∧ normalize root <+: normalize path

theorem Below.entry {root dir : List Char} (h : Below root dir) (name : EntryName) :
    Below root (joinPath dir name.chars) := by
  refine ⟨joinPath_ne_nil _ h.1, ?_⟩
  rw [normalize_entry h.1 name]
  exact h.2.trans (List.prefix_append _ _)

/-- Everything the loop still has in hand is below the root. -/
structure Sweep.Within (root : List Char) (s : Sweep) : Prop where
  stack : ∀ item ∈ s.stack, Below root item.1
  listing : ∀ dir, s.listing = some dir → Below root dir

theorem Sweep.Within.from {root : List Char} (hroot : root ≠ []) :
    (Sweep.from root).Within root where
  stack := by
    intro item hitem
    rw [List.mem_singleton.mp hitem]
    exact ⟨hroot, List.prefix_refl _⟩
  listing := by
    intro dir hdir
    cases hdir

theorem Sweep.Within.step {root : List Char} {s t : Sweep} {a : SweepAct} {o : Option Removal}
    (h : s.Within root) (hs : s.step a = some (t, o)) :
    t.Within root ∧ ∀ removal, o = some removal → Below root removal.path := by
  obtain ⟨stack, listing⟩ := s
  cases a with
  | next =>
    match listing, stack, h, hs with
    | none, (dir, true) :: rest, h, hs =>
      cases hs
      have hdir := h.stack _ List.mem_cons_self
      refine ⟨⟨fun item hitem => h.stack item (List.mem_cons_of_mem _ hitem), by simp⟩, ?_⟩
      rintro removal ⟨⟩
      exact hdir
    | none, (dir, false) :: rest, h, hs =>
      cases hs
      have hdir := h.stack _ List.mem_cons_self
      refine ⟨⟨?_, ?_⟩, by simp⟩
      · intro item hitem
        rcases List.mem_cons.mp hitem with rfl | hitem
        · exact hdir
        · exact h.stack item (List.mem_cons_of_mem _ hitem)
      · rintro dir' ⟨⟩
        exact hdir
  | entry name kind =>
    match listing, kind, h, hs with
    | some dir, .dir, h, hs =>
      cases hs
      have hdir := h.listing dir rfl
      refine ⟨⟨?_, h.listing⟩, by simp⟩
      intro item hitem
      rcases List.mem_cons.mp hitem with rfl | hitem
      · exact hdir.entry name
      · exact h.stack item hitem
    | some dir, .other, h, hs =>
      cases hs
      have hdir := h.listing dir rfl
      refine ⟨h, ?_⟩
      rintro removal ⟨⟩
      exact hdir.entry name
    | some dir, .gone, h, hs =>
      cases hs
      exact ⟨h, by simp⟩
  | endOfDir =>
    match listing, h, hs with
    | some dir, h, hs =>
      cases hs
      exact ⟨⟨h.stack, by simp⟩, by simp⟩

theorem removal_below {root : List Char} (hroot : root ≠ [])
    {tr : List (Event Sweep SweepAct (Option Removal))}
    {t : Sweep} (hrun : (sweeping (.from root)).Run (sweeping (.from root)).init tr t) :
    ∀ e ∈ tr, ∀ removal, e.out = some removal → Below root removal.path := by
  have hall : t.Within root ∧ ∀ e ∈ tr, ∀ removal, e.out = some removal →
      Below root removal.path := by
    refine hrun.history (P := fun tr t => t.Within root ∧
      ∀ e ∈ tr, ∀ removal, e.out = some removal → Below root removal.path)
      ⟨Sweep.Within.from hroot, by simp⟩ ?_
    intro tr s a t o _ hp hs
    obtain ⟨hwithin, hout⟩ := hp.1.step hs
    refine ⟨hwithin, ?_⟩
    intro e he
    rcases List.mem_append.mp he with he | he
    · exact hp.2 e he
    · rw [List.mem_singleton.mp he]
      exact hout
  exact hall.2

theorem Sweep.step_stack {root : List Char} {s t : Sweep} {a : SweepAct} {o : Option Removal}
    (hs : s.step a = some (t, o)) {above : List (List Char × Bool)} {visited : Bool}
    (hstack : s.stack = above ++ [(root, visited)]) :
    (∃ above visited, t.stack = above ++ [(root, visited)]) ∨ o = some (.removeDir root) := by
  obtain ⟨stack, listing⟩ := s
  obtain rfl : stack = above ++ [(root, visited)] := hstack
  cases a with
  | next =>
    cases listing with
    | some dir => cases above <;> cases hs
    | none =>
      match above, visited, hs with
      | [], true, hs =>
        cases hs
        exact .inr rfl
      | [], false, hs =>
        cases hs
        exact .inl ⟨[], true, rfl⟩
      | (dir, true) :: above, visited, hs =>
        cases hs
        exact .inl ⟨above, visited, rfl⟩
      | (dir, false) :: above, visited, hs =>
        cases hs
        exact .inl ⟨(dir, true) :: above, visited, rfl⟩
  | entry name kind =>
    match listing, kind, hs with
    | some dir, .dir, hs =>
      cases hs
      exact .inl ⟨_ :: above, visited, rfl⟩
    | some dir, .other, hs =>
      cases hs
      exact .inl ⟨above, visited, rfl⟩
    | some dir, .gone, hs =>
      cases hs
      exact .inl ⟨above, visited, rfl⟩
  | endOfDir =>
    match listing, hs with
    | some dir, hs =>
      cases hs
      exact .inl ⟨above, visited, rfl⟩

theorem removal_takes_root {root : List Char} {tr : List (Event Sweep SweepAct (Option Removal))}
    {t : Sweep} (hrun : (sweeping (.from root)).Run (sweeping (.from root)).init tr t)
    (hdone : t.stack = []) : ∃ e ∈ tr, e.out = some (.removeDir root) := by
  have hkept : (∃ above visited, t.stack = above ++ [(root, visited)]) ∨
      ∃ e ∈ tr, e.out = some (.removeDir root) := by
    refine hrun.history (P := fun tr t => (∃ above visited, t.stack = above ++ [(root, visited)]) ∨
      ∃ e ∈ tr, e.out = some (.removeDir root)) (.inl ⟨[], false, rfl⟩) ?_
    intro tr s a t o _ hp hs
    rcases hp with ⟨above, visited, hstack⟩ | ⟨e, he, hout⟩
    · rcases Sweep.step_stack hs hstack with hkept | hout
      · exact .inl hkept
      · exact .inr ⟨⟨s, a, o, t⟩, by simp, hout⟩
    · exact .inr ⟨e, List.mem_append_left _ he, hout⟩
  rcases hkept with ⟨above, visited, hstack⟩ | hremoved
  · rw [hdone] at hstack
    simp at hstack
  · exact hremoved

end CvdBench.Worker
