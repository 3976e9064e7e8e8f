import CvdBench.Foundation.Tour
import CvdBench.Spec.Validate
import CvdBench.Worker.Removal

/-!
The metadata layout of a read-only workload: `scan_existing` walks through the tree that is
there.
-/

set_option autoImplicit false

namespace CvdBench.Worker

open Foundation Spec

inductive BuildError where
  | io (op : String) (path : List Char) (source : Errno)
  | emptyReadOnlyLayout (kind : String) (root : List Char)
  deriving DecidableEq, Repr

structure Layout where
  root : List Char
  directories : List (List Char)
  files : List (List Char)
  taskRoots : List (List Char)
  deriving DecidableEq, Repr

/-- The variables of the scan. The directory that is being read still has to give the
names beside it. -/
structure LayoutScan where
  directories : List (List Char)
  files : List (List Char)
  stack : List (List Char)
  scannedEntries : Nat
  listing : Option (List Char × List EntryName)

def LayoutScan.new (root : List Char) : LayoutScan := ⟨[root], [], [root], 0, none⟩

section

variable (order : List Char → HashOrder EntryName) (tree : FileTree EntryName) (scanLimit : Nat)

def LayoutScan.entry (s : LayoutScan) (dir : List Char) (name : EntryName)
    (names : List EntryName) : Except BuildError LayoutScan :=
  let scannedEntries := saturatingAddU64 s.scannedEntries 1
  let path := joinPath dir name.chars
  match tree.symlinkMetadata (pathComps path) with
  | .error e => .error (.io "file_type" path e)
  | .ok kind =>
      let directories := if kind = .dir then s.directories ++ [path] else s.directories
      let files := if kind = .file then s.files ++ [path] else s.files
      let stack := if kind = .dir then path :: s.stack else s.stack
      if scanLimit > 0 ∧ scannedEntries ≥ scanLimit then
        .ok ⟨directories, files, [], scannedEntries, none⟩
      else .ok ⟨directories, files, stack, scannedEntries, some (dir, names)⟩

/-- One turn of either loop; it leaves the loop at the end of the stack, or with an error. -/
def LayoutScan.turn (s : LayoutScan) : Except (Except BuildError Unit) LayoutScan :=
  match s.listing with
  | some (dir, name :: names) => (s.entry tree scanLimit dir name names).mapError .error
  | some (_, []) => .ok { s with listing := none }
  | none => match s.stack with
      | [] => .error (.ok ())
      | dir :: stack => match tree.readDir (order dir) (pathComps dir) with
          | .error e => .error (.error (.io "read_dir" dir e))
          | .ok names => .ok ⟨s.directories, s.files, stack, s.scannedEntries, some (dir, names)⟩

def LayoutScan.loop : Nat → LayoutScan → Option (Except BuildError LayoutScan)
  | 0, _ => none
  | fuel + 1, s => match s.turn order tree scanLimit with
      | .error (.error e) => some (.error e)
      | .error (.ok ()) => some (.ok s)
      | .ok s' => LayoutScan.loop fuel s'

def LayoutScan.looks (s : LayoutScan) : Nat :=
  match s.listing with
  | some (_, _ :: _) => 1
  | _ => 0

def LayoutScan.examined : Nat → LayoutScan → Nat
  | 0, _ => 0
  | fuel + 1, s => s.looks + match s.turn order tree scanLimit with
      | .error _ => 0
      | .ok s' => LayoutScan.examined fuel s'

end

def scanResult (config : MetadataConfig) (root : List Char) (s : LayoutScan) :
    Except BuildError Layout :=
  if config.ops.any (· == .readdir) && s.directories.isEmpty then
    .error (.emptyReadOnlyLayout "directories" root)
  else if config.ops.any (fun op => op == .stat || op == .open) && s.files.isEmpty then
    .error (.emptyReadOnlyLayout "files" root)
  else .ok ⟨root, s.directories, s.files, List.replicate config.concurrency root⟩

def scanRoot (mountPoint : List Char) (config : MetadataConfig) : List Char :=
  joinPath mountPoint config.dir.toList

def scanExisting (order : List Char → HashOrder EntryName) (fuel : Nat)
    (tree : FileTree EntryName) (mountPoint : List Char) (config : MetadataConfig) :
    Option (Except BuildError Layout) :=
  let root := scanRoot mountPoint config
  (LayoutScan.loop order tree config.readOnlyScanLimit fuel (.new root)).map fun res =>
    res.bind (scanResult config root)

def joinNames (root : List Char) (names : List EntryName) : List Char :=
  names.foldl (fun path name => joinPath path name.chars) root

@[simp] theorem joinNames_nil (root : List Char) : joinNames root [] = root := rfl

theorem joinNames_concat (root : List Char) (names : List EntryName) (name : EntryName) :
    joinNames root (names ++ [name]) = joinPath (joinNames root names) name.chars := by
  rw [joinNames, List.foldl_append]
  rfl

theorem joinNames_ne_nil {root : List Char} (hroot : root ≠ []) (names : List EntryName) :
    joinNames root names ≠ [] := by
  induction names using List.reverseRecOn with
  | nil => exact hroot
  | append_singleton names name ih =>
    rw [joinNames_concat]
    exact joinPath_ne_nil _ ih

theorem pathComps_joinNames {root : List Char} (hroot : root ≠ []) (names : List EntryName) :
    pathComps (joinNames root names) = pathComps root ++ names.map .name := by
  induction names using List.reverseRecOn with
  | nil => simp
  | append_singleton names name ih =>
    rw [joinNames_concat, pathComps_join (joinNames_ne_nil hroot names), ih, List.map_append,
      List.append_assoc]
    rfl

theorem pathComps_joinNames_inj {root : List Char} (hroot : root ≠ [])
    {names names' : List EntryName}
    (h : pathComps (joinNames root names) = pathComps (joinNames root names')) :
    names = names' := by
  rw [pathComps_joinNames hroot, pathComps_joinNames hroot] at h
  exact List.map_injective_iff.mpr (fun _ _ heq => Comp.name.inj heq) (List.append_cancel_left h)

/-- The path leads to the directory at `base`, whatever links it follows. -/
structure Opens (t : FileTree EntryName) (root : List Char) (base : List EntryName) : Prop where
  nonempty : root ≠ []
  found : find t.get? (pathComps root) = .ok base
  node : t.get? base = some .dir

/-- The path names a node of this kind at the directory or below it, and no link stands
between them. -/
def LiesBelow (t : FileTree EntryName) (root : List Char) (base : List EntryName)
    (n : Node EntryName) (path : List Char) : Prop :=
  ∃ names, path = joinNames root names ∧ t.get? (base ++ names) = some n

section

variable {t : FileTree EntryName} {root : List Char} {base : List EntryName}

theorem Opens.found_below (h : Opens t root base) {names : List EntryName}
    (hdir : t.get? (base ++ names) = some .dir) :
    find t.get? (pathComps (joinNames root names)) = .ok (base ++ names) := by
  rw [pathComps_joinNames h.nonempty]
  refine find_names h.found names fun pre hpre => ?_
  obtain ⟨rest, rfl⟩ := hpre
  cases rest with
  | nil => simpa using hdir
  | cons name rest =>
    rw [← List.append_assoc] at hdir
    exact FileTree.get?_above _ (by simp) hdir

theorem Opens.found_entry (h : Opens t root base) {names : List EntryName} {name : EntryName}
    {n : Node EntryName} (hn : t.get? (base ++ (names ++ [name])) = some n)
    (hnolink : ∀ target, n ≠ .link target) :
    find t.get? (pathComps (joinNames root (names ++ [name]))) =
      .ok (base ++ (names ++ [name])) := by
  rw [← List.append_assoc] at hn ⊢
  have hdir := FileTree.get?_parent hn
  rw [joinNames_concat, pathComps_join (joinNames_ne_nil h.nonempty names),
    find_join hdir (fun target heq => hnolink target (by rw [← Option.some.injEq, ← hn, heq]))
      (h.found_below hdir), stepInto, hn]

theorem Opens.metadata (h : Opens t root base) {names : List EntryName} {name : EntryName}
    {n : Node EntryName} (hdir : t.get? (base ++ names) = some .dir)
    (hn : t.get? (base ++ (names ++ [name])) = some n) :
    t.symlinkMetadata (pathComps (joinPath (joinNames root names) name.chars)) = .ok n := by
  rw [← List.append_assoc] at hn
  rw [FileTree.symlinkMetadata, pathComps_join (joinNames_ne_nil h.nonempty names),
    FileTree.entry_join name (h.found_below hdir) hdir]
  simp only [hn]

theorem Opens.read (h : Opens t root base) (order : HashOrder EntryName)
    {names : List EntryName} (hdir : t.get? (base ++ names) = some .dir) :
    t.readDir order (pathComps (joinNames root names)) =
      .ok (order.iter (t.children (base ++ names))) := by
  rw [FileTree.readDir, h.found_below hdir]
  simp only [hdir, if_true]

theorem Opens.found_node (h : Opens t root base) {names : List EntryName} {n : Node EntryName}
    (hn : t.get? (base ++ names) = some n) (hnolink : ∀ target, n ≠ .link target) :
    find t.get? (pathComps (joinNames root names)) = .ok (base ++ names) := by
  induction names using List.reverseRecOn with
  | nil =>
    rw [joinNames_nil, List.append_nil]
    exact h.found
  | append_singleton names name _ => exact h.found_entry hn hnolink

end

end CvdBench.Worker
