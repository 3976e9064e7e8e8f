import CvdBench.Foundation.FileTree
import CvdBench.Worker.WorkRoot

/-!
The removal loop of `remove_dir_all_no_follow` and `best_effort_cleanup` on a file tree.
-/

set_option autoImplicit false

namespace CvdBench.Worker

open Foundation

instance : DecidableEq EntryName := fun a b =>
  decidable_of_iff (a.chars = b.chars) (by cases a; cases b; simp)

def segmentComp (segment : List Char) : Option (Comp EntryName) :=
  if h : segment ≠ [] ∧ '/' ∉ segment ∧ segment ≠ ['.'] ∧ segment ≠ ['.', '.'] then
    some (.name ⟨segment, h.1, h.2.1, h.2.2⟩)
  else if segment = ['.', '.'] then some .parent
  else none

/-- How the file system reads an absolute path. -/
def pathComps (path : List Char) : List (Comp EntryName) := (segments path).filterMap segmentComp

@[simp] theorem segmentComp_name (name : EntryName) :
    segmentComp name.chars = some (.name name) := by
  unfold segmentComp
  rw [dif_pos ⟨name.notEmpty, name.noSlash, name.notDots.1, name.notDots.2⟩]

theorem pathComps_join {dir : List Char} (hdir : dir ≠ []) (name : EntryName) :
    pathComps (joinPath dir name.chars) = pathComps dir ++ [.name name] := by
  unfold pathComps
  rw [segments_join hdir (noSlash_head name.noSlash), segments_name name.notEmpty name.noSlash,
    List.filterMap_append]
  simp

/-- The loop and the file system: the directory that is being read still has to give the
`pending` names. -/
structure Clearing where
  tree : FileTree EntryName
  sweep : Sweep
  pending : List EntryName

section

variable (order : List Char → HashOrder EntryName)

/-- One turn of either loop. It leaves the loop with `Ok` at the end of the stack, and with
an error of the file system that says anything but NotFound. -/
def Clearing.turn (s : Clearing) : Except (Except Errno Unit) Clearing :=
  match s.sweep.listing, s.pending with
  | some dir, name :: pending =>
      let path := joinPath dir name.chars
      match s.tree.symlinkMetadata (pathComps path) with
      | .error .notFound => .ok ⟨s.tree, s.sweep, pending⟩
      | .error e => .error (.error e)
      | .ok .dir => .ok ⟨s.tree, ⟨(path, false) :: s.sweep.stack, some dir⟩, pending⟩
      | .ok _ => match s.tree.removeFile (pathComps path) with
          | .ok tree => .ok ⟨tree, s.sweep, pending⟩
          | .error .notFound => .ok ⟨s.tree, s.sweep, pending⟩
          | .error e => .error (.error e)
  | some _, [] => .ok ⟨s.tree, ⟨s.sweep.stack, none⟩, []⟩
  | none, _ => match s.sweep.stack with
      | [] => .error (.ok ())
      | (dir, true) :: rest => match s.tree.removeDir (pathComps dir) with
          | .ok tree => .ok ⟨tree, ⟨rest, none⟩, []⟩
          | .error .notFound => .ok ⟨s.tree, ⟨rest, none⟩, []⟩
          | .error e => .error (.error e)
      | (dir, false) :: rest => match s.tree.readDir (order dir) (pathComps dir) with
          | .ok names => .ok ⟨s.tree, ⟨(dir, true) :: rest, some dir⟩, names⟩
          | .error .notFound => .ok ⟨s.tree, ⟨(dir, true) :: rest, none⟩, []⟩
          | .error e => .error (.error e)

def Clearing.loop : Nat → Clearing → Option (FileTree EntryName × Except Errno Unit)
  | 0, _ => none
  | fuel + 1, s => match s.turn order with
      | .error res => some (s.tree, res)
      | .ok s' => Clearing.loop fuel s'

def removeDirAllNoFollow (fuel : Nat) (tree : FileTree EntryName) (root : List Char) :
    Option (FileTree EntryName × Except Errno Unit) :=
  Clearing.loop order fuel ⟨tree, .from root, []⟩

inductive CleanupError where
  | refused
  | io (e : Errno)
  deriving DecidableEq, Repr

def rootKind (tree : FileTree EntryName) (root : List Char) : Except Errno RootKind :=
  match tree.symlinkMetadata (pathComps root) with
  | .error .notFound => .ok .notFound
  | .error e => .error e
  | .ok (.link _) => .ok .symlink
  | .ok .dir => .ok .dir
  | .ok _ => .ok .other

def cleanupIn (start : List Char → List Char → RootKind → CleanupStart) (fuel : Nat)
    (tree : FileTree EntryName) (mount root : List Char) :
    Option (FileTree EntryName × Except CleanupError Unit) :=
  if ¬ pathStartsWith root mount then some (tree, .error .refused)
  else match rootKind tree root with
    | .error e => some (tree, .error (.io e))
    | .ok kind => match start mount root kind with
        | .refused => some (tree, .error .refused)
        | .nothing => some (tree, .ok ())
        | .sweep s =>
            (Clearing.loop order fuel ⟨tree, s, []⟩).map fun res => (res.1, res.2.mapError .io)

def cleanupRootIn := cleanupIn order cleanupRoot

def bestEffortCleanupIn := cleanupIn order bestEffortCleanup

end

theorem Clearing.turn_sweep (order : List Char → HashOrder EntryName) {s s' : Clearing}
    (h : s.turn order = .ok s') :
    ∃ tr, (sweeping s.sweep).Run s.sweep tr s'.sweep := by
  obtain ⟨tree, ⟨stack, listing⟩, pending⟩ := s
  have hone : ∀ (a : SweepAct) (s₁ : Sweep) (o : Option Removal),
      Sweep.step ⟨stack, listing⟩ a = some (s₁, o) →
      ∃ tr, (sweeping ⟨stack, listing⟩).Run ⟨stack, listing⟩ tr s₁ :=
    fun a s₁ o hstep => ⟨_, .single hstep⟩
  unfold Clearing.turn at h
  simp only at h
  cases listing with
  | some dir =>
    cases pending with
    | nil =>
      cases h
      exact hone .endOfDir _ _ rfl
    | cons name pending =>
      simp only at h
      split at h
      · cases h
        exact hone (.entry name .gone) _ _ rfl
      · cases h
      · cases h
        exact hone (.entry name .dir) _ _ rfl
      · split at h
        · cases h
          exact hone (.entry name .other) _ _ rfl
        · cases h
          exact hone (.entry name .other) _ _ rfl
        · cases h
  | none =>
    simp only at h
    split at h
    · cases h
    · split at h
      · cases h
        exact hone .next _ _ rfl
      · cases h
        exact hone .next _ _ rfl
      · cases h
    · next dir rest =>
      split at h
      · cases h
        exact hone .next _ _ rfl
      · cases h
        exact ⟨_, (Machine.Run.single (M := sweeping _) (a := .next) rfl).append
          (Machine.Run.single (M := sweeping _) (a := .endOfDir) rfl)⟩
      · cases h

end CvdBench.Worker
