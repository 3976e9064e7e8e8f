import CvdBench.Foundation.Text
import CvdBench.Spec.Parse
import CvdBench.Spec.PathSafe
import CvdBench.Wire.Proto
import Mathlib.Algebra.GroupWithZero.Nat
import Mathlib.Algebra.Order.Group.Multiset
import Mathlib.Data.Multiset.Basic

/-!
The file system as a directory scan sees it, and the lines of a `dir_manifest`. A
`PathBuf` is the list of its components: `Path` compares and strips prefixes by those.
-/

set_option autoImplicit false

namespace CvdBench.Manifest

open Foundation Foundation.Text Proto

abbrev Path := List String

/-- `to_string_lossy` of a relative path. -/
def Path.toText (p : Path) : String := String.ofList (joinSlash (p.map String.toList))

/-- `PathBuf::from` on a relative path: empty segments are no components. -/
def Path.ofText (cs : List Char) : Path :=
  ((Spec.splitSlash cs).filter (· ≠ [])).map String.ofList

/-- `Path::strip_prefix` -/
def Path.stripPrefix : Path → Path → Option Path
  | p, [] => some p
  | [], _ :: _ => none
  | a :: p, b :: q => if a = b then Path.stripPrefix p q else none

theorem Path.stripPrefix_append (mount rel : Path) :
    Path.stripPrefix (mount ++ rel) mount = some rel := by
  induction mount with
  | nil => cases rel <;> rfl
  | cons a mount ih => simp [Path.stripPrefix, ih]

inductive FileType where
  | file | dir | symlink | other
  deriving DecidableEq, Repr

abbrev DirEntry := String × FileType

def entrySize (size : Path → Nat) (dir : Path) (e : DirEntry) : Nat :=
  1 + if e.2 = .dir then size (dir ++ [e.1]) else 0

def listingSize (size : Path → Nat) (dir : Path) (es : List DirEntry) : Nat :=
  (es.map (entrySize size dir)).sum

/-- What the scan asks the operating system, all with absolute paths. The tree does not
change during the scan, and it is finite: a directory is larger than what it lists. -/
structure DirFs where
  mountPoint : Path
  /-- `read_dir`, with the entries in the order in which they come -/
  readDir : Path → Option (List DirEntry)
  canonicalize : Path → Option Path
  size : Path → Nat
  finite : ∀ dir es, readDir dir = some es → listingSize size dir es < size dir

inductive DirScanError where
  | io (source : String)
  | readDir (path : Path) (source : String)
  | metadata (path : Path) (source : String)
  | pathSafe (lineno : Nat) (source : Spec.PathSafeError)
  | pathEscape (mount : Path) (path : Path)
  | queueClosed
  | join (source : String)
  deriving DecidableEq, Repr

inductive DirLine where
  | skip
  | dir (rel : Path)
  | invalid (source : Spec.PathSafeError)

def dirLine (line : List Char) : DirLine :=
  let trimmed := Spec.trim line
  if trimmed.isEmpty || trimmed.head? == some '#' then .skip
  else match Spec.validateRelative (String.ofList trimmed) with
    | .error source => .invalid source
    | .ok () => .dir (Path.ofText trimmed)

namespace DirFs

variable (fs : DirFs)

/-- The entry that a regular file becomes: its canonical path must lie below the mount
point, and the rest of it must be clean. -/
def fileEntry (dir : Path) (name : String) : Except DirScanError FileEntry :=
  let entryPath := fs.mountPoint ++ dir ++ [name]
  match fs.canonicalize entryPath with
  | none => .error (.metadata entryPath "canonicalize")
  | some canon => match Path.stripPrefix canon fs.mountPoint with
    | none => .error (.pathEscape fs.mountPoint canon)
    | some rel => match Spec.normalizeRelative (Path.toText rel) with
      | .error _ => .error (.pathEscape fs.mountPoint entryPath)
      | .ok fsPath => .ok ⟨fsPath, ""⟩

def subdir (dir : Path) (name : String) : Except DirScanError Path :=
  let entryPath := fs.mountPoint ++ dir ++ [name]
  match Path.stripPrefix entryPath fs.mountPoint with
  | none => .error (.pathEscape fs.mountPoint entryPath)
  | some rel => .ok rel

theorem subdir_eq (dir : Path) (name : String) : fs.subdir dir name = .ok (dir ++ [name]) := by
  unfold subdir
  simp only [List.append_assoc, Path.stripPrefix_append]

end DirFs

end CvdBench.Manifest
