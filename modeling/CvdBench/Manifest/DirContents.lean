import CvdBench.Manifest.DirWake
import Mathlib.Algebra.Group.Prod

/-!
What a directory amounts to, and how much of it each task of a pass still has before it:
the files to be pushed, the directories and the files to be counted. A step hands on what
it takes, unless it fails or sees the cancel flag.
-/

set_option autoImplicit false

namespace CvdBench.Manifest

open Foundation Foundation.Text Proto Master

/-- Files to push, directories to count, files to count. -/
abbrev Load := Multiset FileEntry × Nat × Nat

namespace DirFs

variable (fs : DirFs)

/-- `sub` is the load of a subdirectory. -/
def entryLoad (sub : Path → Load) (dir : Path) (e : DirEntry) : Load :=
  match e.2 with
  | .file => match fs.fileEntry dir e.1 with
    | .ok file => ({file}, 0, 1)
    | .error _ => 0
  | .dir => sub (dir ++ [e.1])
  | .symlink | .other => 0

def listingLoad (sub : Path → Load) (dir : Path) (es : List DirEntry) : Load :=
  (es.map (fs.entryLoad sub dir)).sum

def loadWithin : Nat → Path → Load
  | 0, _ => 0
  | fuel + 1, dir => match fs.readDir (fs.mountPoint ++ dir) with
    | none => 0
    | some es => (0, 1, 0) + fs.listingLoad (loadWithin fuel) dir es

def load (dir : Path) : Load := fs.loadWithin (fs.size (fs.mountPoint ++ dir)) dir

variable {fs}

theorem entrySize_le (size : Path → Nat) (dir : Path) {e : DirEntry} {es : List DirEntry}
    (he : e ∈ es) : entrySize size dir e ≤ listingSize size dir es := by
  induction es with
  | nil => cases he
  | cons e' es ih =>
    simp only [listingSize, List.map_cons, List.sum_cons] at ih ⊢
    cases List.mem_cons.mp he with
    | inl heq =>
      subst heq
      omega
    | inr hmem =>
      have hle := ih hmem
      omega

theorem size_lt {dir : Path} {name : String} {es : List DirEntry}
    (h : fs.readDir (fs.mountPoint ++ dir) = some es) (he : (name, FileType.dir) ∈ es) :
    fs.size (fs.mountPoint ++ (dir ++ [name])) < fs.size (fs.mountPoint ++ dir) := by
  have hle := entrySize_le fs.size (fs.mountPoint ++ dir) he
  have hlt := fs.finite _ _ h
  simp only [entrySize, if_true, List.append_assoc] at hle
  omega

theorem listingLoad_congr {sub sub' : Path → Load} {dir : Path} {es : List DirEntry}
    (h : ∀ name, (name, FileType.dir) ∈ es → sub (dir ++ [name]) = sub' (dir ++ [name])) :
    fs.listingLoad sub dir es = fs.listingLoad sub' dir es := by
  unfold listingLoad
  congr 1
  refine List.map_congr_left fun e he => ?_
  obtain ⟨name, ft⟩ := e
  cases ft with
  | dir => exact h name he
  | _ => rfl

theorem loadWithin_enough {fuel fuel' : Nat} {dir : Path}
    (h : fs.size (fs.mountPoint ++ dir) ≤ fuel) (h' : fs.size (fs.mountPoint ++ dir) ≤ fuel') :
    fs.loadWithin fuel dir = fs.loadWithin fuel' dir := by
  induction fuel generalizing fuel' dir with
  | zero =>
    cases hes : fs.readDir (fs.mountPoint ++ dir) with
    | none => cases fuel' <;> simp [loadWithin, hes]
    | some es =>
      have hlt := fs.finite _ _ hes
      omega
  | succ fuel ih =>
    cases hes : fs.readDir (fs.mountPoint ++ dir) with
    | none => cases fuel' <;> simp [loadWithin, hes]
    | some es =>
      have hpos := fs.finite _ _ hes
      obtain ⟨fuel', rfl⟩ : ∃ k, fuel' = k + 1 := ⟨fuel' - 1, by omega⟩
      simp only [loadWithin, hes]
      congr 1
      refine listingLoad_congr fun name hname => ?_
      have hlt := size_lt hes hname
      exact ih (by omega) (by omega)

theorem load_eq {dir : Path} {es : List DirEntry}
    (h : fs.readDir (fs.mountPoint ++ dir) = some es) :
    fs.load dir = (0, 1, 0) + fs.listingLoad fs.load dir es := by
  have hpos := fs.finite _ _ h
  have hfuel : fs.load dir = fs.loadWithin (fs.size (fs.mountPoint ++ dir) + 1) dir :=
    loadWithin_enough (Nat.le_refl _) (Nat.le_succ _)
  rw [hfuel, loadWithin, h]
  simp only
  congr 1
  refine listingLoad_congr fun name hname => ?_
  exact loadWithin_enough (Nat.le_of_lt (size_lt h hname)) (Nat.le_refl _)

end DirFs

section

variable (env : ScanEnv)

def entriesLeft (dir : Path) (es : List DirEntry) : Load := env.fs.listingLoad env.fs.load dir es

def lineLoad (line : List Char) : Load :=
  match dirLine line with
  | .dir rel => env.fs.load rel
  | .skip | .invalid _ => 0

def linesLeft (rest : List (List Char)) : Load := (rest.map (lineLoad env)).sum

def ScanEnv.load : Load := linesLeft env (Text.lines env.content.toList)

def Scanner.left : Scanner → Load
  | .scan dir => env.fs.load dir
  | .entries dir rest | .pushDirNotify dir rest => (0, 1, 0) + entriesLeft env dir rest
  | .pushFile dir rest file | .pushFileHeld dir rest file =>
      ({file}, 1, 1) + entriesLeft env dir rest
  | .countFile dir rest => (0, 1, 1) + entriesLeft env dir rest
  | .pushDir dir rest sub => (0, 1, 0) + env.fs.load sub + entriesLeft env dir rest
  | .finishDir (.ok ()) | .finishWake (.ok ()) | .countDir => (0, 1, 0)
  | _ => 0

def DirReader.left : DirReader → Load
  | .opening => env.load
  | .lines _ rest | .notify _ rest => linesLeft env rest
  | .push _ dir rest => env.fs.load dir + linesLeft env rest
  | _ => 0

def DirWorkQueue.left (q : DirWorkQueue) : Load := (q.dirs.map env.fs.load).sum

def DirPass.left (p : DirPass) : Load :=
  p.reader.left env + p.queue.left env + Pool.total (Scanner.left env) p.scanners

end

def CellStep.delivered : CellStep → Load
  | .act (.pushBack file) => ({file}, 0, 0)
  | .act (.addStats dirs files _) => (0, dirs.toNat, files.toNat)
  | _ => 0

def Scanner.failing : Scanner → Bool
  | .finishDir (.error _) | .finishWake (.error _) | .finished (.error _) => true
  | _ => false

def Scanner.sees : Scanner → Bool
  | .top | .popTop | .scan _ | .entries .. => true
  | _ => false

def DirReader.sees : DirReader → Bool
  | .lines _ (_ :: _) => true
  | _ => false

variable {env : ScanEnv} {cancel : Bool}

@[simp] theorem entriesLeft_nil (dir : Path) : entriesLeft env dir [] = 0 := rfl

theorem entriesLeft_cons (dir : Path) (e : DirEntry) (es : List DirEntry) :
    entriesLeft env dir (e :: es) =
      env.fs.entryLoad env.fs.load dir e + entriesLeft env dir es := by
  simp [entriesLeft, DirFs.listingLoad]

@[simp] theorem linesLeft_nil : linesLeft env [] = 0 := rfl

theorem linesLeft_cons (line : List Char) (rest : List (List Char)) :
    linesLeft env (line :: rest) = lineLoad env line + linesLeft env rest := by
  simp [linesLeft]

theorem DirWorkQueue.left_append (q : DirWorkQueue) (dir : Path) (pending : Nat) :
    ({ q with dirs := q.dirs ++ [dir], pendingDirs := pending } : DirWorkQueue).left env =
      q.left env + env.fs.load dir := by
  simp [DirWorkQueue.left]

theorem DirReader.Move.left {q q' : DirWorkQueue} {fault : Option String} {r r' : DirReader}
    {sig : Signal} (h : DirReader.Move env cancel q fault r r' q' sig) :
    r'.left env + q'.left env = r.left env + q.left env ∨
      (∃ err, r' = .finished (.error err)) ∨
      cancel = true ∧ r.sees = true ∧ r' = .close ∧ q' = q := by
  cases h with
  | openFail source | linesInvalid n line rest e | pushClosed n dir rest =>
    exact .inr (.inl ⟨_, rfl⟩)
  | linesCancel n line rest hcancel => exact .inr (.inr ⟨hcancel, rfl, rfl, rfl⟩)
  | linesSkip n line rest _ hline =>
    simp [DirReader.left, linesLeft_cons, lineLoad, hline]
  | linesDir n line rest rel _ hline =>
    simp [DirReader.left, linesLeft_cons, lineLoad, hline]
  | push n dir rest =>
    left
    rw [DirWorkQueue.left_append]
    simp only [DirReader.left]
    abel
  | _ =>
    left
    simp [DirReader.left, DirWorkQueue.left, ScanEnv.load]

theorem Scanner.Move.left {q q' : DirWorkQueue} {act : ScannerAct} {s s' : Scanner}
    {sig : Signal} {c : CellStep} (h : Scanner.Move env cancel q act s s' q' sig c) :
    s'.left env + q'.left env + c.delivered = s.left env + q.left env ∨
      s'.failing = true ∨
      cancel = true ∧ s.sees = true ∧ (s'.left env).1 = 0 ∧ q' = q ∧ c = .local := by
  cases h with
  | topCancel hcancel | popCancel hcancel | scanCancel dir hcancel
  | entriesCancel dir rest hcancel => exact .inr (.inr ⟨hcancel, rfl, rfl, rfl, rfl⟩)
  | scanFail | entriesFail | fileRefused | dirRefused => exact .inr (.inl rfl)
  | popDir dir dirs _ hdirs =>
    left
    simp [Scanner.left, DirWorkQueue.left, CellStep.delivered, hdirs]
  | scan dir es _ hes =>
    left
    simp only [Scanner.left, CellStep.delivered, DirFs.load_eq hes, entriesLeft]
    abel
  | entrySkip dir e rest _ hfile hdir =>
    left
    have he : env.fs.entryLoad env.fs.load dir e = 0 := by
      unfold DirFs.entryLoad
      split <;> simp_all
    simp only [Scanner.left, CellStep.delivered, entriesLeft_cons, he]
    abel
  | entryFile dir name rest file _ hfile =>
    left
    have hone : (({file}, 1, 1) : Load) = (0, 1, 0) + ({file}, 0, 1) := by simp
    simp only [Scanner.left, CellStep.delivered, entriesLeft_cons, DirFs.entryLoad, hfile, hone]
    abel
  | entryDir dir name rest =>
    left
    simp only [Scanner.left, CellStep.delivered, entriesLeft_cons, DirFs.entryLoad]
    abel
  | filePush dir rest file =>
    left
    have hone : (({file}, 1, 1) : Load) = ({file}, 0, 0) + (0, 1, 1) := by simp
    simp only [Scanner.left, CellStep.delivered, hone]
    abel
  | fileCount dir rest =>
    left
    have hone : ((0, 1, 1) : Load) = (0, 0, 1) + (0, 1, 0) := by simp
    simp only [Scanner.left, CellStep.delivered, hone, Int.toNat_zero, Int.toNat_one]
    abel
  | dirPush dir rest sub =>
    left
    rw [DirWorkQueue.left_append]
    simp only [Scanner.left, CellStep.delivered]
    abel
  | finish res | finishWake res =>
    cases res with
    | ok =>
      left
      simp [Scanner.left, Scanner.afterDir, CellStep.delivered, DirWorkQueue.left]
    | error err => exact .inr (.inl rfl)
  | finishLast res =>
    cases res with
    | ok =>
      left
      simp [Scanner.left, CellStep.delivered, DirWorkQueue.left]
    | error err => exact .inr (.inl rfl)
  | countDir =>
    left
    simp [Scanner.left, CellStep.delivered, add_comm]
  | _ =>
    left
    simp [Scanner.left, CellStep.delivered, DirWorkQueue.left]

end CvdBench.Manifest
