import CvdBench.Foundation.MakeDirs
import CvdBench.Worker.MeasuredSteps
import CvdBench.Worker.Prebuild

/-!
The write workload on a file tree: the paths that its tasks draw, and the calls that make
them, each directory of a `create_dir_all` by a call of its own.
-/

set_option autoImplicit false

namespace CvdBench.Worker

open Foundation Spec Metrics

/-- `{v:0width$x}` -/
def hexPad (width v : Nat) : List Char :=
  List.replicate (width - (Nat.toDigits 16 v).length) '0' ++ Nat.toDigits 16 v

theorem plain_of_mem_toDigits {c : Char} {v : Nat} (h : c ∈ Nat.toDigits 16 v) :
    c ≠ '/' ∧ c ≠ '.' ∧ c ≠ '_' := by
  have hdigit : ∀ d < 16, Nat.digitChar d ≠ '/' ∧ Nat.digitChar d ≠ '.' ∧
      Nat.digitChar d ≠ '_' := by decide
  induction v using Nat.strong_induction_on with
  | _ v ih =>
    rw [Nat.toDigits_eq_if (by decide)] at h
    split at h
    · next hlt =>
      rw [List.mem_singleton.mp h]
      exact hdigit v hlt
    · next hge =>
      rcases List.mem_append.mp h with h | h
      · exact ih (v / 16) (Nat.div_lt_self (by omega) (by decide)) h
      · rw [List.mem_singleton.mp h]
        exact hdigit (v % 16) (Nat.mod_lt v (by decide))

theorem plain_of_mem_hexPad {c : Char} {width v : Nat} (h : c ∈ hexPad width v) :
    c ≠ '/' ∧ c ≠ '.' ∧ c ≠ '_' := by
  rcases List.mem_append.mp h with h | h
  · rw [List.eq_of_mem_replicate h]
    decide
  · exact plain_of_mem_toDigits h

theorem hexPad_ne_nil (width v : Nat) : hexPad width v ≠ [] :=
  List.append_ne_nil_of_right_ne_nil _ Nat.toDigits_ne_nil

def subdirMaxDepth : Nat := 5

def subdirSegmentLen : Nat := 3

/-- `hex_segment` of what the generator gives. -/
def hexSegment (v : Nat) : EntryName where
  chars := hexPad subdirSegmentLen (v % 2 ^ (4 * subdirSegmentLen))
  notEmpty := hexPad_ne_nil _ _
  noSlash h := (plain_of_mem_hexPad h).1 rfl
  notDots := by
    refine ⟨fun h => ?_, fun h => ?_⟩
    · exact (plain_of_mem_hexPad (h ▸ List.mem_singleton_self '.')).2.1 rfl
    · exact (plain_of_mem_hexPad (h ▸ List.mem_cons_self)).2.1 rfl

/-- `file_{:08x}.dat` -/
def randomFileName (v : Nat) : EntryName where
  chars := ['f', 'i', 'l', 'e', '_'] ++ hexPad 8 v ++ ['.', 'd', 'a', 't']
  notEmpty := by simp
  noSlash := by
    have hhex : '/' ∉ hexPad 8 v := fun h => (plain_of_mem_hexPad h).1 rfl
    simp [hhex]
  notDots := by simp

/-- No directory of the workload is called like one of its files. -/
theorem hexSegment_ne_randomFileName (v v' : Nat) : hexSegment v ≠ randomFileName v' := by
  intro h
  have hmem : '_' ∈ (hexSegment v).chars := by
    rw [h]
    simp [randomFileName]
  exact (plain_of_mem_hexPad hmem).2.2 rfl

/-- The segments are pushed onto an empty path. -/
def randomSubdir (draws : List Nat) : List Char :=
  draws.foldl (fun path v => joinPath path (hexSegment v).chars) []

def drawable (draws : List Nat) (file : Nat) : Bool :=
  decide (0 < draws.length) && decide (draws.length ≤ subdirMaxDepth) &&
    draws.all (· < 2 ^ 64) && decide (file < 2 ^ 32)

/-- What `sample_size` can give, or the fixed size. -/
def samples : WriteSize → Nat → Bool
  | .fixed bytes, n => n == bytes
  | .range min max _, n => if min ≥ max then n == min else decide (min ≤ n) && decide (n ≤ max)

inductive WriteRunError where
  | io (op : String) (path : List Char) (source : Errno)
  | verifyMismatch (path : List Char)
  deriving DecidableEq, Repr

/-- What a task does in one turn of its loop: its paths, where its `create_dir_all` is, and
whether its file has been opened. -/
structure WriteJob where
  dirPath : List Char
  filePath : List Char
  dirs : MakeDirs EntryName
  opened : Bool

structure WriteRun (H : Type) where
  timed : Measured H
  tree : FileTree EntryName
  jobs : List WriteJob
  errors : List (Option WriteRunError)

inductive WriteAct where
  | elapse (d : Nat)
  | abort
  | cancel
  | run (i : Nat)
  | size (i n : Nat)
  | draw (i : Nat) (draws : List Nat) (file : Nat)
  /-- one call of `create_dir_all` -/
  | mkdir (i : Nat)
  | mkdirEnd (i : Nat)
  | open (i : Nat)
  | written (i elapsed : Nat)
  | verify (i : Nat) (same : Bool)
  deriving DecidableEq, Repr

namespace WriteRun

variable {H : Type} (cfg : MeasureCfg) (lib : HdrRecorder H) (fresh : PerOpMetrics H)
  (config : WriteConfig) (root : List Char)

def tick (s : WriteRun H) (i : Nat) (act : TimedAct) : Option (WriteRun H × Option OpRecord) :=
  (s.timed.step cfg lib fresh (.task i act)).map fun res => ({ s with timed := res.1 }, res.2)

def world (s : WriteRun H) (a : MeasureAct) : Option (WriteRun H × Option OpRecord) :=
  (s.timed.step cfg lib fresh a).map fun res => ({ s with timed := res.1 }, res.2)

def stopped (s : WriteRun H) : Bool := s.timed.abort || s.timed.cancelled

def setJob (s : WriteRun H) (i : Nat) (job : WriteJob) : WriteRun H :=
  { s with jobs := s.jobs.set i job }

def setError (s : WriteRun H) (i : Nat) (e : WriteRunError) : WriteRun H :=
  { s with errors := s.errors.set i (some e) }

def drawn (draws : List Nat) (file : Nat) : WriteJob :=
  let dirPath := joinPath root (randomSubdir draws)
  ⟨dirPath, joinPath dirPath (randomFileName file).chars, .start (pathComps dirPath), false⟩

def step (s : WriteRun H) : WriteAct → Option (WriteRun H × Option OpRecord)
  | .elapse d => s.world cfg lib fresh (.elapse d)
  | .abort => s.world cfg lib fresh .abort
  | .cancel => s.world cfg lib fresh .cancel
  | .run i => match s.timed.tasks[i]? with
      | some (.write (.acquire _)) => none
      | _ => s.tick cfg lib fresh i .run
  | .size i n => if samples config.size n then s.tick cfg lib fresh i (.size n) else none
  | .draw i draws file => match s.timed.tasks[i]? with
      | some (.write (.acquire _)) =>
          if drawable draws file then (s.setJob i (drawn root draws file)).tick cfg lib fresh i .run
          else none
      | _ => none
  | .mkdir i => match s.timed.tasks[i]?, s.jobs[i]? with
      | some (.write (.mkdir _ _)), some job => match job.dirs with
          | .done _ => none
          | dirs =>
              let res := dirs.step s.tree
              some ({ s.setJob i { job with dirs := res.2 } with tree := res.1 }, none)
      | _, _ => none
  | .mkdirEnd i => match s.timed.tasks[i]?, s.jobs[i]? with
      | some (.write (.mkdir _ _)), some job => match job.dirs with
          | .done (.ok ()) => s.tick cfg lib fresh i (.mkdir (.ok ()))
          | .done (.error e) =>
              (s.setError i (.io "mkdir" job.dirPath e)).tick cfg lib fresh i (.mkdir (.error "io"))
          | _ => none
      | _, _ => none
  | .open i => match s.timed.tasks[i]?, s.jobs[i]? with
      | some (.write (.write _ _ _)), some job =>
          if job.opened then none
          else match s.tree.createFile (pathComps job.filePath) with
            | .ok tree => some ({ s.setJob i { job with opened := true } with tree }, none)
            | .error e => (s.setError i (.io "write" job.filePath e)).tick cfg lib fresh i
                (.written (.error "io"))
      | _, _ => none
  | .written i elapsed => match s.jobs[i]? with
      | some job => if job.opened then s.tick cfg lib fresh i (.written (.ok elapsed)) else none
      | none => none
  | .verify i same => match s.timed.tasks[i]?, s.jobs[i]? with
      | some (.write (.verify _ _ _)), some job =>
          match s.tree.openFile (pathComps job.filePath) with
            | .error e => (s.setError i (.io "verify_read" job.filePath e)).tick cfg lib fresh i
                (.verified (.error "io"))
            | .ok () =>
                if same then s.tick cfg lib fresh i (.verified (.ok true))
                else (s.setError i (.verifyMismatch job.filePath)).tick cfg lib fresh i
                  (.verified (.ok false))
      | _, _ => none

end WriteRun

/-- `run_with_root`, started at `start` on a tree. -/
def writeRunning {H : Type} (cfg : MeasureCfg) (lib : HdrRecorder H) (fresh : PerOpMetrics H)
    (config : WriteConfig) (root : List Char) (start : Nat) (tree : FileTree EntryName) :
    Machine (WriteRun H) WriteAct (Option OpRecord) where
  init := ⟨(measuring cfg lib fresh start (List.replicate config.concurrency .write)).init, tree,
    List.replicate config.concurrency ⟨[], [], .done (.ok ()), false⟩,
    List.replicate config.concurrency none⟩
  step := WriteRun.step cfg lib fresh config root

def writeResult {H : Type} (s : WriteRun H) : Option (Except WriteRunError Unit) :=
  if ∀ task ∈ s.timed.tasks, task = .finished then
    some (match s.errors.findSome? id with
      | some e => .error e
      | none => .ok ())
  else none

end CvdBench.Worker
