import CvdBench.Worker.BuildRun
import CvdBench.Worker.MeasuredSteps

/-!
The metadata workload on a file tree: what each operation of `run_task` does there, beside
what it records on the clock.
-/

set_option autoImplicit false

namespace CvdBench.Worker

open Foundation Spec Metrics

/-- `{:0width}` -/
def paddedTo (width i : Nat) : List Char :=
  List.replicate (width - (Nat.toDigits 10 i).length) '0' ++ Nat.toDigits 10 i

theorem paddedTo_injective (width : Nat) : Function.Injective (paddedTo width) := by
  have hvalue : ∀ n, Nat.ofDigitChars 10 (paddedTo width n) 0 = n := by
    intro n
    unfold paddedTo
    rw [Nat.ofDigitChars_append, Nat.ofDigitChars_replicate_zero, Nat.mul_zero,
      Nat.ofDigitChars_ten_toDigits]
  intro i j h
  rw [← hvalue i, h, hvalue j]

theorem slash_notMem_paddedTo (width i : Nat) : '/' ∉ paddedTo width i := by
  unfold paddedTo
  rw [List.mem_append]
  rintro (h | h)
  · exact absurd (List.eq_of_mem_replicate h) (by decide)
  · exact absurd (Nat.isDigit_of_mem_toDigits (by decide) (by decide) h) (by decide)

def seqName (letter : Char) (hletter : letter ≠ '/' ∧ letter ≠ '.') (ext : List Char)
    (hext : '/' ∉ ext) (seq : Nat) : EntryName where
  chars := letter :: '_' :: (paddedTo 8 seq ++ ext)
  notEmpty := by simp
  noSlash := by simp [slash_notMem_paddedTo, hletter.1.symm, hext]
  notDots := by simp [hletter.2]

theorem createLetter_plain : 'c' ≠ '/' ∧ 'c' ≠ '.' := by decide

theorem mkdirLetter_plain : 'm' ≠ '/' ∧ 'm' ≠ '.' := by decide

theorem slash_notMem_dat : '/' ∉ ['.', 'd', 'a', 't'] := by decide

theorem slash_notMem_nil : '/' ∉ ([] : List Char) := List.not_mem_nil

/-- `c_{create_seq:08}.dat` -/
def createName : Nat → EntryName :=
  seqName 'c' createLetter_plain ['.', 'd', 'a', 't'] slash_notMem_dat

/-- `m_{mkdir_seq:08}` -/
def mkdirName : Nat → EntryName := seqName 'm' mkdirLetter_plain [] slash_notMem_nil

theorem seqName_injective {letter : Char} {hletter : letter ≠ '/' ∧ letter ≠ '.'}
    {ext : List Char} {hext : '/' ∉ ext} :
    Function.Injective (seqName letter hletter ext hext) := by
  intro i j h
  have hchars := congrArg EntryName.chars h
  simp only [seqName, List.cons.injEq, true_and] at hchars
  exact paddedTo_injective 8 (List.append_cancel_right hchars)

theorem createName_ne_mkdirName (i j : Nat) : createName i ≠ mkdirName j := by
  intro h
  have hchars := congrArg EntryName.chars h
  simp [createName, mkdirName, seqName] at hchars

/-- `MetadataRunError`, as far as `run_task` returns it. -/
inductive LayoutRunError where
  | io (op : MetadataOp) (path : List Char) (source : Errno)
  | emptyLayout (kind : String)
  deriving DecidableEq, Repr

structure LayoutSeqs where
  create : Nat
  mkdir : Nat
  deriving DecidableEq, Repr

/-- What is picked of a list at random is one of its members; of an empty list nothing can
be picked, and then the index says nothing. -/
def pick {α : Type} (list : List α) (idx : Nat) : Option (Option α) :=
  match list with
  | [] => some none
  | _ :: _ => list[idx]?.map some

structure Operated where
  tree : FileTree EntryName
  seqs : LayoutSeqs
  outcome : Except LayoutRunError Unit

section

variable (order : List Char → HashOrder EntryName) (layout : Layout)

def drainReaddir (tree : FileTree EntryName) (path : List Char) : Except Errno Unit :=
  (tree.readDir (order path) (pathComps path)).map fun _ => ()

def operateOn (tree : FileTree EntryName) (seqs : LayoutSeqs) (op : MetadataOp)
    (call : List Char → Except Errno Unit) (paths : List (List Char)) (idx : Nat) :
    Option Operated :=
  (pick paths idx).map fun
    | none => ⟨tree, seqs, .error (.emptyLayout "paths")⟩
    | some target => ⟨tree, seqs, (call target).mapError (.io op target)⟩

def operateNew (tree : FileTree EntryName) (seqs : LayoutSeqs) (op : MetadataOp)
    (call : List Char → Except Errno (FileTree EntryName)) (target : List Char) : Operated :=
  match call target with
  | .ok tree => ⟨tree, seqs, .ok ()⟩
  | .error e => ⟨tree, seqs, .error (.io op target e)⟩

/-- `none` where the index is none of the list that the operation picks from. -/
def operate (tree : FileTree EntryName) (taskRoot : List Char) (seqs : LayoutSeqs)
    (op : MetadataOp) (idx : Nat) : Option Operated :=
  match op with
  | .stat => operateOn tree seqs op
      (fun target => (tree.metadata (pathComps target)).map fun _ => ()) layout.files idx
  | .open => operateOn tree seqs op (fun target => tree.openFile (pathComps target))
      layout.files idx
  | .readdir => operateOn tree seqs op (drainReaddir order tree) layout.directories idx
  | .create =>
      let seqs := { seqs with create := seqs.create + 1 }
      some (operateNew tree seqs op (fun target => tree.createFile (pathComps target))
        (joinPath taskRoot (createName seqs.create).chars))
  | .mkdir =>
      let seqs := { seqs with mkdir := seqs.mkdir + 1 }
      some (operateNew tree seqs op (fun target => tree.createDir (pathComps target))
        (joinPath taskRoot (mkdirName seqs.mkdir).chars))

end

/-- The tasks on the clock, the tree, and of each task its counters and the error that it
has returned. -/
structure LayoutRun (H : Type) where
  timed : Measured H
  tree : FileTree EntryName
  seqs : List LayoutSeqs
  errors : List (Option LayoutRunError)

inductive LayoutAct where
  | elapse (d : Nat)
  | abort
  | cancel
  | run (i : Nat)
  | choose (i idx : Nat)
  | operate (i idx : Nat)
  deriving DecidableEq, Repr

def Operated.act (res : Operated) : TimedAct :=
  match res.outcome with
  | .ok () => .op (some (.ok ()))
  | .error (.io ..) => .op (some (.error "io"))
  | .error (.emptyLayout _) => .op none

def Operated.error? (res : Operated) : Option LayoutRunError :=
  match res.outcome with
  | .ok () => none
  | .error e => some e

namespace LayoutRun

section

variable {H : Type} (cfg : MeasureCfg) (lib : HdrRecorder H) (fresh : PerOpMetrics H)
  (order : List Char → HashOrder EntryName) (config : MetadataConfig) (layout : Layout)

def tick (s : LayoutRun H) (a : MeasureAct) : Option (LayoutRun H × Option OpRecord) :=
  (s.timed.step cfg lib fresh a).map fun res => ({ s with timed := res.1 }, res.2)

def stopped (s : LayoutRun H) : Bool := s.timed.abort || s.timed.cancelled

/-- A task returns an error before its first operation, or between two of them. -/
def giveUp (s : LayoutRun H) (i : Nat) (kind : String) : LayoutRun H :=
  { s with
    timed := { s.timed with tasks := s.timed.tasks.set i .finished }
    errors := s.errors.set i (some (.emptyLayout kind)) }

def operation? : TimedTask → Option MetadataOp
  | .layout (.operate op _ _) => some op
  | _ => none

def step (s : LayoutRun H) : LayoutAct → Option (LayoutRun H × Option OpRecord)
  | .elapse d => s.tick cfg lib fresh (.elapse d)
  | .abort => s.tick cfg lib fresh .abort
  | .cancel => s.tick cfg lib fresh .cancel
  | .run i => match s.timed.tasks[i]?, layout.taskRoots[i]? with
      | some (.spawned _), none => some (s.giveUp i "task_roots", none)
      | _, _ => s.tick cfg lib fresh (.task i .run)
  | .choose i idx => do
      let op ← pick config.ops idx
      if s.timed.tasks[i]? = some (.layout .top) ∧ cfg.quits s.timed.now s.stopped = false ∧
          op = none then
        return (s.giveUp i "ops", none)
      else s.tick cfg lib fresh (.task i (.chosen op))
  | .operate i idx => do
      let task ← s.timed.tasks[i]?
      let op ← operation? task
      let taskRoot ← layout.taskRoots[i]?
      let seqs ← s.seqs[i]?
      let res ← Worker.operate order layout s.tree taskRoot seqs op idx
      let (timed, rec) ← s.timed.step cfg lib fresh (.task i res.act)
      return (⟨timed, res.tree, s.seqs.set i res.seqs, s.errors.set i res.error?⟩, rec)

end

end LayoutRun

section

variable {H : Type} (cfg : MeasureCfg) (lib : HdrRecorder H) (fresh : PerOpMetrics H)
  (order : List Char → HashOrder EntryName) (config : MetadataConfig) (layout : Layout)

/-- `run_with_layout`, started at `start` on a tree. -/
def layoutRunning (start : Nat) (tree : FileTree EntryName) :
    Machine (LayoutRun H) LayoutAct (Option OpRecord) where
  init := ⟨(measuring cfg lib fresh start (List.replicate config.concurrency .layout)).init, tree,
    List.replicate config.concurrency ⟨0, 0⟩, List.replicate config.concurrency none⟩
  step := LayoutRun.step cfg lib fresh order config layout

/-- What the call returns when all tasks are joined: the first error in their order. -/
def layoutResult (s : LayoutRun H) : Option (Except LayoutRunError Unit) :=
  if ∀ task ∈ s.timed.tasks, task = .finished then
    some (match s.errors.findSome? id with
      | some e => .error e
      | none => .ok ())
  else none

end

end CvdBench.Worker
