import CvdBench.Manifest.DirFs
import CvdBench.Manifest.Reader

/-!
One pass of the directory scan (`manifest/dir_scan.rs`): the reader of the manifest, the
scanners, and `single_pass`, which joins them. A step is what a task does up to its next
access to something shared; a wake-up of `Notify` is a step of its own.
-/

set_option autoImplicit false

namespace CvdBench.Manifest

open Foundation Foundation.Text Proto Master

structure DirWorkQueue where
  dirs : List Path
  readerDone : Bool
  pendingDirs : Nat
  closed : Bool
  /-- the permit that `notify_one` stores when no task waits -/
  permit : Bool
  deriving DecidableEq, Repr

/-- What the task does to `Notify` once it has released the lock. -/
inductive Signal where
  | silent | one | all
  deriving DecidableEq, Repr

inductive Popped where
  | done
  | dir (rel : Path)
  | wait

namespace DirWorkQueue

def new : DirWorkQueue := ⟨[], false, 0, false, false⟩

def push (q : DirWorkQueue) (dir : Path) : Option DirWorkQueue :=
  if q.closed then none
  else some { q with dirs := q.dirs ++ [dir], pendingDirs := q.pendingDirs + 1 }

def pop (q : DirWorkQueue) : DirWorkQueue × Popped :=
  if q.closed then (q, .done)
  else match q.dirs with
    | dir :: dirs => ({ q with dirs }, .dir dir)
    | [] => if q.readerDone && q.pendingDirs == 0 then (q, .done) else (q, .wait)

/-- The truncated subtraction is `saturating_sub`. -/
def finishDir (q : DirWorkQueue) : DirWorkQueue × Bool :=
  let q := { q with pendingDirs := q.pendingDirs - 1 }
  (q, q.readerDone && q.pendingDirs == 0)

def markReaderDone (q : DirWorkQueue) : DirWorkQueue × Bool :=
  let q := { q with readerDone := true }
  (q, q.pendingDirs == 0 || q.dirs.isEmpty)

def close (q : DirWorkQueue) : DirWorkQueue := { q with closed := true }

end DirWorkQueue

/-- What the scan is about. -/
structure ScanEnv where
  fs : DirFs
  /-- the text of the `dir_manifest` -/
  content : String

variable (env : ScanEnv)

inductive DirReader where
  | opening
  | lines (lineno : Nat) (rest : List (List Char))
  | push (lineno : Nat) (dir : Path) (rest : List (List Char))
  | notify (lineno : Nat) (rest : List (List Char))
  | markDone
  | wake
  | close
  | closeWake
  | finished (res : Except DirScanError Unit)

/-- `fault` is the error with which opening or reading the manifest fails. -/
def DirReader.step (cancel : Bool) (q : DirWorkQueue) (fault : Option String) :
    DirReader → Option (DirReader × DirWorkQueue × Signal)
  | .opening => match fault with
    | some source => some (.finished (.error (.io source)), q, .silent)
    | none => some (.lines 1 (Text.lines env.content.toList), q, .silent)
  | .lines _ [] => some (.markDone, q, .silent)
  | .lines lineno (line :: rest) =>
      if cancel then some (.close, q, .silent)
      else match dirLine line with
        | .skip => some (.lines (lineno + 1) rest, q, .silent)
        | .invalid source => some (.finished (.error (.pathSafe lineno source)), q, .silent)
        | .dir rel => some (.push lineno rel rest, q, .silent)
  | .push lineno dir rest => match q.push dir with
    | none => some (.finished (.error .queueClosed), q, .silent)
    | some q => some (.notify lineno rest, q, .silent)
  | .notify lineno rest => some (.lines (lineno + 1) rest, q, .one)
  | .markDone => match q.markReaderDone with
    | (q, true) => some (.wake, q, .silent)
    | (q, false) => some (.finished (.ok ()), q, .silent)
  | .wake => some (.finished (.ok ()), q, .all)
  | .close => some (.closeWake, q.close, .silent)
  | .closeWake => some (.finished (.ok ()), q, .all)
  | .finished _ => none

inductive Scanner where
  | top
  | popTop
  | popLock
  /-- holds a `Notified` it has not polled; `notify_waiters` has signalled it or not -/
  | await (signalled : Bool)
  /-- waits in `Notify` -/
  | parked
  | scan (dir : Path)
  | entries (dir : Path) (rest : List DirEntry)
  | pushFile (dir : Path) (rest : List DirEntry) (file : FileEntry)
  | pushFileHeld (dir : Path) (rest : List DirEntry) (file : FileEntry)
  | countFile (dir : Path) (rest : List DirEntry)
  | pushDir (dir : Path) (rest : List DirEntry) (sub : Path)
  | pushDirNotify (dir : Path) (rest : List DirEntry)
  | finishDir (res : Except DirScanError Unit)
  | finishWake (res : Except DirScanError Unit)
  | countDir
  | finished (res : Except DirScanError Unit)

inductive ScanFault where
  | readDir (source : String)
  | metadata (name : String) (source : String)
  | join (source : String)

inductive ScannerAct where
  | run
  | fault (f : ScanFault)
  | refused

/-- `run_scanner` after `finish_dir`. -/
def Scanner.afterDir : Except DirScanError Unit → Scanner
  | .ok () => .countDir
  | .error e => .finished (.error e)

def ScanFault.error (abs : Path) : ScanFault → DirScanError
  | .readDir source => .readDir abs source
  | .metadata name source => .metadata (abs ++ [name]) source
  | .join source => .join source

/-- One entry of a directory: a symlink or a special file is passed over. -/
def Scanner.entry (dir : Path) (rest : List DirEntry) (e : DirEntry) : Scanner :=
  match e.2 with
  | .symlink | .other => .entries dir rest
  | .file => match env.fs.fileEntry dir e.1 with
    | .error e => .finishDir (.error e)
    | .ok file => .pushFile dir rest file
  | .dir => match env.fs.subdir dir e.1 with
    | .error e => .finishDir (.error e)
    | .ok sub => .pushDir dir rest sub

def Scanner.step (cancel : Bool) (q : DirWorkQueue) (act : ScannerAct) :
    Scanner → Option (Scanner × DirWorkQueue × Signal × CellStep)
  | .top => some (if cancel then .finished (.ok ()) else .popTop, q, .silent, .local)
  | .popTop => some (if cancel then .finished (.ok ()) else .popLock, q, .silent, .local)
  | .popLock => match q.pop with
    | (q, .done) => some (.finished (.ok ()), q, .silent, .local)
    | (q, .dir rel) => some (.scan rel, q, .silent, .local)
    | (q, .wait) => some (.await false, q, .silent, .local)
  | .await signalled =>
      if q.permit then some (.popTop, { q with permit := false }, .silent, .local)
      else some (if signalled then .popTop else .parked, q, .silent, .local)
  | .parked => none
  | .scan dir =>
      let abs := env.fs.mountPoint ++ dir
      if cancel then some (.finishDir (.ok ()), q, .silent, .local)
      else match act with
        | .fault (.readDir source) =>
            some (.finishDir (.error (.readDir abs source)), q, .silent, .local)
        | .run => match env.fs.readDir abs with
          | none => some (.finishDir (.error (.readDir abs "open")), q, .silent, .local)
          | some es => some (.entries dir es, q, .silent, .local)
        | _ => none
  | .entries dir rest =>
      if cancel then some (.finishDir (.ok ()), q, .silent, .local)
      else match act with
        | .fault f =>
            some (.finishDir (.error (f.error (env.fs.mountPoint ++ dir))), q, .silent, .local)
        | .run => match rest with
          | [] => some (.finishDir (.ok ()), q, .silent, .local)
          | e :: rest => some (Scanner.entry env dir rest e, q, .silent, .local)
        | .refused => none
  | .pushFile dir rest file => match act with
    | .run => some (.pushFileHeld dir rest file, q, .silent, .act .acquire)
    | .refused => some (.finishDir (.error .queueClosed), q, .silent, .refused)
    | .fault _ => none
  | .pushFileHeld dir rest file =>
      some (.countFile dir rest, q, .silent, .act (.pushBack file))
  | .countFile dir rest => some (.entries dir rest, q, .silent, .act (.addStats 0 1 0))
  | .pushDir dir rest sub => match q.push sub with
    | none => some (.finishDir (.error .queueClosed), q, .silent, .local)
    | some q => some (.pushDirNotify dir rest, q, .silent, .local)
  | .pushDirNotify dir rest => some (.entries dir rest, q, .one, .local)
  | .finishDir res => match q.finishDir with
    | (q, true) => some (.finishWake res, q, .silent, .local)
    | (q, false) => some (Scanner.afterDir res, q, .silent, .local)
  | .finishWake res => some (Scanner.afterDir res, q, .all, .local)
  | .countDir => some (.top, q, .silent, .act (.addStats 1 0 0))
  | .finished _ => none

inductive PassMain where
  | joinReader
  | close (k : Nat) (err : DirScanError)
  | closeWake (k : Nat) (err : DirScanError)
  | join (k : Nat) (firstErr : Option DirScanError)
  | setCancel (k : Nat) (err : DirScanError)
  | addElapsed (firstErr : Option DirScanError)
  | returned (res : Except DirScanError Unit)

structure DirPass where
  main : PassMain
  queue : DirWorkQueue
  reader : DirReader
  scanners : List Scanner

inductive PassAct where
  /-- `pick` is the waiter that `notify_one` wakes -/
  | reader (pick : Nat)
  | readerFault (source : String)
  | scanner (i : Nat) (act : ScannerAct) (pick : Nat)
  | main (elapsedMs : Int)

namespace DirPass

def init (scanConcurrency : Nat) : DirPass :=
  ⟨.joinReader, .new, .opening, List.replicate (max scanConcurrency 1) .top⟩

def isParked : Scanner → Bool
  | .parked => true
  | _ => false

/-- `notify_one`: one waiter goes on, or the permit is stored. -/
def notifyOne (p : DirPass) (pick : Nat) : Option DirPass :=
  if p.scanners.any isParked then
    match p.scanners[pick]? with
    | some .parked => some { p with scanners := p.scanners.set pick .popTop }
    | _ => none
  else some { p with queue := { p.queue with permit := true } }

def wakeUp : Scanner → Scanner
  | .parked => .popTop
  | .await _ => .await true
  | s => s

/-- `notify_waiters`: every `Notified` that exists is signalled. -/
def notifyWaiters (p : DirPass) : DirPass := { p with scanners := p.scanners.map wakeUp }

def signal (p : DirPass) (pick : Nat) : Signal → Option DirPass
  | .silent => some p
  | .one => p.notifyOne pick
  | .all => some p.notifyWaiters

def readerStep (cancel : Bool) (p : DirPass) (fault : Option String) (pick : Nat) :
    Option (DirPass × CellStep) := do
  let (reader, queue, sig) ← p.reader.step env cancel p.queue fault
  let p ← ({ p with reader, queue }).signal pick sig
  return (p, .local)

def scannerStep (cancel : Bool) (p : DirPass) (i : Nat) (act : ScannerAct) (pick : Nat) :
    Option (DirPass × CellStep) := do
  let s ← p.scanners[i]?
  let (s, queue, sig, c) ← s.step env cancel p.queue act
  let p ← ({ p with queue, scanners := p.scanners.set i s }).signal pick sig
  return (p, c)

/-- `single_pass` fails with the first error it met. -/
def result : Option DirScanError → Except DirScanError Unit
  | some err => .error err
  | none => .ok ()

def mainStep (p : DirPass) (elapsedMs : Int) : Option (DirPass × CellStep) :=
  match p.main with
  | .joinReader => match p.reader with
    | .finished (.ok ()) => some ({ p with main := .join 0 none }, .local)
    | .finished (.error err) => some ({ p with main := .close 0 err }, .local)
    | _ => none
  | .close k err => some ({ p with main := .closeWake k err, queue := p.queue.close }, .local)
  | .closeWake k err => some ({ p with main := .join k (some err) }.notifyWaiters, .local)
  | .join k firstErr => match p.scanners[k]? with
    | none => some ({ p with main := .addElapsed firstErr }, .local)
    | some (.finished (.ok ())) => some ({ p with main := .join (k + 1) firstErr }, .local)
    | some (.finished (.error err)) =>
        some ({ p with main := .setCancel k (firstErr.getD err) }, .local)
    | some _ => none
  | .setCancel k err => some ({ p with main := .close (k + 1) err }, .act .setCancel)
  | .addElapsed firstErr =>
      some ({ p with main := .returned (result firstErr) }, .act (.addStats 0 0 elapsedMs))
  | .returned _ => none

def step (cancel : Bool) (p : DirPass) : PassAct → Option (DirPass × CellStep)
  | .reader pick => p.readerStep env cancel none pick
  | .readerFault source => match p.reader with
    | .opening => p.readerStep env cancel (some source) 0
    | _ => none
  | .scanner i act pick => p.scannerStep env cancel i act pick
  | .main elapsedMs => p.mainStep elapsedMs

end DirPass

inductive Pipeline where
  | top
  | pass (p : DirPass)
  | passed
  | finished (res : Except DirScanError Unit)

inductive PipelineAct where
  | run
  | pass (act : PassAct)

def Pipeline.step (scanConcurrency : Nat) (loopFiles : Bool) (cancel : Bool) :
    Pipeline → PipelineAct → Option (Pipeline × CellStep)
  | .top, .run =>
      some (if cancel then .finished (.ok ()) else .pass (.init scanConcurrency), .local)
  | .pass p, .pass act => (p.step env cancel act).map fun res => (.pass res.1, res.2)
  | .pass p, .run => match p.main with
    | .returned (.ok ()) => some (.passed, .local)
    | .returned (.error err) => some (.finished (.error err), .local)
    | _ => none
  | .passed, .run =>
      if loopFiles then some (.top, .act (.setDone false))
      else some (.finished (.ok ()), .act (.setDone true))
  | _, _ => none

end CvdBench.Manifest
