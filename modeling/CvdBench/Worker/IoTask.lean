import CvdBench.Spec.PathSafe
import CvdBench.Worker.Consistency
import CvdBench.Worker.ReadStream
import CvdBench.Worker.Runner

/-!
What the tasks of the two manifest workloads do with one entry: an `io_task` reads the file
through the stream of its producer, a `stat_task` calls stat.
-/

set_option autoImplicit false

namespace CvdBench.Worker

open Proto

/-- `Path::join` -/
def joinPath (mount fsPath : List Char) : List Char :=
  if fsPath.head? = some '/' then fsPath
  else if mount = [] ∨ mount.getLast? = some '/' then mount ++ fsPath
  else mount ++ '/' :: fsPath

def pathComponents (path : List Char) : List (List Char) :=
  (if path.head? = some '/' then [['/']] else []) ++
    (Spec.splitSlash path).filter fun seg => seg ≠ [] ∧ seg ≠ ['.']

/-- `Path::starts_with` -/
def pathStartsWith (path mount : List Char) : Bool :=
  (pathComponents mount).isPrefixOf (pathComponents path)

def absPath (mountPoint : String) (entry : FileEntry) : Except String String :=
  let path := joinPath mountPoint.toList entry.fsPath.toList
  if pathStartsWith path mountPoint.toList then .ok (String.ofList path)
  else .error (String.ofList path)

inductive ReadRunError where
  | io (op path source : String)
  | pathEscape (mount path : String)
  | consistency (path message : String)
  deriving DecidableEq, Repr

structure ReadContext where
  mountPoint : String
  directIo : Bool
  consistency : Bool

def ReadStreamPhase.op : ReadStreamPhase → String
  | .opening => "read.open"
  | .read => "read"
  | .close => "read.close"

/-- `read_file_recording_blocks` and its producer. -/
structure Reading where
  path : String
  file : FileRead
  stream : ReadStream
  seen : List ReadStreamItem
  hasher : Option StreamingHash
  deriving DecidableEq, Repr

inductive ReadState where
  | resolve
  /-- in `rx.recv()` -/
  | receive (r : Reading)
  | inspect (r : Reading) (item : ReadStreamItem)
  | close (r : Reading) (ioErr : Option ReadStreamError)
  /-- in `producer.await` -/
  | join (r : Reading) (ioErr : Option ReadStreamError)
  | checkFlags (r : Reading)
  /-- in `client.check` -/
  | check (r : Reading) (hash : StreamingHash)
  deriving DecidableEq, Repr

inductive ReadAct where
  /-- the producer is spawned for a file of which the system makes `file` -/
  | openFile (file : FileRead)
  | run
  | producer
  | blocker
  | checked (res : Except ConsistencyError Nat)

structure ReadReport where
  file : FileRead
  seen : List ReadStreamItem
  checked : Option StreamingHash
  deriving DecidableEq, Repr

def StreamingHash.feed (h : StreamingHash) : ReadStreamItem → StreamingHash
  | .ok (.chunk bytes) => h.update bytes
  | _ => h

def Reading.start (ctx : ReadContext) (path : String) (file : FileRead) : Reading :=
  ⟨path, file, .spawn ctx.directIo file, [], if ctx.consistency then some .new else none⟩

def Reading.handle (r : Reading) (item : ReadStreamItem) : Reading :=
  { r with hasher := r.hasher.map (·.feed item) }

def ReadState.setStream (stream : ReadStream) : ReadState → ReadState
  | .receive r => .receive { r with stream }
  | .inspect r item => .inspect { r with stream } item
  | .close r ioErr => .close { r with stream } ioErr
  | .join r ioErr => .join { r with stream } ioErr
  | st => st

def ReadState.stream? : ReadState → Option ReadStream
  | .receive r | .inspect r _ | .close r _ | .join r _ => some r.stream
  | _ => none

abbrev ReadItemStep := ItemStep ReadState ReadRunError ReadReport

def ReadState.stepTask (ctx : ReadContext) (stop : Bool) (entry : FileEntry) :
    ReadState → ReadAct → Option ReadItemStep
  | .resolve, .openFile file => match absPath ctx.mountPoint entry with
    | .error path => some (.fail (.pathEscape ctx.mountPoint path))
    | .ok path => some (.more (.receive (.start ctx path file)))
  | .receive r, .run => match r.stream.chan with
    | item :: chan =>
        some (.more (.inspect
          { r with stream := { r.stream with chan }, seen := r.seen ++ [item] } item))
    | [] => if r.stream.producer = .done then some (.more (.close r none)) else none
  | .inspect r item, .run =>
      if stop then some (.more (.close r none))
      else match item with
        | .error err => some (.more (.close r (some err)))
        | .ok event => some (.more (.receive (r.handle (.ok event))))
  | .close r ioErr, .run => some (.more (.join { r with stream := r.stream.close } ioErr))
  | .join r ioErr, .run =>
      if r.stream.producer = .done then
        match ioErr with
        | some err => some (.fail (.io err.phase.op r.path err.source))
        | none => some (.more (.checkFlags r))
      else none
  | .checkFlags r, .run =>
      if stop then some .leave
      else match r.hasher with
        | none => some (.done ⟨r.file, r.seen, none⟩)
        | some hash => some (.more (.check r hash))
  | .check r hash, .checked (.ok _) => some (.done ⟨r.file, r.seen, some hash⟩)
  | .check r _, .checked (.error err) => some (.fail (.consistency r.path err.message))
  | _, _ => none

def ReadState.step (ctx : ReadContext) (stop : Bool) (entry : FileEntry) (st : ReadState) :
    ReadAct → Option ReadItemStep
  | .producer => do
      let stream ← st.stream?
      let stream' ← stream.stepProducer
      return .more (st.setStream stream')
  | .blocker => do
      let stream ← st.stream?
      let stream' ← stream.stepBlocker
      return .more (st.setStream stream')
  | act => st.stepTask ctx stop entry act

/-- `io_task` -/
def readTask (ctx : ReadContext) : ItemTask ReadState ReadAct ReadRunError ReadReport :=
  ⟨fun _ => .resolve, ReadState.step ctx⟩

inductive MetadataRunError where
  | io (path source : String)
  | pathEscape (mount path : String)
  deriving DecidableEq, Repr

/-- `fs::metadata` returns. -/
inductive StatAct where
  | stat (res : Except String Unit)

/-- `stat_task` -/
def statTask (mountPoint : String) : ItemTask Unit StatAct MetadataRunError Unit where
  start _ := ()
  step _ entry _ act := match absPath mountPoint entry, act with
    | .error path, _ => some (.fail (.pathEscape mountPoint path))
    | .ok _, .stat (.ok ()) => some (.done ())
    | .ok path, .stat (.error source) => some (.fail (.io path source))

end CvdBench.Worker
