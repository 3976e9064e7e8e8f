import CvdBench.Worker.Consistency
import CvdBench.Worker.JobSpec
import CvdBench.Worker.WorkRoot

/-!
What a worker does with an assigned job before it reports ready (`lifecycle.rs`): it takes
the assignment apart, and makes what the workloads need.
-/

set_option autoImplicit false

namespace CvdBench.Worker

open Proto

/-- What FetchJob handed out, once it has been parsed and validated. -/
structure AssignedJob where
  workerId : String
  jobId : String
  mountPoint : String
  spec : Spec.BenchSpec
  consistencyCheck : Option ConsistencyConfig
  s3Credentials : Option S3CredentialMaterial

inductive Assignment where
  /-- without a job id -/
  | ignored
  | refused
  | accepted (job : AssignedJob)

def assignment (workerId : String) (resp : FetchJobResponse) : Assignment :=
  match resp.jobId with
  | none => .ignored
  | some jobId =>
      let mountPoint := resp.mountPoint.getD ""
      if mountPoint.isEmpty then .refused
      else match parseAndValidate resp.spec with
        | .error _ => .refused
        | .ok spec => .accepted
            { workerId, jobId, mountPoint, spec
              consistencyCheck := (resp.spec.bind (·.read)).bind (·.s3ConsistencyCheck)
              s3Credentials := resp.s3Credentials }

namespace AssignedJob

variable (job : AssignedJob)

def rootIn (dir : String) : List Char := workRoot job.mountPoint dir job.workerId job.jobId

def writeRoot? : Option (List Char) := job.spec.write.map fun write => job.rootIn write.dir

end AssignedJob

/-- How `build` ends: without a root, with an error below the root, or with the work set. -/
inductive BuildResult where
  | mkdirRoot (err : String)
  | below (err : String)
  | built

/-- What the calls of the preflight give, errors with the text that is reported. -/
structure PreflightCalls where
  mkdirWriteRoot : Except String Unit
  scanExisting : Except String Unit
  build : BuildResult
  buildClient : Except String ConsistencyClient

structure Preflight where
  writeRoot : Option (List Char)
  metadataLayout : Option (List Char)
  consistency : Option ConsistencyClient
  deriving DecidableEq, Repr

/-- The directories that a step of the preflight made, and what it gives. -/
abbrev Made (α : Type) := List (List Char) × Except String α

def Made.andThen {α β : Type} (x : Made α) (f : α → Made β) : Made β :=
  match x.2 with
  | .error err => (x.1, .error err)
  | .ok a => (x.1 ++ (f a).1, (f a).2)

namespace AssignedJob

variable (job : AssignedJob) (calls : PreflightCalls)

def makeWriteRoot : Made (Option (List Char)) :=
  match job.writeRoot? with
  | none => ([], .ok none)
  | some root => match calls.mkdirWriteRoot with
    | .error err => ([], .error err)
    | .ok () => ([root], .ok (some root))

/-- `metadata_prebuild::build` -/
def buildMetadata (dir : String) : Made (Option (List Char)) :=
  match calls.build with
  | .mkdirRoot err => ([], .error err)
  | .below err => ([job.rootIn dir], .error err)
  | .built => ([job.rootIn dir], .ok (some (job.rootIn dir)))

/-- The work set is built, or the tree that is there is scanned. -/
def makeMetadata (md : Spec.MetadataConfig) : Made (Option (List Char)) :=
  if md.readOnly then
    ([], calls.scanExisting.map fun _ =>
      some (joinPath job.mountPoint.toList md.dir.toList))
  else job.buildMetadata calls md.dir

def makeConsistency : Except String (Option ConsistencyClient) :=
  if (job.spec.read.bind (·.s3ConsistencyCheck)).isNone then .ok none
  else match job.consistencyCheck, job.s3Credentials with
    | none, _ => .error "consistency enabled but proto config missing"
    | some _, none => .error "consistency check enabled but s3_credentials missing"
    | some _, some _ => calls.buildClient.map some

/-- `run_preflight`. With a `dir_manifest` for the metadata workload it ends early. -/
def runPreflight : Made Preflight :=
  (job.makeWriteRoot calls).andThen fun writeRoot =>
    match job.spec.metadata with
    | none => ([], (job.makeConsistency calls).map (⟨writeRoot, none, ·⟩))
    | some md =>
        if md.dirManifest.isSome then ([], .ok ⟨writeRoot, none, none⟩)
        else (job.makeMetadata calls md).andThen fun layout =>
          ([], (job.makeConsistency calls).map (⟨writeRoot, layout, ·⟩))

def prebuiltRoot? : Option (List Char) :=
  job.spec.metadata.bind fun md =>
    if md.readOnly || md.dirManifest.isSome then none else some (job.rootIn md.dir)

def cleanedWriteRoot? : Option (List Char) :=
  job.spec.write.bind fun write => if write.cleanup then some (job.rootIn write.dir) else none

/-- The roots that are to be gone when the worker goes back to polling. -/
def disposable : List (List Char) := job.prebuiltRoot?.toList ++ job.cleanedWriteRoot?.toList

end AssignedJob

inductive RunnerOutcome where
  | ok
  | failed (error : String)
  | cancelled
  | notImplemented
  deriving DecidableEq, Repr

/-- `success` and `error` of the result that the worker reports. -/
def RunnerOutcome.result (wasCancelled : Bool) (outcome : RunnerOutcome) : Bool × Option String :=
  let (success, error) := match outcome with
    | .ok => (true, none)
    | .failed error => (false, some error)
    | .cancelled => (true, some "cancelled")
    | .notImplemented => (true, none)
  (success, if wasCancelled && success && error.isNone then some "cancelled" else error)

end CvdBench.Worker
