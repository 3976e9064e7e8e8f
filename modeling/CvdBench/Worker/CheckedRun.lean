import CvdBench.Worker.ReadRun

/-!
A job whose read runner is at work in detail beside the others, with one abort and one
cancelled flag for all of them.
-/

set_option autoImplicit false

namespace CvdBench.Worker

open Foundation

structure ReadParams where
  text : ReadRunError → String
  ctx : ReadContext
  concurrency : Nat
  index : Nat

structure CheckedRun where
  job : MixedRun
  read : ReadRun

inductive CheckedAct where
  | job (act : MixedAct)
  | read (act : ReadRunAct)

/-- The flags are set from outside by steps of the job. -/
def ReadRunAct.ofWorld : ReadRunAct → Bool
  | .run .abort | .run .cancel => true
  | _ => false

def MixedAct.runner? : MixedAct → Option Nat
  | .runner k _ => some k
  | _ => none

namespace CheckedRun

def step (P : ReadParams) (s : CheckedRun) : CheckedAct → Option (CheckedRun × Unit)
  | .job act =>
      if act.runner? = some P.index then none
      else (s.job.step act).map fun res =>
        ({ job := res.1
           read := { s.read with
            runner := { s.read.runner with
              abort := res.1.abort
              cancelled := res.1.cancelled } } }, ())
  | .read act =>
      if act.ofWorld then none
      else do
        let r ← s.job.runners[P.index]?
        let read ← s.read.step P.ctx P.concurrency act
        return ({ read
                  job := { s.job with
                    runners := s.job.runners.set P.index
                      { r with crew := read.crew P.text P.concurrency }
                    abort := read.runner.abort
                    cancelled := read.runner.cancelled } }, ())

end CheckedRun

def AssignedJob.readContext (job : AssignedJob) (preflight : Preflight) : ReadContext where
  mountPoint := job.mountPoint
  directIo := job.spec.directIo
  consistency := preflight.consistency.isSome

def readParams (text : ReadRunError → String) (ctx : ReadContext) (spec : Spec.BenchSpec) :
    ReadParams where
  text
  ctx
  concurrency := (spec.read.map (·.concurrency)).getD 0
  index := spec.write.toList.length + spec.metadata.toList.length

def checkedRun (text : ReadRunError → String) (ctx : ReadContext) (spec : Spec.BenchSpec) :
    Machine CheckedRun CheckedAct Unit :=
  ⟨⟨.start spec, .init⟩, CheckedRun.step (readParams text ctx spec)⟩

abbrev CheckedTrace := List (Event CheckedRun CheckedAct Unit)

end CvdBench.Worker
