import CvdBench.Foundation.Machine
import CvdBench.Worker.RateLimit

/-!
The tasks of one workload of a worker, as far as they ask for tokens: `run_task` of write
and of the metadata layout, `io_task`, `stat_task`. Each makes a bucket of its own when it
starts, and asks for as many bytes as it writes or has read, or for one operation.
-/

set_option autoImplicit false

namespace CvdBench.Worker

open Foundation Spec

inductive Workload where
  | write
  | read
  | layout
  | manifestStat
  deriving DecidableEq, Repr

namespace Workload

def limit : Workload → Nat → RateLimit
  | write, rate | read, rate => .throughput rate
  | layout, rate | manifestStat, rate => .iops rate

def makeBucket : Workload → Option RateLimit → ℚ → Option TokenBucket
  | write | read => makeThroughputBucket
  | layout | manifestStat => makeIopsBucket

/-- The amounts that its tasks acquire: the size of a file, the length of a chunk. -/
def acquires : Workload → Nat → Bool
  | write, n | read, n => 0 < n && n ≤ u64Max
  | layout, n | manifestStat, n => n == 1

end Workload

inductive PacedTask where
  | spawned
  | running (bucket : Option TokenBucket)
  | asleep (bucket : TokenBucket) (n : Nat) (wakeAt : ℚ)
  deriving DecidableEq

structure Paced where
  now : ℚ
  tasks : List PacedTask
  deriving DecidableEq

inductive PaceAct where
  | elapse (dt : ℚ)
  | start (i : Nat)
  | acquire (i n : Nat)
  | wake (i : Nat)
  deriving DecidableEq

namespace Paced

def attempt (s : Paced) (i : Nat) (b : TokenBucket) (n : Nat) : Paced × Option Nat :=
  match b.attempt n s.now with
  | (b, none) => ({ s with tasks := s.tasks.set i (.running (some b)) }, some n)
  | (b, some wait) => ({ s with tasks := s.tasks.set i (.asleep b n (s.now + wait)) }, none)

def step (w : Workload) (rate : Option RateLimit) (s : Paced) :
    PaceAct → Option (Paced × Option Nat)
  | .elapse dt => if 0 ≤ dt then some ({ s with now := s.now + dt }, none) else none
  | .start i => match s.tasks[i]? with
    | some .spawned =>
        some ({ s with tasks := s.tasks.set i (.running (w.makeBucket rate s.now)) }, none)
    | _ => none
  | .acquire i n => match s.tasks[i]? with
    | some (.running bucket) =>
        if w.acquires n then
          match bucket with
          | none => some (s, some n)
          | some b => some (s.attempt i b n)
        else none
    | _ => none
  | .wake i => match s.tasks[i]? with
    | some (.asleep b n wakeAt) => if wakeAt ≤ s.now then some (s.attempt i b n) else none
    | _ => none

end Paced

def pacing (w : Workload) (rate : Option RateLimit) (concurrency : Nat) :
    Machine Paced PaceAct (Option Nat) :=
  ⟨⟨0, List.replicate concurrency .spawned⟩, Paced.step w rate⟩

abbrev PaceStep := Event Paced PaceAct (Option Nat)

def grants (a b : ℚ) (tr : List PaceStep) : List Nat :=
  tr.filterMap fun e => if a ≤ e.pre.now ∧ e.pre.now ≤ b then e.out else none

/-- In every window the tokens granted come to the rate and a burst of one second, and one
oversized request at most. -/
def WithinRate (rate : Nat) (tr : List PaceStep) : Prop :=
  ∀ a b : ℚ, a ≤ b → ∃ excess : Nat, (excess = 0 ∨ (rate < excess ∧ excess ∈ grants a b tr)) ∧
    ((grants a b tr).sum : ℚ) ≤ rate * (b - a) + rate + excess

theorem grants_append (a b : ℚ) (tr tr' : List PaceStep) :
    grants a b (tr ++ tr') = grants a b tr ++ grants a b tr' := List.filterMap_append

theorem grants_cons_of_none {a b : ℚ} {e : PaceStep} (h : e.out = none) (tr : List PaceStep) :
    grants a b (e :: tr) = grants a b tr := by
  simp [grants, h]

theorem grants_cons_of_some {a b : ℚ} {e : PaceStep} {n : Nat} (h : e.out = some n)
    (ha : a ≤ e.pre.now) (hb : e.pre.now ≤ b) (tr : List PaceStep) :
    grants a b (e :: tr) = n :: grants a b tr := by
  simp [grants, h, ha, hb]

theorem grants_cons_of_early {a b : ℚ} {e : PaceStep} (ha : e.pre.now < a) (tr : List PaceStep) :
    grants a b (e :: tr) = grants a b tr := by
  simp [grants, not_le.mpr ha]

theorem grants_cons_of_late {a b : ℚ} {e : PaceStep} (hb : b < e.pre.now) (tr : List PaceStep) :
    grants a b (e :: tr) = grants a b tr := by
  simp [grants, not_le.mpr hb]

end CvdBench.Worker
