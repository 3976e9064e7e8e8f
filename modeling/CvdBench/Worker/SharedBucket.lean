import CvdBench.Foundation.Machine
import CvdBench.Worker.RateLimit

/-!
One bucket and the calls of `acquire` on it. A round of a call is its critical section, at
the time that it reads there; the rounds of all the calls come one after the other.
-/

set_option autoImplicit false

namespace CvdBench.Worker

open Foundation

inductive AcquirePhase where
  | called
  | asleep (wakeAt : ℚ)
  | returned
  deriving DecidableEq

structure AcquireCall where
  n : Nat
  phase : AcquirePhase
  deriving DecidableEq

structure SharedBucket where
  bucket : TokenBucket
  now : ℚ
  calls : List AcquireCall
  deriving DecidableEq

/-- The next round of a call. -/
structure AcquireRound where
  call : Nat
  now : ℚ
  deriving DecidableEq

inductive RoundOutcome where
  | granted (tokens : Nat)
  | refused (wait : ℚ)
  deriving DecidableEq

namespace SharedBucket

def round (s : SharedBucket) (i n : Nat) (now : ℚ) : SharedBucket × RoundOutcome :=
  match s.bucket.attempt n now with
  | (b, none) => (⟨b, now, s.calls.set i ⟨n, .returned⟩⟩, .granted (max n 1))
  | (b, some wait) => (⟨b, now, s.calls.set i ⟨n, .asleep (now + wait)⟩⟩, .refused wait)

/-- Time does not run backwards between two rounds. Nothing else is asked of it: a round
that comes before the end of a sleep is a step too. -/
def step (s : SharedBucket) (act : AcquireRound) : Option (SharedBucket × RoundOutcome) :=
  if s.now ≤ act.now then
    match s.calls[act.call]? with
    | none => none
    | some call => match call.phase with
      | .returned => none
      | _ => some (s.round act.call call.n act.now)
  else none

end SharedBucket

def sharing (rate : Nat) (requests : List Nat) (start : ℚ) :
    Machine SharedBucket AcquireRound RoundOutcome :=
  ⟨⟨.new rate start, start, requests.map fun n => ⟨n, .called⟩⟩, SharedBucket.step⟩

abbrev BucketEvent := Event SharedBucket AcquireRound RoundOutcome

def RoundOutcome.tokens : RoundOutcome → Nat
  | .granted tokens => tokens
  | .refused _ => 0

def RoundOutcome.isGranted : RoundOutcome → Bool
  | .granted _ => true
  | .refused _ => false

def grantedIn (a b : ℚ) (tr : List BucketEvent) : Nat :=
  (tr.map fun e => if a ≤ e.act.now ∧ e.act.now ≤ b then e.out.tokens else 0).sum

def refusals (i : Nat) (tr : List BucketEvent) : Nat :=
  tr.countP fun e => e.act.call = i && !e.out.isGranted

/-- A call that sleeps until the end each time, as `tokio::time::sleep` makes it. -/
def SleepsOut (i : Nat) (tr : List BucketEvent) : Prop :=
  ∀ e ∈ tr, e.act.call = i → ∀ call wakeAt, e.pre.calls[i]? = some call →
    call.phase = .asleep wakeAt → wakeAt ≤ e.act.now

namespace SharedBucket

variable {s s' : SharedBucket} {act : AcquireRound} {out : RoundOutcome} {i : Nat}
  {call : AcquireCall}

def refill (s : SharedBucket) (now : ℚ) : TokenBucket :=
  { s.bucket with tokens := s.bucket.level now, lastRefill := now }

/-- What a round needs: for a request past the capacity a full bucket is enough. -/
def need (s : SharedBucket) (n : Nat) : ℚ := min ((max n 1 : Nat) : ℚ) s.bucket.capacity

theorem step_cases (h : s.step act = some (s', out)) :
    s.now ≤ act.now ∧ ∃ call, s.calls[act.call]? = some call ∧ call.phase ≠ .returned ∧
      ((s.need call.n ≤ s.bucket.level act.now ∧ out = .granted (max call.n 1) ∧
          s' = { bucket := { s.refill act.now with
                   tokens := s.bucket.level act.now - (max call.n 1 : Nat) }
                 now := act.now
                 calls := s.calls.set act.call ⟨call.n, .returned⟩ }) ∨
        ∃ wait, wait = (s.need call.n - s.bucket.level act.now) / s.bucket.ratePerSec ∧
          s.bucket.level act.now < s.need call.n ∧ out = .refused wait ∧
          s' = { bucket := s.refill act.now
                 now := act.now
                 calls := s.calls.set act.call ⟨call.n, .asleep (act.now + wait)⟩ }) := by
  unfold step at h
  split at h
  · next hnow =>
    refine ⟨hnow, ?_⟩
    split at h
    · cases h
    · next call hcall =>
      split at h
      · cases h
      · next hphase =>
        refine ⟨call, hcall, hphase, ?_⟩
        unfold round TokenBucket.attempt at h
        simp only at h
        split at h
        · next hattempt =>
          split at hattempt
          · next hroom =>
            cases hattempt
            cases h
            exact .inl ⟨hroom, rfl, rfl⟩
          · cases hattempt
        · next hattempt =>
          split at hattempt
          · cases hattempt
          · next hroom =>
            cases hattempt
            cases h
            exact .inr ⟨_, rfl, not_le.mp hroom, rfl, rfl⟩
  · cases h

theorem step_granted {now : ℚ} (hnow : s.now ≤ now) (hcall : s.calls[i]? = some call)
    (hphase : call.phase ≠ .returned) (hroom : s.need call.n ≤ s.bucket.level now) :
    ∃ s', s.step ⟨i, now⟩ = some (s', .granted (max call.n 1)) := by
  unfold need at hroom
  unfold step round TokenBucket.attempt
  simp only [hnow, if_true, hcall, hroom]
  cases hp : call.phase with
  | called => exact ⟨_, rfl⟩
  | asleep wakeAt => exact ⟨_, rfl⟩
  | returned => exact absurd hp hphase

end SharedBucket

end CvdBench.Worker
