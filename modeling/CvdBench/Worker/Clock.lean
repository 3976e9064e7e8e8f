import CvdBench.Foundation.Int64
import CvdBench.Spec.Parse

/-!
The clock of the master as a worker knows it (`MasterClockOffset`), and the times of a job on
it.
-/

set_option autoImplicit false

namespace CvdBench.Worker

open Foundation Spec

/-- In nanoseconds from the earliest instant that can be represented. -/
abbrev Instant := Nat

/-- The latest one: the seconds are an `i64`. -/
def instantMax : Instant := 2^64 * 10^9 - 1

/-- `+` of an instant and a duration; `none` stands for its panic. -/
def Instant.add (t : Instant) (d : Duration) : Option Instant :=
  if t + d ≤ instantMax then some (t + d) else none

def Instant.checkedSub (t : Instant) (d : Duration) : Option Instant :=
  if d ≤ t then some (t - d) else none

def Instant.saturatingDurationSince (t earlier : Instant) : Duration := t - earlier

/-- `i64::try_from(n).unwrap_or(default)` -/
def i64TryFromOr (default : Int) (n : Nat) : Int := if (n : Int) ≤ i64Max then n else default

structure MasterClockOffset where
  localAnchor : Instant
  masterAnchorMs : Int
  deriving DecidableEq, Repr

def maxRtt : Duration := 5 * 10^9

namespace MasterClockOffset

def fromResponse (masterNowMs : Int) (localRecv : Instant) : MasterClockOffset :=
  ⟨localRecv, masterNowMs⟩

def refineWith (c : MasterClockOffset) (masterNowMs : Int) (localSend localRecv : Instant) :
    MasterClockOffset :=
  let rtt := Instant.saturatingDurationSince localRecv localSend
  if rtt > maxRtt then c
  else
    let halfRttMs := i64TryFromOr 0 (Duration.asMillis rtt / 2)
    ⟨localRecv, saturatingI64 (masterNowMs + halfRttMs)⟩

/-- The differences are of type `i64`, and a negative one is no `u64`. -/
def masterToLocal (c : MasterClockOffset) (masterTargetMs : Int) : Option Instant :=
  if masterTargetMs ≥ c.masterAnchorMs then
    let delta := (wrapI64 (masterTargetMs - c.masterAnchorMs)).toNat
    Instant.add c.localAnchor (Duration.fromMillis delta)
  else
    let delta := (wrapI64 (c.masterAnchorMs - masterTargetMs)).toNat
    some ((Instant.checkedSub c.localAnchor (Duration.fromMillis delta)).getD c.localAnchor)

def clockNowMaster (c : MasterClockOffset) (now : Instant) : Int :=
  let elapsed := Instant.saturatingDurationSince now c.localAnchor
  let elapsedMs := i64TryFromOr i64Max (Duration.asMillis elapsed)
  saturatingI64 (c.masterAnchorMs + elapsedMs)

end MasterClockOffset

def measureStartMs (startAtMs : Int) (warmup : Duration) : Int :=
  saturatingI64 (startAtMs + i64TryFromOr 0 (Duration.asMillis warmup))

def plannedEndMs (startAtMs : Int) (warmup duration : Duration) : Int :=
  saturatingI64 (measureStartMs startAtMs warmup + i64TryFromOr 0 (Duration.asMillis duration))

def measureEndMs (c : MasterClockOffset) (startAtMs : Int) (warmup duration : Duration)
    (now : Instant) : Int :=
  min (c.clockNowMaster now) (plannedEndMs startAtMs warmup duration)

inductive ClockCall where
  | fromResponse (masterNowMs : Int) (localRecv : Instant)
  | refineWith (masterNowMs : Int) (localSend localRecv : Instant)
  deriving DecidableEq, Repr

def ClockCall.apply : Option MasterClockOffset → ClockCall → Option MasterClockOffset
  | _, .fromResponse masterNowMs localRecv => some (.fromResponse masterNowMs localRecv)
  | some c, .refineWith masterNowMs localSend localRecv =>
      some (c.refineWith masterNowMs localSend localRecv)
  | none, .refineWith .. => none

/-- The offset after the calls; a response starts a new one. -/
def clockAfter (calls : List ClockCall) : Option MasterClockOffset :=
  calls.foldl ClockCall.apply none

def lastRttRev : List ClockCall → Option Duration
  | [] => none
  | .fromResponse .. :: _ => none
  | .refineWith _ localSend localRecv :: earlier =>
      let rtt := Instant.saturatingDurationSince localRecv localSend
      if rtt ≤ maxRtt then some rtt else lastRttRev earlier

def lastRtt (calls : List ClockCall) : Option Duration := lastRttRev calls.reverse

end CvdBench.Worker
