import CvdBench.Worker.Clock
import Mathlib.Algebra.Order.Archimedean.Real.Basic
import Mathlib.Algebra.Order.Floor.Ring
import Mathlib.Data.List.Induction
import Mathlib.Tactic.Linarith
import Mathlib.Tactic.NormNum

/-!
How far the clock of the master, as a worker knows it, can be off.
-/

set_option autoImplicit false

namespace CvdBench.Worker

open Foundation Spec

section

variable {K : Type} [Field K] [LinearOrder K] [IsStrictOrderedRing K]

/-- A reading that was taken between `send` and `recv`, with a tick `q`, and half of the time
between them, with the same tick: what they make of the offset `θ`. -/
theorem midpoint_error {send x recv θ q reading half : K} (hsend : send ≤ x) (hrecv : x ≤ recv)
    (hlow : x + θ - q ≤ reading) (hhigh : reading ≤ x + θ)
    (hhalfLow : (recv - send) / 2 - q ≤ half) (hhalfHigh : half ≤ (recv - send) / 2) :
    |recv + θ - (reading + half)| ≤ (recv - send) / 2 + 2 * q := by
  rw [abs_le]
  constructor
  · linarith
  · linarith

end

/-- Where the local clock stands when the master's shows the time; `θ` is how far the
master's clock is ahead, in nanoseconds. -/
noncomputable def trueInstant (θ : ℝ) (masterMs : Int) : ℝ := masterMs * 10^6 - θ

/-- The time is the master's, in whole milliseconds, at some instant of the call, and half of
the RTT can be added to it. -/
def ClockCall.Honest (θ : ℝ) : ClockCall → Prop
  | .fromResponse .. => True
  | .refineWith masterNowMs localSend localRecv =>
      (∃ x : ℝ, localSend ≤ x ∧ x ≤ localRecv ∧ masterNowMs = ⌊(x + θ) / 10^6⌋) ∧
        i64Min ≤ masterNowMs ∧
        masterNowMs + (Duration.asMillis (localRecv - localSend) / 2 : Nat) ≤ i64Max

theorem saturatingI64_of_fits {n : Int} (hlo : i64Min ≤ n) (hhi : n ≤ i64Max) :
    saturatingI64 n = n := by
  unfold saturatingI64
  omega

theorem i64TryFromOr_of_fits {n : Nat} (default : Int) (h : (n : Int) ≤ i64Max) :
    i64TryFromOr default n = n := if_pos h

def Anchored (θ : ℝ) (c : MasterClockOffset) (rtt : Duration) : Prop :=
  |(c.localAnchor : ℝ) - trueInstant θ c.masterAnchorMs| ≤ rtt / 2 + 2 * 10^6

theorem half_millis (rtt : Nat) :
    (rtt : ℝ) / 2 - 10^6 ≤ ((Duration.asMillis rtt / 2 : Nat) : ℝ) * 10^6 ∧
      ((Duration.asMillis rtt / 2 : Nat) : ℝ) * 10^6 ≤ (rtt : ℝ) / 2 := by
  unfold Duration.asMillis
  have hlow : rtt ≤ 2 * (rtt / 1000000 / 2 * 1000000) + 2 * 1000000 := by omega
  have hhigh : 2 * (rtt / 1000000 / 2 * 1000000) ≤ rtt := by omega
  have hlow' : (rtt : ℝ) ≤ 2 * ((rtt / 1000000 / 2 : Nat) * 1000000) + 2 * 1000000 := by
    exact_mod_cast hlow
  have hhigh' : 2 * (((rtt / 1000000 / 2 : Nat) : ℝ) * 1000000) ≤ (rtt : ℝ) := by
    exact_mod_cast hhigh
  constructor
  · linarith
  · linarith

theorem half_fits {rtt : Nat} (h : rtt ≤ maxRtt) :
    ((Duration.asMillis rtt / 2 : Nat) : Int) ≤ i64Max := by
  have hrtt : rtt ≤ 5000000000 := h
  unfold Duration.asMillis i64Max
  omega

theorem refineWith_anchored {θ : ℝ} {masterNowMs : Int} {localSend localRecv : Instant}
    (h : (ClockCall.refineWith masterNowMs localSend localRecv).Honest θ)
    (haccepted : localRecv - localSend ≤ maxRtt) (c : MasterClockOffset) :
    Anchored θ (c.refineWith masterNowMs localSend localRecv) (localRecv - localSend) := by
  obtain ⟨⟨x, hsend, hrecv, hnow⟩, hlo, hhi⟩ := h
  have hhalfFits := half_fits haccepted
  have hsumLo : i64Min ≤
      masterNowMs + (Duration.asMillis (localRecv - localSend) / 2 : Nat) := by omega
  have hclock : c.refineWith masterNowMs localSend localRecv =
      ⟨localRecv, masterNowMs + (Duration.asMillis (localRecv - localSend) / 2 : Nat)⟩ := by
    unfold MasterClockOffset.refineWith Instant.saturatingDurationSince
    simp only
    rw [if_neg (Nat.not_lt.mpr haccepted), i64TryFromOr_of_fits 0 hhalfFits,
      saturatingI64_of_fits hsumLo hhi]
  have hle : localSend ≤ localRecv := by exact_mod_cast hsend.trans hrecv
  have hrtt : ((localRecv - localSend : Nat) : ℝ) = localRecv - localSend := Nat.cast_sub hle
  obtain ⟨hhalfLow, hhalfHigh⟩ := half_millis (localRecv - localSend)
  rw [hrtt] at hhalfLow hhalfHigh
  have hfloor : (masterNowMs : ℝ) ≤ (x + θ) / 10^6 := by
    rw [hnow]
    exact Int.floor_le _
  have hfloor' : (x + θ) / 10^6 < masterNowMs + 1 := by
    rw [hnow]
    exact Int.lt_floor_add_one _
  have hlow : x + θ - 10^6 ≤ (masterNowMs : ℝ) * 10^6 := by
    rw [div_lt_iff₀ (by norm_num)] at hfloor'
    linarith
  have hhigh : (masterNowMs : ℝ) * 10^6 ≤ x + θ := by
    rwa [le_div_iff₀ (by norm_num)] at hfloor
  have hbound := midpoint_error hsend hrecv hlow hhigh hhalfLow hhalfHigh
  rw [hclock]
  unfold Anchored trueInstant
  rw [hrtt]
  have hsame : (localRecv : ℝ) - (((masterNowMs +
      (Duration.asMillis (localRecv - localSend) / 2 : Nat) : Int) : ℝ) * 10^6 - θ) =
      localRecv + θ - ((masterNowMs : ℝ) * 10^6 +
        ((Duration.asMillis (localRecv - localSend) / 2 : Nat) : ℝ) * 10^6) := by
    rw [Int.cast_add, Int.cast_natCast]
    ring
  simp only
  rw [hsame]
  exact hbound

theorem refineWith_rejected {masterNowMs : Int} {localSend localRecv : Instant}
    (h : maxRtt < localRecv - localSend) (c : MasterClockOffset) :
    c.refineWith masterNowMs localSend localRecv = c := if_pos h

theorem clockAfter_anchored {θ : ℝ} {calls : List ClockCall}
    (hhonest : ∀ call ∈ calls, call.Honest θ) {c : MasterClockOffset} {rtt : Duration}
    (hclock : clockAfter calls = some c) (hrtt : lastRtt calls = some rtt) :
    Anchored θ c rtt := by
  induction calls using List.reverseRecOn generalizing c with
  | nil => cases hclock
  | append_singleton calls call ih =>
    have hlast := hhonest call (by simp)
    have hearlier : ∀ before, clockAfter calls = some before → lastRtt calls = some rtt →
        Anchored θ before rtt :=
      fun _ => ih fun call' hcall => hhonest call' (List.mem_append_left _ hcall)
    unfold clockAfter at hclock hearlier
    unfold lastRtt at hrtt hearlier
    rw [List.foldl_append, List.foldl_cons, List.foldl_nil] at hclock
    rw [List.reverse_append, List.reverse_singleton, List.singleton_append] at hrtt
    cases call with
    | fromResponse masterNowMs localRecv => cases hrtt
    | refineWith masterNowMs localSend localRecv =>
      cases hbefore : calls.foldl ClockCall.apply none with
      | none =>
        rw [hbefore] at hclock
        cases hclock
      | some before =>
        rw [hbefore] at hclock hearlier
        obtain rfl := Option.some.inj hclock
        unfold lastRttRev Instant.saturatingDurationSince at hrtt
        simp only at hrtt
        split at hrtt
        · next haccepted =>
          obtain rfl := Option.some.inj hrtt
          exact refineWith_anchored hlast haccepted before
        · next hrejected =>
          rw [refineWith_rejected (Nat.lt_of_not_le hrejected)]
          exact hearlier before rfl hrtt

/-- A target from the anchor on, such that nothing overflows. -/
structure Target (c : MasterClockOffset) (t : Int) (local_ : Instant) : Prop where
  after : c.masterAnchorMs ≤ t
  lo : i64Min ≤ t
  hi : t ≤ i64Max
  fits : t - c.masterAnchorMs ≤ i64Max
  found : c.masterToLocal t = some local_

theorem Target.local_eq {c : MasterClockOffset} {t : Int} {local_ : Instant}
    (h : Target c t local_) :
    local_ = c.localAnchor + (t - c.masterAnchorMs).toNat * 1000000 := by
  have hfound := h.found
  have hafter := h.after
  have hfits := h.fits
  unfold MasterClockOffset.masterToLocal at hfound
  rw [if_pos hafter, wrapI64_of_fits (by unfold i64Min; omega) hfits] at hfound
  unfold Instant.add Duration.fromMillis at hfound
  simp only at hfound
  split at hfound
  · exact (Option.some.inj hfound).symm
  · cases hfound

theorem Target.clockNowMaster {c : MasterClockOffset} {t : Int} {local_ : Instant}
    (h : Target c t local_) : c.clockNowMaster local_ = t := by
  have hafter := h.after
  have hfits := h.fits
  unfold MasterClockOffset.clockNowMaster Instant.saturatingDurationSince
  have helapsed : Duration.asMillis (local_ - c.localAnchor) = (t - c.masterAnchorMs).toNat := by
    rw [h.local_eq]
    unfold Duration.asMillis
    omega
  simp only [helapsed]
  rw [i64TryFromOr_of_fits _ (by omega), Int.toNat_of_nonneg (by omega)]
  have hsum : c.masterAnchorMs + (t - c.masterAnchorMs) = t := by omega
  rw [hsum, saturatingI64_of_fits h.lo h.hi]

theorem Target.error {θ : ℝ} {c : MasterClockOffset} {t : Int} {local_ : Instant}
    {rtt : Duration} (h : Target c t local_) (hanchored : Anchored θ c rtt) :
    |(local_ : ℝ) - trueInstant θ t| ≤ rtt / 2 + 2 * 10^6 := by
  have hafter := h.after
  have hnat : (((t - c.masterAnchorMs).toNat : Nat) : ℝ) = t - c.masterAnchorMs := by
    have hcast : (((t - c.masterAnchorMs).toNat : Nat) : Int) = t - c.masterAnchorMs :=
      Int.toNat_of_nonneg (by omega)
    exact_mod_cast congrArg (Int.cast : Int → ℝ) hcast
  have hsame : (local_ : ℝ) - trueInstant θ t =
      c.localAnchor - trueInstant θ c.masterAnchorMs := by
    rw [h.local_eq]
    unfold trueInstant
    push_cast
    rw [hnat]
    ring
  rw [hsame]
  exact hanchored

/-- A sample whose RTT is too long leaves the estimate alone. After honest samples, one of
them accepted, a target from the anchor on is hit within half of its RTT and two
milliseconds, and the way back leads to the target itself; so do the ways back from the
instants at which the runners begin to measure and end. -/
theorem clock_sync {θ : ℝ} {calls : List ClockCall} {c : MasterClockOffset} {rtt : Duration}
    (hhonest : ∀ call ∈ calls, call.Honest θ) (hclock : clockAfter calls = some c)
    (hrtt : lastRtt calls = some rtt) :
    (∀ masterNowMs localSend localRecv, maxRtt < localRecv - localSend →
      c.refineWith masterNowMs localSend localRecv = c) ∧
    (∀ t local_, Target c t local_ →
      |(local_ : ℝ) - trueInstant θ t| ≤ rtt / 2 + 2 * 10^6 ∧ c.clockNowMaster local_ = t) ∧
    ∀ startAtMs warmup duration measureStartLocal deadlineLocal,
      Target c (measureStartMs startAtMs warmup) measureStartLocal →
      Target c (plannedEndMs startAtMs warmup duration) deadlineLocal →
      c.clockNowMaster measureStartLocal = measureStartMs startAtMs warmup ∧
        measureEndMs c startAtMs warmup duration deadlineLocal =
          plannedEndMs startAtMs warmup duration := by
  have hanchored := clockAfter_anchored hhonest hclock hrtt
  refine ⟨fun _ _ _ hlong => refineWith_rejected hlong c, fun t local_ htarget =>
    ⟨htarget.error hanchored, htarget.clockNowMaster⟩, ?_⟩
  intro startAtMs warmup duration measureStartLocal deadlineLocal hstart hend
  refine ⟨hstart.clockNowMaster, ?_⟩
  unfold measureEndMs
  rw [hend.clockNowMaster, min_self]

def sampleCalls : List ClockCall :=
  [.fromResponse 0 5000000, .refineWith 3 2000000 8000000]

theorem sampleCalls_honest : ∀ call ∈ sampleCalls, call.Honest 0 := by
  intro call hcall
  obtain rfl | rfl : call = .fromResponse 0 5000000 ∨ call = .refineWith 3 2000000 8000000 := by
    simpa [sampleCalls] using hcall
  · trivial
  · refine ⟨⟨3000000, by norm_num, by norm_num, ?_⟩, by decide, by decide⟩
    norm_num

theorem sampleTarget : Target ⟨8000000, 6⟩ 106 108000000 :=
  ⟨by decide, by decide, by decide, by decide, by decide⟩

theorem clock_sync_small :
    |((108000000 : Instant) : ℝ) - trueInstant 0 106| ≤ (6000000 : Duration) / 2 + 2 * 10^6 ∧
      MasterClockOffset.clockNowMaster ⟨8000000, 6⟩ 108000000 = 106 :=
  (clock_sync sampleCalls_honest (by decide) (by decide)).2.1 106 108000000 sampleTarget

end CvdBench.Worker
