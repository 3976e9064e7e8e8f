import CvdBench.Foundation.Binary64
import CvdBench.Foundation.Machine
import CvdBench.Spec.Parse

/-!
Exponential backoff (`backoff.rs`), and the waits of `connect_with_backoff` (`client.rs`).
-/

set_option autoImplicit false

namespace CvdBench.Worker

open Foundation Spec

structure ExponentialBackoff where
  initial : Duration
  max : Duration
  factor : Float
  current : Duration
  deriving DecidableEq

namespace ExponentialBackoff

def defaultInitial : Duration := Duration.fromMillis 200

def defaultMax : Duration := Duration.fromMillis 30000

def defaultFactor : Float := 2.0

def new (initial max : Duration) (factor : Float) : ExponentialBackoff :=
  let factor := Binary64.max factor 1.0
  let initial := if initial = 0 then defaultInitial else initial
  let max := if max < initial then initial else max
  ⟨initial, max, factor, initial⟩

def default : ExponentialBackoff := .new defaultInitial defaultMax defaultFactor

/-- The casts of the source: into `f64` to the nearest, ties to even, and back cut off after the
point and clamped. -/
def nextDelay (b : ExponentialBackoff) : Duration × ExponentialBackoff :=
  let nextMs := (Binary64.ofNat (Duration.asMillis b.current) * b.factor).toUInt64.toNat
  let next := Duration.fromMillis (Nat.max nextMs 1)
  (b.current, { b with current := if next > b.max then b.max else next })

def reset (b : ExponentialBackoff) : ExponentialBackoff := { b with current := b.initial }

end ExponentialBackoff

inductive BackoffAct where
  | nextDelay
  | reset
  deriving DecidableEq, Repr

def ExponentialBackoff.step (b : ExponentialBackoff) :
    BackoffAct → Option (ExponentialBackoff × Option Duration)
  | .nextDelay => some (b.nextDelay.2, some b.nextDelay.1)
  | .reset => some (b.reset, none)

def ExponentialBackoff.machine (b : ExponentialBackoff) :
    Machine ExponentialBackoff BackoffAct (Option Duration) := ⟨b, ExponentialBackoff.step⟩

theorem ExponentialBackoff.step_delay {b b' : ExponentialBackoff} {act : BackoffAct}
    {d : Duration} (h : b.step act = some (b', some d)) : d = b.current := by
  cases act with
  | nextDelay =>
    cases h
    rfl
  | reset => cases h

def failures (acts : List BackoffAct) : Nat :=
  acts.foldl (fun n act => match act with
    | .nextDelay => n + 1
    | .reset => 0) 0

@[simp] theorem failures_nil : failures [] = 0 := rfl

theorem failures_concat (acts : List BackoffAct) (act : BackoffAct) :
    failures (acts ++ [act]) = match act with
      | .nextDelay => failures acts + 1
      | .reset => 0 := by
  unfold failures
  rw [List.foldl_append]
  cases act <;> rfl

namespace ExponentialBackoff

def failed (b : ExponentialBackoff) : Nat → ExponentialBackoff
  | 0 => b
  | n + 1 => (b.failed n).nextDelay.2

def delayAfter (b : ExponentialBackoff) (n : Nat) : Duration := (b.failed n).current

theorem nextDelay_keeps (b : ExponentialBackoff) : b.nextDelay.2.initial = b.initial ∧
    b.nextDelay.2.max = b.max ∧ b.nextDelay.2.factor = b.factor := by
  obtain ⟨initial, max, factor, current⟩ := b
  exact ⟨rfl, rfl, rfl⟩

theorem failed_keeps (b : ExponentialBackoff) (n : Nat) : (b.failed n).initial = b.initial ∧
    (b.failed n).max = b.max ∧ (b.failed n).factor = b.factor := by
  induction n with
  | zero => exact ⟨rfl, rfl, rfl⟩
  | succ n ih =>
    obtain ⟨hinitial, hmax, hfactor⟩ := nextDelay_keeps (b.failed n)
    rw [failed, hinitial, hmax, hfactor]
    exact ih

theorem failed_reset {b : ExponentialBackoff} (hfresh : b.current = b.initial) (n : Nat) :
    (b.failed n).reset = b := by
  obtain ⟨hinitial, hmax, hfactor⟩ := b.failed_keeps n
  unfold reset
  rw [hinitial]
  generalize b.failed n = b' at *
  obtain ⟨initial, max, factor, current⟩ := b
  obtain ⟨initial', max', factor', current'⟩ := b'
  cases hinitial
  cases hmax
  cases hfactor
  cases hfresh
  rfl

/-- What `new` makes of whole milliseconds that `f64` can count. -/
structure Whole (b : ExponentialBackoff) (initialMs maxMs : Nat) : Prop where
  initial : b.initial = Duration.fromMillis initialMs
  max : b.max = Duration.fromMillis maxMs
  fresh : b.current = b.initial
  pos : 0 < initialMs
  le : initialMs ≤ maxMs
  exact : maxMs ≤ 2 ^ 53
  factor : Binary64.FromOne b.factor.toModel.unpack

theorem fromMillis_lt {a b : Nat} : Duration.fromMillis a < Duration.fromMillis b ↔ a < b :=
  Nat.mul_lt_mul_right (by decide)

theorem new_eq (initialMs maxMs : Nat) (factor : Float) :
    let initialMs' := if initialMs = 0 then 200 else initialMs
    new (Duration.fromMillis initialMs) (Duration.fromMillis maxMs) factor =
      ⟨Duration.fromMillis initialMs', Duration.fromMillis (Max.max maxMs initialMs'),
        Binary64.max factor 1.0, Duration.fromMillis initialMs'⟩ := by
  intro initialMs'
  have hinitial : (if Duration.fromMillis initialMs = 0 then defaultInitial
      else Duration.fromMillis initialMs) = Duration.fromMillis initialMs' := by
    by_cases hzero : initialMs = 0
    · subst hzero
      rfl
    · have hne : Duration.fromMillis initialMs ≠ 0 := Nat.mul_ne_zero hzero (by decide)
      have hkept : initialMs' = initialMs := if_neg hzero
      rw [if_neg hne, hkept]
  have hmax : (if Duration.fromMillis maxMs < Duration.fromMillis initialMs'
      then Duration.fromMillis initialMs' else Duration.fromMillis maxMs) =
        Duration.fromMillis (Max.max maxMs initialMs') := by
    split
    · next hlt => rw [Nat.max_eq_right (fromMillis_lt.mp hlt).le]
    · next hge => rw [Nat.max_eq_left (Nat.le_of_not_lt (mt fromMillis_lt.mpr hge))]
  unfold new
  simp only [hinitial, hmax]

theorem new_whole {initialMs maxMs : Nat} (factor : Float) (hinitial : initialMs ≤ 2 ^ 53)
    (hmax : maxMs ≤ 2 ^ 53) : ∃ initialMs' maxMs',
      (new (Duration.fromMillis initialMs) (Duration.fromMillis maxMs) factor).Whole
        initialMs' maxMs' := by
  rw [new_eq]
  refine ⟨_, _, rfl, rfl, rfl, ?_, Nat.le_max_right _ _, ?_, Binary64.max_one_fromOne factor⟩
  · split
    · decide
    · next hne => exact Nat.pos_of_ne_zero hne
  · refine Nat.max_le.mpr ⟨hmax, ?_⟩
    split
    · decide
    · exact hinitial

section Whole

variable {b : ExponentialBackoff} {initialMs maxMs : Nat}

theorem nextDelay_millis (b : ExponentialBackoff) {ms : Nat}
    (hcurrent : b.current = Duration.fromMillis ms) (hmax : b.max = Duration.fromMillis maxMs) :
    b.nextDelay.2.current = Duration.fromMillis
      (min (Nat.max (Binary64.ofNat ms * b.factor).toUInt64.toNat 1) maxMs) := by
  have hmillis : Duration.asMillis (Duration.fromMillis ms) = ms :=
    Nat.mul_div_cancel ms (by decide)
  unfold nextDelay
  simp only [hcurrent, hmax, hmillis]
  split
  · next hlt => rw [Nat.min_eq_right (fromMillis_lt.mp hlt).le]
  · next hge => rw [Nat.min_eq_left (Nat.le_of_not_lt (mt fromMillis_lt.mpr hge))]

theorem Whole.delayAfter_next (h : b.Whole initialMs maxMs) {n ms : Nat}
    (hms : b.delayAfter n = Duration.fromMillis ms) :
    b.delayAfter (n + 1) = Duration.fromMillis
      (min (Nat.max (Binary64.ofNat ms * b.factor).toUInt64.toNat 1) maxMs) := by
  obtain ⟨_, hmax, hfactor⟩ := b.failed_keeps n
  rw [← hfactor]
  exact (b.failed n).nextDelay_millis hms (hmax.trans h.max)

theorem Whole.grows (h : b.Whole initialMs maxMs) {ms : Nat} (hms : ms ≤ maxMs) :
    ms ≤ Nat.max (Binary64.ofNat ms * b.factor).toUInt64.toNat 1 :=
  (Binary64.le_mul (hms.trans h.exact) h.factor).trans (Nat.le_max_left _ _)

theorem Whole.delayAfter_millis (h : b.Whole initialMs maxMs) (n : Nat) :
    ∃ ms, b.delayAfter n = Duration.fromMillis ms ∧ initialMs ≤ ms ∧ ms ≤ maxMs := by
  induction n with
  | zero => exact ⟨initialMs, h.fresh.trans h.initial, Nat.le_refl _, h.le⟩
  | succ n ih =>
    obtain ⟨ms, hms, hlow, hhigh⟩ := ih
    exact ⟨_, h.delayAfter_next hms, Nat.le_min.mpr ⟨hlow.trans (h.grows hhigh), h.le⟩,
      Nat.min_le_right _ _⟩

theorem Whole.delayAfter_succ (h : b.Whole initialMs maxMs) (n : Nat) :
    b.delayAfter n ≤ b.delayAfter (n + 1) := by
  obtain ⟨ms, hms, _, hhigh⟩ := h.delayAfter_millis n
  rw [h.delayAfter_next hms, hms]
  exact Nat.mul_le_mul_right _ (Nat.le_min.mpr ⟨h.grows hhigh, hhigh⟩)

theorem Whole.delayAfter_mono (h : b.Whole initialMs maxMs) {n n' : Nat} (hle : n ≤ n') :
    b.delayAfter n ≤ b.delayAfter n' := by
  induction hle with
  | refl => exact Nat.le_refl _
  | step _ ih => exact ih.trans (h.delayAfter_succ _)

theorem Whole.delayAfter_eq (h : b.Whole initialMs maxMs) {k : Nat} (hk : 0 < k)
    (hfactor : b.factor = Binary64.ofNat k) (n : Nat) :
    b.delayAfter n = Duration.fromMillis (min (initialMs * k ^ n) maxMs) := by
  induction n with
  | zero =>
    rw [Nat.pow_zero, Nat.mul_one, Nat.min_eq_left h.le]
    exact h.fresh.trans h.initial
  | succ n ih =>
    have hpos : 0 < min (initialMs * k ^ n) maxMs :=
      Nat.lt_min.mpr ⟨Nat.mul_pos h.pos (Nat.pow_pos hk), h.pos.trans_le h.le⟩
    have hexact : min (initialMs * k ^ n) maxMs ≤ 2 ^ 53 := (Nat.min_le_right _ _).trans h.exact
    have hproduct := Binary64.min_mul_ofNat hpos hexact hk h.exact
    have hgrown : 1 ≤ (Binary64.ofNat (min (initialMs * k ^ n) maxMs) *
        Binary64.ofNat k).toUInt64.toNat := by
      refine Nat.le_trans ?_ (Nat.min_le_left _ maxMs)
      rw [hproduct]
      exact Nat.le_min.mpr ⟨Nat.mul_pos hpos hk, h.pos.trans_le h.le⟩
    have hone : ∀ g : Nat, 1 ≤ g → Nat.max g 1 = g := fun g => Nat.max_eq_left
    rw [h.delayAfter_next ih, hfactor, hone _ hgrown, hproduct, ← Nat.mul_min_mul_right,
      Nat.min_assoc, Nat.min_eq_right (Nat.le_mul_of_pos_right _ hk), Nat.pow_succ,
      Nat.mul_assoc]

end Whole

end ExponentialBackoff

def initialBackoff : Duration := Duration.fromMillis 200

def maxBackoff : Duration := Duration.fromMillis 30000

/-- The waits of `connect_with_backoff`, one for each attempt that failed. -/
def connectWaits : Nat → Duration → List Duration
  | 0, _ => []
  | n + 1, delay => delay :: connectWaits n (min (delay * 2) maxBackoff)

end CvdBench.Worker
