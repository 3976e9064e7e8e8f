import CvdBench.Spec.Parse
import Mathlib.Algebra.Order.Field.Rat
import Mathlib.Tactic.Linarith
import Mathlib.Tactic.Positivity
import Mathlib.Tactic.Ring

/-!
The token bucket (`rate_limit.rs`). Time is in seconds; time and tokens are exact.
-/

set_option autoImplicit false

namespace CvdBench.Worker

open Spec

structure TokenBucket where
  ratePerSec : ℚ
  capacity : ℚ
  tokens : ℚ
  lastRefill : ℚ
  deriving DecidableEq

namespace TokenBucket

/-- A full bucket that holds the tokens of one second. -/
def new (ratePerSec : Nat) (now : ℚ) : TokenBucket :=
  let rate : ℚ := (max ratePerSec 1 : Nat)
  ⟨rate, rate, rate, now⟩

def level (b : TokenBucket) (now : ℚ) : ℚ :=
  min (b.tokens + max (now - b.lastRefill) 0 * b.ratePerSec) b.capacity

/-- One round of the loop of `acquire`: the tokens are taken, or the task has to wait. A
request past the capacity is let through by a full bucket, which then owes the rest. -/
def attempt (b : TokenBucket) (n : Nat) (now : ℚ) : TokenBucket × Option ℚ :=
  let n : ℚ := (max n 1 : Nat)
  let b := { b with tokens := b.level now, lastRefill := now }
  if min n b.capacity ≤ b.tokens then ({ b with tokens := b.tokens - n }, none)
  else (b, some ((min n b.capacity - b.tokens) / b.ratePerSec))

end TokenBucket

def makeThroughputBucket (rate : Option RateLimit) (now : ℚ) : Option TokenBucket := do
  match ← rate with
  | .throughput bytesPerSec => some (.new bytesPerSec now)
  | .iops _ => none

def makeIopsBucket (rate : Option RateLimit) (now : ℚ) : Option TokenBucket := do
  match ← rate with
  | .iops opsPerSec => some (.new opsPerSec now)
  | .throughput _ => none

namespace TokenBucket

/-- A bucket of the given rate, as it is at the given time. -/
structure Ok (r now : ℚ) (b : TokenBucket) : Prop where
  rate : b.ratePerSec = r
  capacity : b.capacity = r
  refilled : b.lastRefill ≤ now

variable {r now now' : ℚ} {b b' : TokenBucket} {n : Nat}

theorem new_ok (rate : Nat) (now : ℚ) : (new rate now).Ok (max rate 1 : Nat) now :=
  ⟨rfl, rfl, le_refl now⟩

theorem Ok.later (h : b.Ok r now) (hle : now ≤ now') : b.Ok r now' :=
  ⟨h.rate, h.capacity, h.refilled.trans hle⟩

theorem Ok.level_le (h : b.Ok r now) (t : ℚ) : b.level t ≤ r := by
  rw [← h.capacity]
  exact min_le_right _ _

theorem Ok.level_later (h : b.Ok r now) (hle : now ≤ now') (hr : 0 ≤ r) :
    b.level now' ≤ b.level now + r * (now' - now) := by
  have hgain : 0 ≤ r * (now' - now) := mul_nonneg hr (by linarith)
  have hnow : max (now - b.lastRefill) 0 = now - b.lastRefill :=
    max_eq_left (by linarith [h.refilled])
  have hnow' : max (now' - b.lastRefill) 0 = now' - b.lastRefill :=
    max_eq_left (by linarith [h.refilled])
  unfold level
  rw [hnow, hnow', h.rate, h.capacity]
  rcases min_choice (b.tokens + (now - b.lastRefill) * r) r with hmin | hmin
  · rw [hmin]
    refine (min_le_left _ _).trans (le_of_eq ?_)
    ring
  · rw [hmin]
    exact (min_le_right _ _).trans (by linarith)

theorem Ok.level_gain (h : b.Ok r now) (hle : now ≤ now') :
    min (b.level now + r * (now' - now)) r ≤ b.level now' := by
  have hnow : max (now - b.lastRefill) 0 = now - b.lastRefill :=
    max_eq_left (by linarith [h.refilled])
  have hnow' : max (now' - b.lastRefill) 0 = now' - b.lastRefill :=
    max_eq_left (by linarith [h.refilled])
  have hleft := min_le_left (b.tokens + (now - b.lastRefill) * r) r
  unfold level
  rw [hnow, hnow', h.rate, h.capacity]
  refine min_le_min ?_ (le_refl r)
  calc min (b.tokens + (now - b.lastRefill) * r) r + r * (now' - now)
      ≤ b.tokens + (now - b.lastRefill) * r + r * (now' - now) := by linarith
    _ = b.tokens + (now' - b.lastRefill) * r := by ring

theorem new_level (rate : Nat) (now : ℚ) : (new rate now).level now = (max rate 1 : Nat) := by
  simp [level, new]

theorem level_refilled (h : b.tokens ≤ b.capacity) : b.level b.lastRefill = b.tokens := by
  simp [level, h]

/-- What a round does: it takes the tokens, which were there, or leaves the level. -/
theorem attempt_spec (h : b.Ok r now) (hn : 0 < n) :
    ((b.attempt n now).1.Ok r now) ∧
      (((b.attempt n now).2 = none ∧ min (n : ℚ) r ≤ b.level now ∧
          (b.attempt n now).1.level now = b.level now - n) ∨
        ((b.attempt n now).2.isSome ∧ b.level now < min (n : ℚ) r ∧
          (b.attempt n now).1.level now = b.level now)) := by
  have hmax : max n 1 = n := by omega
  have hle := h.level_le now
  have hpos : (0 : ℚ) ≤ n := Nat.cast_nonneg n
  have hcap := h.capacity
  unfold attempt
  rw [hmax]
  simp only
  split
  · next hroom =>
    rw [hcap] at hroom
    refine ⟨⟨h.rate, h.capacity, le_refl now⟩, .inl ⟨rfl, hroom, ?_⟩⟩
    exact @level_refilled { b with tokens := b.level now - n, lastRefill := now }
      (show b.level now - n ≤ b.capacity by rw [hcap]; linarith)
  · next hroom =>
    rw [hcap] at hroom
    refine ⟨⟨h.rate, h.capacity, le_refl now⟩, .inr ⟨rfl, not_le.mp hroom, ?_⟩⟩
    exact @level_refilled { b with tokens := b.level now, lastRefill := now }
      (show b.level now ≤ b.capacity by rw [hcap]; exact hle)

end TokenBucket

end CvdBench.Worker
