import CvdBench.Worker.Backoff

/-!
The delays of a backoff over whole runs, and those of the first connection.
-/

set_option autoImplicit false

namespace CvdBench.Worker

open Foundation Spec

namespace ExponentialBackoff

variable {b₀ : ExponentialBackoff}

/-- A backoff knows how often it has failed since its last reset, and nothing else. -/
theorem run_failed (hfresh : b₀.current = b₀.initial) {b : ExponentialBackoff}
    {tr : List (Event ExponentialBackoff BackoffAct (Option Duration))}
    (h : b₀.machine.Run b₀ tr b) : b = b₀.failed (failures (tr.map (·.act))) := by
  refine Machine.Run.history (M := b₀.machine)
    (P := fun tr b => b = b₀.failed (failures (tr.map (·.act)))) h rfl ?_
  intro tr b act b' out _ hfailed hstep
  rw [List.map_append, List.map_singleton, failures_concat]
  cases act with
  | nextDelay =>
    cases hstep
    rw [hfailed]
    rfl
  | reset =>
    cases hstep
    rw [hfailed]
    exact failed_reset hfresh _

end ExponentialBackoff

theorem default_whole : ExponentialBackoff.default.Whole 200 30000 :=
  ⟨rfl, rfl, rfl, by decide, by decide, by decide, Binary64.max_one_fromOne _⟩

theorem default_delayAfter (n : Nat) : ExponentialBackoff.default.delayAfter n =
    Duration.fromMillis (min (200 * 2 ^ n) 30000) := by
  have hfactor : ExponentialBackoff.default.factor = Binary64.ofNat 2 := by decide
  exact default_whole.delayAfter_eq (by decide) hfactor n

theorem connectWaits_eq (n k : Nat) :
    connectWaits n (ExponentialBackoff.default.delayAfter k) =
      (List.range' k n).map ExponentialBackoff.default.delayAfter := by
  induction n generalizing k with
  | zero => rfl
  | succ n ih =>
    have hnext : min (ExponentialBackoff.default.delayAfter k * 2) maxBackoff =
        ExponentialBackoff.default.delayAfter (k + 1) := by
      rw [default_delayAfter, default_delayAfter, Nat.pow_succ]
      unfold maxBackoff Duration.fromMillis
      rw [Nat.mul_right_comm, Nat.mul_min_mul_right]
      congr 1
      omega
    rw [connectWaits, hnext, ih, List.range'_succ, List.map_cons]

/-- Over every run of calls, with resets anywhere among them, and for every factor: a wait lies
between the initial delay and the maximum, depends on the failures since the last reset alone,
and does not get shorter with their number. A whole factor gives the powers of it. -/
theorem backoff_delays {initial max : Nat} {factor : Float}
    {tr : List (Event ExponentialBackoff BackoffAct (Option Duration))}
    {b : ExponentialBackoff} (hinitial : initial ≤ 2 ^ 53) (hmax : max ≤ 2 ^ 53)
    (h : (ExponentialBackoff.new (Duration.fromMillis initial) (Duration.fromMillis max)
      factor).machine.Run (.new (Duration.fromMillis initial) (Duration.fromMillis max) factor)
        tr b) :
    let b₀ := ExponentialBackoff.new (Duration.fromMillis initial) (Duration.fromMillis max) factor
    (∀ tr₁ e tr₂ d, tr = tr₁ ++ e :: tr₂ → e.out = some d →
      d = b₀.delayAfter (failures (tr₁.map (·.act))) ∧ b₀.initial ≤ d ∧ d ≤ b₀.max) ∧
    b₀.delayAfter 0 = b₀.initial ∧
    (∀ n n', n ≤ n' → b₀.delayAfter n ≤ b₀.delayAfter n') ∧
    (∀ k, factor = Binary64.ofNat k → ∀ n,
      b₀.delayAfter n = min (b₀.initial * Nat.max k 1 ^ n) b₀.max) ∧
    ∀ n, connectWaits n initialBackoff =
      (List.range n).map ExponentialBackoff.default.delayAfter := by
  intro b₀
  obtain ⟨initialMs, maxMs, hwhole⟩ : ∃ initialMs maxMs, b₀.Whole initialMs maxMs :=
    ExponentialBackoff.new_whole factor hinitial hmax
  refine ⟨fun tr₁ e tr₂ d heq hout => ?_, hwhole.fresh, fun n n' => hwhole.delayAfter_mono,
    fun k hfactor n => ?_, fun n => ?_⟩
  · obtain ⟨hpre, hstep, _⟩ := h.split heq
    rw [hout] at hstep
    have hd : d = b₀.delayAfter (failures (tr₁.map (·.act))) := by
      rw [ExponentialBackoff.step_delay hstep, ExponentialBackoff.run_failed hwhole.fresh hpre]
      rfl
    obtain ⟨ms, hms, hlow, hhigh⟩ := hwhole.delayAfter_millis (failures (tr₁.map (·.act)))
    refine ⟨hd, ?_, ?_⟩
    · rw [hd, hms, hwhole.initial]
      exact Nat.mul_le_mul_right _ hlow
    · rw [hd, hms, hwhole.max]
      exact Nat.mul_le_mul_right _ hhigh
  · have hwhole' : b₀.factor = Binary64.ofNat (Nat.max k 1) := by
      rw [← Binary64.max_ofNat_one, ← hfactor]
      rfl
    rw [hwhole.delayAfter_eq (Nat.le_max_right k 1) hwhole' n, hwhole.initial, hwhole.max]
    unfold Duration.fromMillis
    rw [Nat.mul_right_comm, Nat.mul_min_mul_right]
  · have hfirst : ExponentialBackoff.default.delayAfter 0 = initialBackoff := by decide
    have hwaits := connectWaits_eq n 0
    rw [hfirst] at hwaits
    rw [hwaits, List.range_eq_range']

namespace Small

def failing : List BackoffAct := [.nextDelay, .nextDelay, .nextDelay, .reset, .nextDelay]

def byHalf : ExponentialBackoff :=
  .new (Duration.fromMillis 675) (Duration.fromMillis 30000) 1.5

end Small

theorem backoff_delays_small : ∃ tr₁ e tr₂,
    Small.byHalf.machine.trace Small.byHalf Small.failing = tr₁ ++ e :: tr₂ ∧
      e.out = some (Duration.fromMillis 1518) ∧
      Duration.fromMillis 1518 = Small.byHalf.delayAfter (failures (tr₁.map (·.act))) := by
  have hall := (@backoff_delays 675 30000 1.5 _ _ (by decide) (by decide)
    (Small.byHalf.machine.run_play Small.byHalf Small.failing)).1
  have hsplit := Small.byHalf.machine.trace_append Small.byHalf
    [.nextDelay, .nextDelay] [.nextDelay, .reset, .nextDelay]
  have hout : ((Small.byHalf.machine.play Small.byHalf
      [.nextDelay, .nextDelay]).nextDelay).1 = Duration.fromMillis 1518 := by
    decide +kernel
  refine ⟨_, _, _, hsplit, congrArg some hout, ?_⟩
  exact (hall _ _ _ _ hsplit (congrArg some hout)).1

example : ((ExponentialBackoff.default.machine.trace .default
    (List.replicate 10 .nextDelay)).filterMap (·.out)).map Duration.asMillis =
      [200, 400, 800, 1600, 3200, 6400, 12800, 25600, 30000, 30000] := by decide

end CvdBench.Worker
