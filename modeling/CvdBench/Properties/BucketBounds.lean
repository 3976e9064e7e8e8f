import CvdBench.Worker.SharedBucket

/-!
What one bucket grants to calls that run at the same time: no more than its rate and a
burst, and every request in the end.
-/

set_option autoImplicit false

namespace CvdBench.Worker

open Foundation

def largest (requests : List Nat) : Nat := requests.max?.getD 0

/-- What the largest request asks past the capacity. -/
def maxDebt (rate : Nat) (requests : List Nat) : ℚ :=
  max 0 ((largest requests : ℚ) - (max rate 1 : Nat))

namespace SharedBucket

structure Ok (rate : Nat) (requests : List Nat) (s : SharedBucket) : Prop where
  perSec : s.bucket.ratePerSec = (max rate 1 : Nat)
  capacity : s.bucket.capacity = (max rate 1 : Nat)
  refilled : s.bucket.lastRefill = s.now
  full : s.bucket.tokens ≤ (max rate 1 : Nat)
  debt : -maxDebt rate requests ≤ s.bucket.tokens
  asked : s.calls.map AcquireCall.n = requests

variable {rate : Nat} {requests : List Nat} {s s' : SharedBucket} {act : AcquireRound}
  {out : RoundOutcome} {i : Nat} {call : AcquireCall} {now : ℚ}

theorem one_le_rate (rate : Nat) : (1 : ℚ) ≤ (max rate 1 : Nat) := by
  exact_mod_cast Nat.le_max_right rate 1

theorem maxDebt_nonneg (rate : Nat) (requests : List Nat) : 0 ≤ maxDebt rate requests :=
  le_max_left _ _

theorem request_le (rate : Nat) {n : Nat} (hn : n ∈ requests) :
    ((max n 1 : Nat) : ℚ) ≤ (max rate 1 : Nat) + maxDebt rate requests := by
  have hle : (n : ℚ) ≤ largest requests := by
    exact_mod_cast List.le_max?_getD_of_mem hn
  have hdebt : (largest requests : ℚ) - (max rate 1 : Nat) ≤ maxDebt rate requests :=
    le_max_right _ _
  have hone := one_le_rate rate
  have hnonneg := maxDebt_nonneg rate requests
  rw [Nat.cast_max, Nat.cast_one]
  exact max_le (by linarith) (by linarith)

namespace Ok

variable (h : s.Ok rate requests)

include h

theorem bucket : s.bucket.Ok (max rate 1 : Nat) s.now :=
  ⟨h.perSec, h.capacity, le_of_eq h.refilled⟩

theorem level_le (t : ℚ) : s.bucket.level t ≤ (max rate 1 : Nat) := h.bucket.level_le t

theorem level_now : s.bucket.level s.now = s.bucket.tokens := by
  rw [← h.refilled]
  exact TokenBucket.level_refilled (by rw [h.capacity]; exact h.full)

theorem tokens_le_level (hle : s.now ≤ now) : s.bucket.tokens ≤ s.bucket.level now := by
  have hgain := h.bucket.level_gain hle
  have hpos : 0 ≤ ((max rate 1 : Nat) : ℚ) * (now - s.now) :=
    mul_nonneg (Nat.cast_nonneg _) (by linarith)
  rw [h.level_now] at hgain
  exact le_trans (le_min (by linarith) h.full) hgain

theorem debt_le_level (hle : s.now ≤ now) : -maxDebt rate requests ≤ s.bucket.level now :=
  h.debt.trans (h.tokens_le_level hle)

theorem mem_requests (hcall : s.calls[i]? = some call) : call.n ∈ requests := by
  rw [← h.asked]
  exact List.mem_map.mpr ⟨call, List.mem_of_getElem? hcall, rfl⟩

theorem need_eq (n : Nat) : s.need n = min ((max n 1 : Nat) : ℚ) (max rate 1 : Nat) := by
  rw [need, h.capacity]

theorem map_set (hcall : s.calls[i]? = some call) (phase : AcquirePhase) :
    (s.calls.set i ⟨call.n, phase⟩).map AcquireCall.n = requests := by
  rw [List.map_set, ← h.asked]
  apply List.ext_getElem?
  intro j
  rw [List.getElem?_set]
  split
  · next hij =>
    subst hij
    obtain ⟨hlen, hget⟩ := List.getElem?_eq_some_iff.mp hcall
    simp [hlen, hget]
  · rfl

end Ok

theorem init_ok (rate : Nat) (requests : List Nat) (start : ℚ) :
    (sharing rate requests start).init.Ok rate requests where
  perSec := rfl
  capacity := rfl
  refilled := rfl
  full := le_refl _
  debt := by
    have hone := one_le_rate rate
    have hnonneg := maxDebt_nonneg rate requests
    show -maxDebt rate requests ≤ ((max rate 1 : Nat) : ℚ)
    linarith
  asked := by
    simp only [sharing, List.map_map]
    exact List.map_id' requests

theorem step_ok (hs : s.Ok rate requests) (h : s.step act = some (s', out)) :
    s'.Ok rate requests := by
  obtain ⟨hnow, call, hcall, -, hround⟩ := step_cases h
  have hlevel := hs.level_le act.now
  rcases hround with ⟨hroom, -, rfl⟩ | ⟨wait, -, -, -, rfl⟩
  · have hn := request_le rate (hs.mem_requests hcall)
    have hnonneg : (0 : ℚ) ≤ (max call.n 1 : Nat) := Nat.cast_nonneg _
    have hdebt := maxDebt_nonneg rate requests
    rw [hs.need_eq] at hroom
    refine ⟨hs.perSec, hs.capacity, rfl, ?_, ?_, hs.map_set hcall _⟩
    · show s.bucket.level act.now - (max call.n 1 : Nat) ≤ _
      linarith
    · show _ ≤ s.bucket.level act.now - (max call.n 1 : Nat)
      rcases min_choice ((max call.n 1 : Nat) : ℚ) ((max rate 1 : Nat) : ℚ) with hmin | hmin
      · rw [hmin] at hroom
        linarith
      · rw [hmin] at hroom
        linarith
  · exact ⟨hs.perSec, hs.capacity, rfl, hlevel, hs.debt_le_level hnow, hs.map_set hcall _⟩

theorem step_tokens (h : s.step act = some (s', out)) :
    s'.now = act.now ∧ s'.bucket.tokens + out.tokens = s.bucket.level act.now := by
  obtain ⟨-, call, -, -, hround⟩ := step_cases h
  rcases hround with ⟨-, rfl, rfl⟩ | ⟨wait, -, -, rfl, rfl⟩
  · refine ⟨rfl, ?_⟩
    simp only [RoundOutcome.tokens]
    ring
  · refine ⟨rfl, ?_⟩
    simp [RoundOutcome.tokens, refill]

theorem step_gain (hs : s.Ok rate requests) (h : s.step act = some (s', out)) :
    s'.bucket.tokens + out.tokens ≤
      s.bucket.tokens + (max rate 1 : Nat) * (s'.now - s.now) := by
  obtain ⟨hnow, htokens⟩ := step_tokens h
  have hlater := (step_cases h).1
  have hgain := hs.bucket.level_later hlater (Nat.cast_nonneg _)
  rw [hs.level_now] at hgain
  rw [htokens, hnow]
  exact hgain

/-- From the time `u` on, a round of the call finds the tokens that it needs. -/
structure Ready (s : SharedBucket) (i : Nat) (u : ℚ) : Prop where
  waiting : ∃ call, s.calls[i]? = some call ∧ call.phase ≠ .returned ∧
    ∀ t, s.now ≤ t → u ≤ t → s.need call.n ≤ s.bucket.level t

theorem Ready.granted {u : ℚ} (h : s.Ready i u) (hnow : s.now ≤ now) (hu : u ≤ now) :
    ∃ s' tokens, s.step ⟨i, now⟩ = some (s', .granted tokens) := by
  obtain ⟨call, hcall, hphase, hroom⟩ := h.waiting
  obtain ⟨s', hs'⟩ := step_granted hnow hcall hphase (hroom now hnow hu)
  exact ⟨s', _, hs'⟩

theorem refill_level (hs : s.Ok rate requests) {t : ℚ} (ht : now ≤ t) :
    (s.refill now).level t =
      min (s.bucket.level now + (t - now) * (max rate 1 : Nat)) (max rate 1 : Nat) := by
  show min (s.bucket.level now + max (t - now) 0 * s.bucket.ratePerSec) s.bucket.capacity = _
  rw [max_eq_left (sub_nonneg.mpr ht), hs.perSec, hs.capacity]

theorem level_le_refill (hs : s.Ok rate requests) {t : ℚ} (hnow : s.now ≤ now) (ht : now ≤ t) :
    s.bucket.level t ≤ (s.refill now).level t := by
  have hlater := (hs.bucket.later hnow).level_later ht (Nat.cast_nonneg _)
  rw [mul_comm] at hlater
  rw [refill_level hs ht]
  exact le_min hlater (hs.level_le t)

theorem ready_of_refused (hs : s.Ok rate requests) {wait : ℚ}
    (h : s.step act = some (s', .refused wait)) : s'.Ready act.call (act.now + wait) := by
  obtain ⟨hnow, call, hcall, -, hround⟩ := step_cases h
  rcases hround with ⟨-, hout, -⟩ | ⟨wait', hwait, hlow, hout, rfl⟩
  · cases hout
  · cases hout
    have hlen := (List.getElem?_eq_some_iff.mp hcall).1
    refine ⟨⟨call.n, .asleep (act.now + wait)⟩, List.getElem?_set_self hlen, by simp,
      fun t ht hu => ?_⟩
    have hpos : (0 : ℚ) < (max rate 1 : Nat) := lt_of_lt_of_le one_pos (one_le_rate rate)
    have hneed : s.need call.n ≤ (max rate 1 : Nat) := by
      rw [hs.need_eq]
      exact min_le_right _ _
    have hgain : s.need call.n - s.bucket.level act.now ≤
        (t - act.now) * (max rate 1 : Nat) := by
      rw [← div_le_iff₀ hpos, ← hs.perSec, ← hwait]
      linarith
    show s.need call.n ≤ (s.refill act.now).level t
    rw [refill_level hs ht]
    exact le_min (by linarith) hneed

theorem Ready.refused {u wait : ℚ} (hs : s.Ok rate requests) (hready : s.Ready i u)
    (h : s.step act = some (s', .refused wait)) : s'.Ready i u := by
  obtain ⟨call, hcall, hphase, hroom⟩ := hready.waiting
  obtain ⟨hnow, call', hcall', -, hround⟩ := step_cases h
  rcases hround with ⟨-, hout, -⟩ | ⟨wait', -, -, -, rfl⟩
  · cases hout
  · have hlevel : ∀ t, act.now ≤ t → u ≤ t → s.need call.n ≤ (s.refill act.now).level t :=
      fun t ht hu => (hroom t (hnow.trans ht) hu).trans (level_le_refill hs hnow ht)
    by_cases hi : act.call = i
    · subst hi
      rw [hcall] at hcall'
      obtain rfl := Option.some.inj hcall'
      have hlen := (List.getElem?_eq_some_iff.mp hcall).1
      exact ⟨⟨call.n, .asleep (act.now + wait')⟩, List.getElem?_set_self hlen, by simp, hlevel⟩
    · refine ⟨call, ?_, hphase, hlevel⟩
      simp only
      rw [List.getElem?_set_ne hi]
      exact hcall

theorem exists_ready (hs : s.Ok rate requests) (hcall : s.calls[i]? = some call)
    (hphase : call.phase ≠ .returned) : ∃ u, s.Ready i u := by
  have hpos : (0 : ℚ) < (max rate 1 : Nat) := lt_of_lt_of_le one_pos (one_le_rate rate)
  refine ⟨s.now + ((max rate 1 : Nat) - s.bucket.tokens) / (max rate 1 : Nat), call, hcall, hphase,
    fun t ht hu => ?_⟩
  have hgain := hs.bucket.level_gain ht
  have hlong : ((max rate 1 : Nat) : ℚ) - s.bucket.tokens ≤ (t - s.now) * (max rate 1 : Nat) := by
    rw [← div_le_iff₀ hpos]
    linarith
  rw [hs.level_now, mul_comm] at hgain
  rw [hs.need_eq]
  exact (min_le_right _ _).trans (le_trans (le_min (by linarith) (le_refl _)) hgain)

variable {start a b : ℚ} {tr : List BucketEvent} {t : SharedBucket}

theorem run_ok (h : (sharing rate requests start).Run (sharing rate requests start).init tr t) :
    t.Ok rate requests :=
  h.reachable .init |>.invariant (init_ok rate requests start) fun _ _ _ _ _ hs hstep =>
    step_ok hs hstep

theorem grantedIn_concat (a b : ℚ) (tr : List BucketEvent) (e : BucketEvent) :
    grantedIn a b (tr ++ [e]) =
      grantedIn a b tr + if a ≤ e.act.now ∧ e.act.now ≤ b then e.out.tokens else 0 := by
  simp [grantedIn]

structure Spent (rate : Nat) (requests : List Nat) (a b : ℚ) (tr : List BucketEvent)
    (t : SharedBucket) : Prop where
  ok : t.Ok rate requests
  before : t.now < a → grantedIn a b tr = 0
  during : a ≤ t.now → t.now ≤ b →
    (grantedIn a b tr : ℚ) + t.bucket.tokens ≤
      (max rate 1 : Nat) + (max rate 1 : Nat) * (t.now - a)
  overall : (grantedIn a b tr : ℚ) ≤
    (max rate 1 : Nat) + (max rate 1 : Nat) * (b - a) + maxDebt rate requests

theorem Spent.step (hspent : Spent rate requests a b tr s)
    (h : s.step act = some (s', out)) :
    Spent rate requests a b (tr ++ [⟨s, act, out, s'⟩]) s' := by
  have hs := hspent.ok
  have hs' := step_ok hs h
  have hgain := step_gain hs h
  have hlater := (step_cases h).1
  obtain ⟨hnow, htokens⟩ := step_tokens h
  have hlevel := hs.level_le act.now
  have hdebt := hs'.debt
  have hsum := grantedIn_concat a b tr ⟨s, act, out, s'⟩
  simp only [← hnow] at hsum
  have hrate : (0 : ℚ) ≤ (max rate 1 : Nat) := Nat.cast_nonneg _
  by_cases hin : a ≤ s'.now ∧ s'.now ≤ b
  · rw [if_pos hin] at hsum
    have hduring : (grantedIn a b (tr ++ [⟨s, act, out, s'⟩]) : ℚ) + s'.bucket.tokens ≤
        (max rate 1 : Nat) + (max rate 1 : Nat) * (s'.now - a) := by
      rw [hsum, Nat.cast_add]
      by_cases hfirst : s.now < a
      · -- the first round in the window: the bucket is full at most
        have hroom : (0 : ℚ) ≤ (max rate 1 : Nat) * (s'.now - a) :=
          mul_nonneg hrate (by linarith [hin.1])
        rw [hspent.before hfirst, Nat.cast_zero]
        linarith
      · have hsofar := hspent.during (not_lt.mp hfirst) (by linarith [hin.2])
        have hsplit : ((max rate 1 : Nat) : ℚ) * (s'.now - a) =
            (max rate 1 : Nat) * (s.now - a) + (max rate 1 : Nat) * (s'.now - s.now) := by ring
        linarith
    have hend : ((max rate 1 : Nat) : ℚ) * (s'.now - a) ≤ (max rate 1 : Nat) * (b - a) :=
      mul_le_mul_of_nonneg_left (by linarith [hin.2]) hrate
    refine ⟨hs', fun hearly => absurd hin.1 (not_le.mpr hearly), fun _ _ => hduring, ?_⟩
    linarith
  · rw [if_neg hin, Nat.add_zero] at hsum
    refine ⟨hs', fun hearly => ?_, fun ha hb => absurd ⟨ha, hb⟩ hin, ?_⟩
    · rw [hsum]
      exact hspent.before (by linarith)
    · rw [hsum]
      exact hspent.overall

theorem run_spent (h : (sharing rate requests start).Run (sharing rate requests start).init tr t)
    (hab : a ≤ b) : Spent rate requests a b tr t := by
  have hrate : (0 : ℚ) ≤ (max rate 1 : Nat) := Nat.cast_nonneg _
  have hdebt := maxDebt_nonneg rate requests
  refine h.history ?_ fun tr s act s' out _ hspent hstep => hspent.step hstep
  refine ⟨init_ok rate requests start, fun _ => rfl, fun ha _ => ?_, ?_⟩
  · have hroom : (0 : ℚ) ≤ (max rate 1 : Nat) * (start - a) := mul_nonneg hrate (by
      have hstart : a ≤ start := ha
      linarith)
    show ((0 : Nat) : ℚ) + ((max rate 1 : Nat) : ℚ) ≤ _ + ((max rate 1 : Nat) : ℚ) * (start - a)
    rw [Nat.cast_zero]
    linarith
  · have hroom : (0 : ℚ) ≤ (max rate 1 : Nat) * (b - a) := mul_nonneg hrate (by linarith)
    show ((0 : Nat) : ℚ) ≤ _
    rw [Nat.cast_zero]
    linarith

theorem Ready.run {u : ℚ} (hs : s.Ok rate requests) (hready : s.Ready i u)
    (h : (sharing rate requests start).Run s tr t)
    (hnone : ∀ e ∈ tr, e.out.isGranted = false) : t.Ready i u := by
  have hall : t.Ok rate requests ∧ t.Ready i u := by
    induction h with
    | nil => exact ⟨hs, hready⟩
    | @snoc t u' tr act out _ hstep ih =>
      obtain ⟨hok, hready'⟩ := ih fun e he => hnone e (List.mem_append_left _ he)
      have hlast : out.isGranted = false := hnone ⟨t, act, out, u'⟩ (by simp)
      cases out with
      | granted tokens => cases hlast
      | refused wait => exact ⟨step_ok hok hstep, hready'.refused hok hstep⟩
  exact hall.2

def grantCount (tr : List BucketEvent) : Nat := tr.countP fun e => e.out.isGranted

theorem grantCount_concat (tr : List BucketEvent) (e : BucketEvent) :
    grantCount (tr ++ [e]) = grantCount tr + if e.out.isGranted then 1 else 0 := by
  simp [grantCount]

theorem refusals_concat (i : Nat) (tr : List BucketEvent) (e : BucketEvent) :
    refusals i (tr ++ [e]) =
      refusals i tr + if e.act.call = i ∧ e.out.isGranted = false then 1 else 0 := by
  simp [refusals]

theorem run_returned
    (h : (sharing rate requests start).Run (sharing rate requests start).init tr t) :
    grantCount tr = t.calls.countP (fun c => c.phase = .returned) := by
  refine h.history (P := fun tr t => grantCount tr = t.calls.countP (fun c => c.phase = .returned))
    ?_ fun tr s act s' out _ ih hstep => ?_
  · simp [sharing, grantCount, List.countP_map, Function.comp_def]
  · obtain ⟨-, call, hcall, hphase, hround⟩ := step_cases hstep
    obtain ⟨hlen, hget⟩ := List.getElem?_eq_some_iff.mp hcall
    rw [grantCount_concat, ih]
    rcases hround with ⟨-, rfl, rfl⟩ | ⟨wait, -, -, rfl, rfl⟩
    · simp [List.countP_set hlen, hget, hphase, RoundOutcome.isGranted]
    · simp [List.countP_set hlen, hget, hphase, RoundOutcome.isGranted]

theorem asleep_of_refused {wait : ℚ} (h : s.step act = some (s', .refused wait)) :
    ∃ n, s'.calls[act.call]? = some ⟨n, .asleep (act.now + wait)⟩ ∧
      ∀ j, j ≠ act.call → s'.calls[j]? = s.calls[j]? := by
  obtain ⟨-, call, hcall, -, hround⟩ := step_cases h
  rcases hround with ⟨-, hout, -⟩ | ⟨wait', -, -, hout, rfl⟩
  · cases hout
  · cases hout
    have hlen := (List.getElem?_eq_some_iff.mp hcall).1
    exact ⟨call.n, List.getElem?_set_self hlen, fun j hj => List.getElem?_set_ne (Ne.symm hj)⟩

/-- The refusals of a call that sleeps out: one for every grant, and one more while it
sleeps and will be granted. -/
def Patient (i : Nat) (tr : List BucketEvent) (s : SharedBucket) : Prop :=
  refusals i tr ≤ grantCount tr ∨
    ∃ n u, s.calls[i]? = some ⟨n, .asleep u⟩ ∧ s.Ready i u ∧ refusals i tr ≤ grantCount tr + 1

theorem patient_step (hs : s.Ok rate requests) (hpatient : Patient i tr s)
    (h : s.step act = some (s', out)) (hsleeps : SleepsOut i (tr ++ [⟨s, act, out, s'⟩])) :
    Patient i (tr ++ [⟨s, act, out, s'⟩]) s' := by
  have hgrants := grantCount_concat tr ⟨s, act, out, s'⟩
  have hrefusals := refusals_concat i tr ⟨s, act, out, s'⟩
  cases out with
  | granted tokens =>
    simp only [RoundOutcome.isGranted, Bool.true_eq_false, and_false, if_false, if_true]
      at hgrants hrefusals
    rcases hpatient with hle | ⟨n, u, -, -, hle⟩
    · exact .inl (by omega)
    · exact .inl (by omega)
  | refused wait =>
    obtain ⟨n, hasleep, hothers⟩ := asleep_of_refused h
    simp only [RoundOutcome.isGranted, and_true, Bool.false_eq_true, if_false, Nat.add_zero]
      at hgrants hrefusals
    by_cases hi : act.call = i
    · subst hi
      rw [if_pos rfl] at hrefusals
      rcases hpatient with hle | ⟨n', u, hcall, hready, -⟩
      · exact .inr ⟨n, act.now + wait, hasleep, ready_of_refused hs h, by omega⟩
      · -- it has slept long enough, and is not refused again
        have hu := hsleeps ⟨s, act, .refused wait, s'⟩ (by simp) rfl _ _ hcall rfl
        obtain ⟨s'', tokens, hgranted⟩ := hready.granted (step_cases h).1 hu
        rw [hgranted] at h
        cases h
    · rw [if_neg hi, Nat.add_zero] at hrefusals
      rcases hpatient with hle | ⟨n', u, hcall, hready, hle⟩
      · exact .inl (by omega)
      · refine .inr ⟨n', u, ?_, hready.refused hs h, by omega⟩
        rw [hothers i (Ne.symm hi)]
        exact hcall

theorem refusals_le
    (h : (sharing rate requests start).Run (sharing rate requests start).init tr t)
    (hsleeps : SleepsOut i tr) : refusals i tr ≤ requests.length := by
  have hall : SleepsOut i tr → Patient i tr t := by
    refine h.history (P := fun tr t => SleepsOut i tr → Patient i tr t)
      (fun _ => .inl (Nat.zero_le _)) fun tr s act s' out hrun ih hstep hsleeps => ?_
    exact patient_step (run_ok hrun) (ih fun e he => hsleeps e (List.mem_append_left _ he)) hstep
      hsleeps
  have hreturned := run_returned h
  have hlen : t.calls.length = requests.length := by
    rw [← (run_ok h).asked, List.length_map]
  rcases hall hsleeps with hle | ⟨n, u, hcall, -, hle⟩
  · have hcount := List.countP_le_length (p := fun c : AcquireCall => c.phase = .returned)
      (l := t.calls)
    omega
  · -- the call itself has not returned
    have hcount : t.calls.countP (fun c => c.phase = .returned) < t.calls.length :=
      List.countP_lt_length_iff.mpr ⟨_, List.mem_of_getElem? hcall, by simp⟩
    omega

end SharedBucket

/-- What holds of a bucket after the rounds `tr` of its calls. -/
structure BucketBounds (requests : List Nat) (tr : List BucketEvent) (t : SharedBucket) : Prop where
  full : t.bucket.tokens ≤ t.bucket.capacity
  debt : -max 0 ((largest requests : ℚ) - t.bucket.capacity) ≤ t.bucket.tokens
  window : ∀ a b : ℚ, a ≤ b → (grantedIn a b tr : ℚ) ≤ t.bucket.capacity +
    t.bucket.ratePerSec * (b - a) + max 0 ((largest requests : ℚ) - t.bucket.capacity)
  woken : ∀ tr₁ e tr₂ wait, tr = tr₁ ++ e :: tr₂ → e.out = .refused wait →
    (∀ e' ∈ tr₂, e'.out.isGranted = false) → ∀ now, t.now ≤ now → e.act.now + wait ≤ now →
      ∃ t' tokens, t.step ⟨e.act.call, now⟩ = some (t', .granted tokens)
  satisfiable : ∀ i call, t.calls[i]? = some call → call.phase ≠ .returned →
    ∃ u, ∀ now, t.now ≤ now → u ≤ now → ∃ t' tokens, t.step ⟨i, now⟩ = some (t', .granted tokens)
  refused : ∀ i, SleepsOut i tr → refusals i tr ≤ requests.length

/-- One bucket under any calls and any order of their rounds. -/
theorem bucket_bounds {rate : Nat} {requests : List Nat} {start : ℚ} {tr : List BucketEvent}
    {t : SharedBucket}
    (h : (sharing rate requests start).Run (sharing rate requests start).init tr t) :
    t.bucket.ratePerSec = (max rate 1 : Nat) ∧ t.bucket.capacity = (max rate 1 : Nat) ∧
      BucketBounds requests tr t := by
  have hok := SharedBucket.run_ok h
  refine ⟨hok.perSec, hok.capacity, ?_, ?_, fun a b hab => ?_, ?_, ?_, fun i hsleeps =>
    SharedBucket.refusals_le h hsleeps⟩
  · rw [hok.capacity]
    exact hok.full
  · rw [hok.capacity]
    exact hok.debt
  · rw [hok.capacity, hok.perSec]
    exact (SharedBucket.run_spent h hab).overall
  · intro tr₁ e tr₂ wait htr hout hnone now hnow hwait
    obtain ⟨hbefore, hstep, hafter⟩ := h.split htr
    rw [hout] at hstep
    have hpre := SharedBucket.run_ok hbefore
    have hready := SharedBucket.ready_of_refused hpre hstep
    exact (hready.run (SharedBucket.step_ok hpre hstep) hafter hnone).granted hnow hwait
  · intro i call hcall hphase
    obtain ⟨u, hready⟩ := SharedBucket.exists_ready hok hcall hphase
    exact ⟨u, fun now hnow hu => hready.granted hnow hu⟩

/-- A request past the capacity, and one that waits until the debt is paid. -/
theorem bucket_bounds_small :
    let calls := sharing 2 [3, 1] 0
    let rounds : List AcquireRound := [⟨0, 0⟩, ⟨1, 0⟩, ⟨1, 1⟩]
    (calls.trace calls.init rounds).map Event.out = [.granted 3, .refused 1, .granted 1] ∧
      BucketBounds [3, 1] (calls.trace calls.init rounds) (calls.play calls.init rounds) :=
  ⟨by decide +kernel, (bucket_bounds (Machine.run_play (sharing 2 [3, 1] 0) _ _)).2.2⟩

end CvdBench.Worker
