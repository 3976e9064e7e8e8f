import CvdBench.Worker.Pacing

/-!
Every task of a worker has a bucket of its own. So a limit holds for a worker with one task,
and a worker with more exceeds it.
-/

set_option autoImplicit false

namespace CvdBench.Worker

open Foundation Spec

theorem Workload.makeBucket_limit (w : Workload) (rate : Nat) (now : ℚ) :
    w.makeBucket (some (w.limit rate)) now = some (.new rate now) := by
  cases w <;> rfl

theorem Workload.acquires_one (w : Workload) : w.acquires 1 = true := by
  cases w <;> decide

theorem Workload.acquires_pos {w : Workload} {n : Nat} (h : w.acquires n = true) : 0 < n := by
  cases w <;> simp [acquires] at h <;> omega

/-- The tokens that a task could take at the given time. -/
def PacedTask.level (r now : ℚ) : PacedTask → ℚ
  | .running (some b) | .asleep b _ _ => b.level now
  | _ => r

def PacedTask.Ok (r now : ℚ) : PacedTask → Prop
  | .spawned => True
  | .running none => False
  | .running (some b) => b.Ok r now
  | .asleep b n _ => b.Ok r now ∧ 0 < n

section

variable {w : Workload} {rate : Nat} {r now now' : ℚ}

theorem PacedTask.Ok.level_le {task : PacedTask} (h : task.Ok r now) : task.level r now ≤ r := by
  cases task with
  | spawned => exact le_refl r
  | running bucket =>
    cases bucket with
    | none => exact le_refl r
    | some b => exact TokenBucket.Ok.level_le h now
  | asleep b n wakeAt => exact h.1.level_le now

theorem PacedTask.Ok.later {task : PacedTask} (h : task.Ok r now) (hle : now ≤ now')
    (hr : 0 ≤ r) :
    task.Ok r now' ∧ task.level r now' ≤ task.level r now + r * (now' - now) := by
  have hgain : 0 ≤ r * (now' - now) := mul_nonneg hr (by linarith)
  cases task with
  | spawned => exact ⟨trivial, by simp only [level]; linarith⟩
  | running bucket =>
    cases bucket with
    | none => exact absurd h id
    | some b => exact ⟨TokenBucket.Ok.later h hle, TokenBucket.Ok.level_later h hle hr⟩
  | asleep b n wakeAt => exact ⟨⟨h.1.later hle, h.2⟩, h.1.level_later hle hr⟩

/-- The state of a worker with one task. -/
structure Paced.Solo (r : ℚ) (s : Paced) (task : PacedTask) : Prop where
  tasks : s.tasks = [task]
  ok : task.Ok r s.now

structure Solo.Steps (r : ℚ) (s s' : Paced) (task : PacedTask) (out : Option Nat) : Prop where
  forward : s.now ≤ s'.now
  level : ∃ task', s'.Solo r task' ∧
    task'.level r s'.now + (out.getD 0 : Nat) ≤ task.level r s.now + r * (s'.now - s.now)
  granted : ∀ n, out = some n → min (n : ℚ) r ≤ task.level r s.now

theorem Solo.attempt {s : Paced} {b : TokenBucket} {n : Nat} {task : PacedTask}
    (htasks : s.tasks = [task]) (hb : b.Ok r s.now) (hlevel : task.level r s.now = b.level s.now)
    (hn : 0 < n) : Solo.Steps r s (s.attempt 0 b n).1 task (s.attempt 0 b n).2 := by
  obtain ⟨hok, hround⟩ := b.attempt_spec hb hn
  unfold Paced.attempt
  cases hattempt : b.attempt n s.now with
  | mk b' wait =>
    rw [hattempt] at hok hround
    cases wait with
    | none =>
      rcases hround with ⟨_, hroom, hafter⟩ | ⟨hsome, _⟩
      · refine ⟨le_refl _, ⟨.running (some b'), ⟨by simp [htasks], hok⟩, ?_⟩, ?_⟩
        · have hnow : b'.level s.now = b.level s.now - n := hafter
          show b'.level s.now + (n : ℚ) ≤ task.level r s.now + r * (s.now - s.now)
          rw [hlevel, hnow]
          linarith
        · intro m hm
          cases hm
          rw [hlevel]
          exact hroom
      · cases hsome
    | some wait =>
      rcases hround with ⟨hnone, _⟩ | ⟨_, _, hafter⟩
      · cases hnone
      · refine ⟨le_refl _, ⟨.asleep b' n (s.now + wait), ⟨by simp [htasks], hok, hn⟩, ?_⟩, ?_⟩
        · have hnow : b'.level s.now = b.level s.now := hafter
          show b'.level s.now + ((0 : Nat) : ℚ) ≤ task.level r s.now + r * (s.now - s.now)
          rw [hlevel, hnow, Nat.cast_zero]
          linarith
        · intro m hm
          cases hm

theorem Solo.step {s s' : Paced} {act : PaceAct} {out : Option Nat} {task : PacedTask}
    (hs : s.Solo (max rate 1 : Nat) task)
    (h : s.step w (some (w.limit rate)) act = some (s', out)) :
    Solo.Steps (max rate 1 : Nat) s s' task out := by
  have hpos : (0 : ℚ) ≤ (max rate 1 : Nat) := Nat.cast_nonneg _
  obtain ⟨htasks, hok⟩ := hs
  -- only the task 0 is there to act
  have honly : ∀ i t, s.tasks[i]? = some t → i = 0 ∧ t = task := by
    intro i t hi
    rw [htasks] at hi
    cases i with
    | zero => exact ⟨rfl, (Option.some.inj hi).symm⟩
    | succ i => cases hi
  cases act with
  | elapse dt =>
    simp only [Paced.step] at h
    split at h
    · next hdt =>
      cases h
      obtain ⟨hlater, hlevel⟩ := hok.later (by linarith : s.now ≤ s.now + dt) hpos
      refine ⟨by simp only; linarith, ⟨task, ⟨htasks, hlater⟩, ?_⟩, ?_⟩
      · simpa using hlevel
      · intro n hn
        cases hn
    · cases h
  | start i =>
    simp only [Paced.step] at h
    split at h
    · next hi =>
      obtain ⟨rfl, rfl⟩ := honly _ _ hi
      rw [w.makeBucket_limit] at h
      cases h
      have hnew := TokenBucket.new_ok rate s.now
      refine ⟨le_refl _, ⟨.running (some (.new rate s.now)), ⟨by simp [htasks], hnew⟩, ?_⟩, ?_⟩
      · have hle := hnew.level_le s.now
        simpa [PacedTask.level] using hle
      · intro n hn
        cases hn
    · cases h
  | acquire i n =>
    simp only [Paced.step] at h
    split at h
    · next bucket hi =>
      obtain ⟨rfl, rfl⟩ := honly _ _ hi
      split at h
      · next hn =>
        cases bucket with
        | none => exact absurd hok id
        | some b =>
          have hsteps := Solo.attempt htasks hok rfl (Workload.acquires_pos hn)
          rwa [Option.some.inj h] at hsteps
      · cases h
    · cases h
  | wake i =>
    simp only [Paced.step] at h
    split at h
    · next b n wakeAt hi =>
      obtain ⟨rfl, rfl⟩ := honly _ _ hi
      split at h
      · have hsteps := Solo.attempt htasks hok.1 rfl hok.2
        rwa [Option.some.inj h] at hsteps
      · cases h
    · cases h

variable {s t : Paced} {tr : List PaceStep} {task : PacedTask} {c : Nat} {a b : ℚ}

theorem grants_late (h : (pacing w (some (w.limit rate)) c).Run s tr t)
    (hs : s.Solo (max rate 1 : Nat) task) (hlate : b < s.now) : grants a b tr = [] := by
  induction tr generalizing s task with
  | nil => rfl
  | cons e tr ih =>
    obtain ⟨rfl, hstep, hrest⟩ := h.first
    obtain ⟨hforward, ⟨task', hs', _⟩, _⟩ := Solo.step hs hstep
    rw [grants_cons_of_late hlate]
    exact ih hrest hs' (by linarith)

theorem grants_inside (h : (pacing w (some (w.limit rate)) c).Run s tr t)
    (hs : s.Solo (max rate 1 : Nat) task) (ha : a ≤ s.now) :
    grants a b tr = [] ∨ ∃ n ∈ grants a b tr, ((grants a b tr).sum : ℚ) ≤
      task.level (max rate 1 : Nat) s.now + (max rate 1 : Nat) * (b - s.now) +
        (n - min (n : ℚ) (max rate 1 : Nat)) := by
  induction tr generalizing s task with
  | nil => exact .inl rfl
  | cons e tr ih =>
    by_cases hlate : b < s.now
    · exact .inl (grants_late h hs hlate)
    obtain ⟨rfl, hstep, hrest⟩ := h.first
    obtain ⟨hforward, ⟨task', hs', hlevel⟩, hgranted⟩ := Solo.step hs hstep
    have hlater := ih hrest hs' (by linarith)
    have hroom : (0 : ℚ) ≤ (max rate 1 : Nat) * (b - e.pre.now) :=
      mul_nonneg (Nat.cast_nonneg _) (by linarith [not_lt.mp hlate])
    cases hout : e.out with
    | none =>
      rw [grants_cons_of_none hout]
      rw [hout, Option.getD_none, Nat.cast_zero, add_zero] at hlevel
      rcases hlater with hnil | ⟨n, hn, hsum⟩
      · exact .inl hnil
      · exact .inr ⟨n, hn, by linarith⟩
    | some m =>
      rw [grants_cons_of_some hout ha (not_lt.mp hlate)]
      rw [hout, Option.getD_some] at hlevel
      have hthere := hgranted m hout
      rcases hlater with hnil | ⟨n, hn, hsum⟩
      · refine .inr ⟨m, List.mem_cons_self, ?_⟩
        rw [hnil, List.sum_cons, List.sum_nil, add_zero]
        linarith
      · refine .inr ⟨n, List.mem_cons_of_mem m hn, ?_⟩
        rw [List.sum_cons, Nat.cast_add]
        linarith

theorem grants_window (h : (pacing w (some (w.limit rate)) c).Run s tr t)
    (hs : s.Solo (max rate 1 : Nat) task) :
    grants a b tr = [] ∨ ∃ n ∈ grants a b tr, ((grants a b tr).sum : ℚ) ≤
      (max rate 1 : Nat) + (max rate 1 : Nat) * (b - a) +
        (n - min (n : ℚ) (max rate 1 : Nat)) := by
  induction tr generalizing s task with
  | nil => exact .inl rfl
  | cons e tr ih =>
    by_cases hearly : s.now < a
    · obtain ⟨rfl, hstep, hrest⟩ := h.first
      obtain ⟨_, ⟨task', hs', _⟩, _⟩ := Solo.step hs hstep
      rw [grants_cons_of_early hearly]
      exact ih hrest hs'
    · have hstarted := not_lt.mp hearly
      have hgain : (max rate 1 : Nat) * (b - s.now) ≤ ((max rate 1 : Nat) : ℚ) * (b - a) :=
        mul_le_mul_of_nonneg_left (by linarith) (Nat.cast_nonneg _)
      have hfull := hs.ok.level_le
      rcases @grants_inside w rate s t (e :: tr) task c a b h hs hstarted with hnil | ⟨n, hn, hsum⟩
      · exact .inl hnil
      · exact .inr ⟨n, hn, by linarith⟩

theorem withinRate_of_solo (h : (pacing w (some (w.limit rate)) 1).Run
    (pacing w (some (w.limit rate)) 1).init tr t) (hrate : 1 ≤ rate) : WithinRate rate tr := by
  intro a b hab
  have hmax : max rate 1 = rate := by omega
  have hs : (pacing w (some (w.limit rate)) 1).init.Solo (max rate 1 : Nat) .spawned :=
    ⟨rfl, trivial⟩
  rcases @grants_window w rate _ t tr .spawned 1 a b h hs with hnil | ⟨n, hn, hsum⟩
  · refine ⟨0, .inl rfl, ?_⟩
    have hroom : (0 : ℚ) ≤ rate * (b - a) :=
      mul_nonneg (Nat.cast_nonneg _) (by linarith)
    rw [hnil, List.sum_nil, Nat.cast_zero]
    positivity
  · rw [hmax] at hsum
    by_cases hover : rate < n
    · refine ⟨n, .inr ⟨hover, hn⟩, ?_⟩
      have hcap : min (n : ℚ) rate = rate := min_eq_right (by exact_mod_cast hover.le)
      rw [hcap] at hsum
      have hpos : (0 : ℚ) ≤ rate := Nat.cast_nonneg _
      linarith
    · refine ⟨0, .inl rfl, ?_⟩
      have hsmall : min (n : ℚ) rate = n := min_eq_left (by exact_mod_cast not_lt.mp hover)
      rw [hsmall] at hsum
      rw [Nat.cast_zero]
      linarith

variable {q : Option RateLimit}

theorem Paced.attempt_granted (i : Nat) {bucket : TokenBucket} {n : Nat}
    (h : (bucket.attempt n s.now).2 = none) : s.attempt i bucket n =
      ({ s with tasks := s.tasks.set i (.running (some (bucket.attempt n s.now).1)) }, some n) := by
  unfold Paced.attempt
  cases hround : bucket.attempt n s.now with
  | mk bucket' wait =>
    rw [hround] at h
    obtain rfl : wait = none := h
    rfl

/-- A task takes what is in its bucket in one instant, one token after the other. -/
theorem burst {i : Nat} {bucket : TokenBucket} (hr : 1 ≤ r)
    (hi : s.tasks[i]? = some (.running (some bucket))) (hok : bucket.Ok r s.now) (k : Nat)
    (hk : (k : ℚ) ≤ bucket.level s.now) :
    ∃ tr t bucket', (pacing w q c).Run s tr t ∧
      (∀ a b, a ≤ s.now → s.now ≤ b → grants a b tr = List.replicate k 1) ∧
      t.now = s.now ∧ t.tasks = s.tasks.set i (.running (some bucket')) ∧
      bucket'.Ok r s.now ∧ bucket'.level s.now = bucket.level s.now - k := by
  obtain ⟨hlen, hget⟩ := List.getElem?_eq_some_iff.mp hi
  induction k with
  | zero =>
    refine ⟨[], s, bucket, .nil s, fun _ _ _ _ => rfl, rfl, ?_, hok, by simp⟩
    rw [← hget, List.set_getElem_self]
  | succ k ih =>
    rw [Nat.cast_succ] at hk
    obtain ⟨tr, t, bucket', hrun, hgrants, hnow, htasks, hok', hlevel⟩ := ih (by linarith)
    have hti : t.tasks[i]? = some (.running (some bucket')) := by
      rw [htasks, List.getElem?_set_self hlen]
    obtain ⟨hok'', hround⟩ := bucket'.attempt_spec hok' Nat.one_pos
    rcases hround with ⟨hnone, _, hafter⟩ | ⟨_, hlow, _⟩
    · have hstep : (pacing w q c).step t (.acquire i 1) =
          some ({ t with tasks := t.tasks.set i (.running (some (bucket'.attempt 1 t.now).1)) },
            some 1) := by
        rw [← hnow] at hnone
        rw [← Paced.attempt_granted i hnone]
        simp only [pacing, Paced.step, hti, w.acquires_one, if_true]
      refine ⟨_, _, (bucket'.attempt 1 t.now).1, hrun.snoc hstep, ?_, hnow, ?_, ?_, ?_⟩
      · intro a b ha hb
        rw [grants_append, hgrants a b ha hb,
          grants_cons_of_some rfl (by simp only; linarith) (by simp only; linarith)]
        simp [grants, List.replicate_succ']
      · simp only [htasks, List.set_set]
      · rw [hnow]
        exact hok''
      · rw [hnow, hafter, hlevel, Nat.cast_succ]
        push_cast
        ring
    · rw [hlevel, Nat.cast_one, min_eq_left hr] at hlow
      linarith

theorem start_full {i : Nat} (hi : s.tasks[i]? = some .spawned) :
    (pacing w (some (w.limit rate)) c).step s (.start i) =
      some ({ s with tasks := s.tasks.set i (.running (some (.new rate s.now))) }, none) := by
  simp only [pacing, Paced.step, hi, w.makeBucket_limit]

theorem start_burst {i k : Nat} (hi : s.tasks[i]? = some .spawned) (hk : k ≤ max rate 1) :
    ∃ tr t bucket, (pacing w (some (w.limit rate)) c).Run s tr t ∧
      (∀ a b, a ≤ s.now → s.now ≤ b → grants a b tr = List.replicate k 1) ∧
      t.now = s.now ∧ t.tasks = s.tasks.set i (.running (some bucket)) ∧
      bucket.Ok (max rate 1 : Nat) s.now ∧ bucket.level s.now = (max rate 1 : Nat) - k := by
  obtain ⟨hlen, _⟩ := List.getElem?_eq_some_iff.mp hi
  have hone : (1 : ℚ) ≤ (max rate 1 : Nat) := by exact_mod_cast Nat.le_max_right rate 1
  have hfull := TokenBucket.new_level rate s.now
  obtain ⟨tr, t, bucket, hrun, hgrants, hnow, htasks, hok, hlevel⟩ :=
    burst (w := w) (c := c) (q := some (w.limit rate))
      (s := { s with tasks := s.tasks.set i (.running (some (.new rate s.now))) }) hone
      (List.getElem?_set_self hlen) (TokenBucket.new_ok rate s.now) k
      (by rw [hfull]; exact_mod_cast hk)
  refine ⟨_, t, bucket, (Machine.Run.single (start_full hi)).append hrun, ?_, hnow, ?_, hok, ?_⟩
  · intro a b ha hb
    rw [List.singleton_append, grants_cons_of_none rfl]
    exact hgrants a b ha hb
  · rw [htasks]
    exact List.set_set ..
  · rw [hlevel, hfull]

theorem two_tasks_exceed (w : Workload) (hc : 2 ≤ c) (hrate : 1 ≤ rate) :
    ∃ tr t, (pacing w (some (w.limit rate)) c).Run (pacing w (some (w.limit rate)) c).init tr t ∧
      ¬ WithinRate rate tr := by
  have hspawned : ∀ i, i < c →
      (pacing w (some (w.limit rate)) c).init.tasks[i]? = some .spawned := by
    intro i hi
    simp [pacing, hi]
  obtain ⟨tr, t, bucket, hrun, hgrants, hnow, htasks, _⟩ :=
    start_burst (w := w) (c := c) (k := rate) (hspawned 0 (by omega)) (Nat.le_max_left rate 1)
  have hone : t.tasks[1]? = some .spawned := by
    rw [htasks, List.getElem?_set_ne (by omega)]
    exact hspawned 1 (by omega)
  obtain ⟨tr', t', _, hrun', hgrants', _⟩ :=
    start_burst (w := w) (c := c) (k := 1) hone (Nat.le_max_right rate 1)
  have hall : grants 0 0 (tr ++ tr') = List.replicate rate 1 ++ [1] := by
    rw [hnow] at hgrants'
    rw [grants_append, hgrants 0 0 (le_refl _) (le_refl _), hgrants' 0 0 (le_refl _) (le_refl _)]
    rfl
  refine ⟨tr ++ tr', t', hrun.append hrun', ?_⟩
  intro hwithin
  obtain ⟨excess, hover, hle⟩ := hwithin 0 0 (le_refl _)
  have hzero : excess = 0 := by
    rcases hover with hzero | ⟨hlt, hmem⟩
    · exact hzero
    · rw [hall] at hmem
      simp at hmem
      omega
  rw [hall, hzero] at hle
  simp at hle
  linarith

theorem zero_rate_exceeds (w : Workload) (hc : 1 ≤ c) :
    ∃ tr t, (pacing w (some (w.limit 0)) c).Run (pacing w (some (w.limit 0)) c).init tr t ∧
      ¬ WithinRate 0 tr := by
  have hpos : 0 < c := hc
  have hspawned : (pacing w (some (w.limit 0)) c).init.tasks[0]? = some .spawned := by
    simp [pacing, hpos]
  obtain ⟨tr, t, bucket, hrun, hgrants, hnow, htasks, hok, hlevel⟩ :=
    start_burst (w := w) (c := c) (k := 1) hspawned (Nat.le_max_right 0 1)
  have hrate : ((max 0 1 : Nat) : ℚ) = 1 := by norm_num
  rw [hrate] at hok hlevel
  have hzero : t.now = 0 := hnow
  have htick : (pacing w (some (w.limit 0)) c).step t (.elapse 1) =
      some ({ t with now := t.now + 1 }, none) := rfl
  -- a second later the bucket is full again
  have hfull : ((1 : Nat) : ℚ) ≤ bucket.level (t.now + 1) := by
    have hgain := hok.level_gain (by rw [hnow]; linarith : _ ≤ t.now + 1)
    rw [hlevel, hnow] at hgain
    rw [hnow]
    simpa using hgain
  have hrunning : ({ t with now := t.now + 1 } : Paced).tasks[0]? =
      some (.running (some bucket)) := by
    show t.tasks[0]? = _
    rw [htasks]
    exact List.getElem?_set_self (List.getElem?_eq_some_iff.mp hspawned).1
  obtain ⟨tr', t', _, hrun', hgrants', _⟩ :=
    burst (w := w) (c := c) (q := some (w.limit 0)) (le_refl 1) hrunning
      (hok.later (by rw [hnow]; linarith)) 1 hfull
  have hall : grants 0 1
      (tr ++ [⟨t, .elapse 1, none, { t with now := t.now + 1 }⟩] ++ tr') = [1, 1] := by
    rw [grants_append, grants_append, hgrants 0 1 (le_refl _) (by norm_num [pacing]),
      grants_cons_of_none rfl, hgrants' 0 1 (by simp [hzero]) (by simp [hzero])]
    rfl
  refine ⟨_, t', (hrun.snoc htick).append hrun', ?_⟩
  intro hwithin
  obtain ⟨excess, hover, hle⟩ := hwithin 0 1 (by norm_num)
  rw [hall] at hover hle
  have hsmall : excess ≤ 1 := by
    rcases hover with hzero | ⟨_, hmem⟩
    · omega
    · simp at hmem
      omega
  have hsmall' : (excess : ℚ) ≤ 1 := by exact_mod_cast hsmall
  norm_num at hle
  linarith

end

/-- The limit bounds a worker in all its schedules if and only if the workload has one task
and the rate is not zero. -/
theorem rate_limit_per_worker_iff (w : Workload) (rate c : Nat) (hc : 1 ≤ c) :
    (∀ tr t, (pacing w (some (w.limit rate)) c).Run (pacing w (some (w.limit rate)) c).init tr t →
      WithinRate rate tr) ↔ c = 1 ∧ 1 ≤ rate := by
  constructor
  · intro hall
    by_contra hcond
    rcases Nat.eq_zero_or_pos rate with rfl | hrate
    · obtain ⟨tr, t, hrun, hexceeds⟩ := zero_rate_exceeds w hc
      exact hexceeds (hall tr t hrun)
    · obtain ⟨tr, t, hrun, hexceeds⟩ := two_tasks_exceed w (by omega : 2 ≤ c) hrate
      exact hexceeds (hall tr t hrun)
  · rintro ⟨rfl, hrate⟩ tr t hrun
    exact withinRate_of_solo hrun hrate

theorem rate_limit_per_worker_small : WithinRate 1
    ((pacing .layout (some (.iops 1)) 1).trace ⟨0, [.spawned]⟩
      [.start 0, .acquire 0 1, .acquire 0 1, .elapse 1, .wake 0]) :=
  (rate_limit_per_worker_iff .layout 1 1 (Nat.le_refl 1)).mpr (by decide) _ _
    ((pacing .layout (some (.iops 1)) 1).run_play _ _)

/-- Two tasks, one operation a second: each has its operation at once. -/
theorem two_tasks_two_operations : ¬ WithinRate 1
    ((pacing .layout (some (.iops 1)) 2).trace ⟨0, [.spawned, .spawned]⟩
      [.start 0, .start 1, .acquire 0 1, .acquire 1 1]) := by
  intro hwithin
  obtain ⟨excess, hover, hle⟩ := hwithin 0 0 (le_refl _)
  have hall : grants 0 0 ((pacing .layout (some (.iops 1)) 2).trace ⟨0, [.spawned, .spawned]⟩
      [.start 0, .start 1, .acquire 0 1, .acquire 1 1]) = [1, 1] := by
    decide +kernel
  rw [hall] at hover hle
  have hzero : excess = 0 := by
    rcases hover with hzero | ⟨hlt, hmem⟩
    · exact hzero
    · simp at hmem
      omega
  rw [hzero] at hle
  norm_num at hle

end CvdBench.Worker
