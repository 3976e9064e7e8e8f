import CvdBench.Master.Bindings
import Mathlib.Data.List.Count

/-!
The queue of pending jobs. A job is queued once or about to be queued, a live one never
leaves the queue, and only the first pending one holds slots.
-/

set_option autoImplicit false

namespace CvdBench.Master

open Foundation Proto

variable {H : Type} {env : MasterEnv H}

/-- `create_job` has still to queue the job. -/
def Task.queues (id : JobId) : Task → Bool
  | .createPush id' => id' == id
  | _ => false

/-- How often the job is queued or about to be queued. -/
def Sys.tickets (s : Sys) (id : JobId) : Nat :=
  s.master.pendingQueue.count id + s.inflight.countP (Task.queues id)

def pendingJob (jobs : HashMap JobId JobRecord) (id : JobId) : Bool :=
  (jobs.get? id).any fun r => r.status == .pending

def Sys.front (s : Sys) : Option JobId :=
  s.master.pendingQueue.find? (pendingJob s.master.jobs)

theorem pendingJob_iff {jobs : HashMap JobId JobRecord} {id : JobId} :
    pendingJob jobs id = true ↔ PendingAt jobs id := by
  unfold pendingJob PendingAt
  cases jobs.get? id with
  | none => simp
  | some r => simp

theorem pendingJob_eq_false {jobs : HashMap JobId JobRecord} {id : JobId}
    (h : ¬ PendingAt jobs id) : pendingJob jobs id = false := by
  rw [← pendingJob_iff] at h
  exact Bool.eq_false_iff.mpr h

theorem count_skip {skipped rest : List JobId} {id top : JobId} (h : id ∉ skipped) :
    (skipped ++ top :: rest).count id = (top :: rest).count id := by
  rw [List.count_append, List.count_eq_zero_of_not_mem h, Nat.zero_add]

theorem find?_erase {p : JobId → Bool} {x : JobId} (hx : p x = false) (l : List JobId) :
    (l.erase x).find? p = l.find? p := by
  induction l with
  | nil => rfl
  | cons y ys ih =>
    by_cases hxy : y = x
    · subst hxy
      rw [List.erase_cons_head, List.find?_cons_of_neg (by simp [hx])]
    · rw [List.erase_cons_tail (by simpa using hxy), List.find?_cons, List.find?_cons, ih]

theorem find?_restrict {p p' : JobId → Bool} {l : List JobId} {id : JobId}
    (h : l.find? p = some id) (hid : p' id = true)
    (hle : ∀ x ∈ l, p' x = true → p x = true) : l.find? p' = some id := by
  obtain ⟨_, before, after, rfl, hbefore⟩ := List.find?_eq_some_iff_append.mp h
  refine List.find?_eq_some_iff_append.mpr ⟨hid, before, after, rfl, fun x hx => ?_⟩
  have hpx := hbefore x hx
  by_contra hp'
  have := hle x (by simp [hx]) (by simpa using hp')
  simp [this] at hpx

theorem find?_skip {p : JobId → Bool} {skipped rest : List JobId} {id : JobId}
    (hskip : ∀ x ∈ skipped, p x = false) (hid : p id = true) :
    (skipped ++ id :: rest).find? p = some id :=
  List.find?_eq_some_iff_append.mpr ⟨hid, skipped, rest, rfl, fun x hx => by simp [hskip x hx]⟩

section

variable {s s' : Sys} {c : Choice} {rep : Option Reply} {cur : Option Task}
  {rest spawn : List Task}

theorem Move.countQueues (h : Move env s c s' rep cur rest spawn) (id : JobId) :
    s'.inflight.countP (Task.queues id) + cur.toList.countP (Task.queues id) =
      s.inflight.countP (Task.queues id) + spawn.countP (Task.queues id) := by
  rw [h.after, h.inflight.countP_eq, List.countP_append, List.countP_append]
  omega

theorem countQueues_none (id : JobId) {l : List Task} (h : ∀ id', .createPush id' ∉ l) :
    l.countP (Task.queues id) = 0 := by
  rw [List.countP_eq_zero]
  intro t ht
  cases t with
  | createPush id' => exact absurd ht (h id')
  | _ => simp [Task.queues]

theorem Move.pendingBack (h : Move env s c s' rep cur rest spawn) (hok : s.Ok) {id : JobId}
    (hid : id ∈ s.issued) (hp : PendingAt s'.master.jobs id) : PendingAt s.master.jobs id := by
  obtain ⟨r', hr', hs'⟩ := hp
  obtain ⟨r, hr, hle⟩ := (h.later hok).jobs id hid r' hr'
  refine ⟨r, hr, ?_⟩
  by_contra hs
  exact Edge.path_not_pending hle.status hs hs'

/-- What one step does to the queue. -/
inductive QueueMove (s s' : Sys) (c : Choice) (cur : Option Task) (spawn : List Task) :
    Prop where
  | same : (∀ j, cur ≠ some (.createPush j)) → (∀ j, .createPush j ∉ spawn) →
      s'.master.pendingQueue = s.master.pendingQueue → QueueMove s s' c cur spawn
  | created (j : JobId) : (∀ j, cur ≠ some (.createPush j)) → j ∉ s.issued → j ∈ s'.issued →
      spawn = [.createPush j] → s'.master.pendingQueue = s.master.pendingQueue →
      QueueMove s s' c cur spawn
  | pushed (j : JobId) : cur = some (.createPush j) → spawn = [] →
      s'.master.jobs = s.master.jobs →
      s'.master.pendingQueue = s.master.pendingQueue ++ [j] → QueueMove s s' c cur spawn
  | dequeued (j : JobId) : (∀ j, cur ≠ some (.createPush j)) →
      (∀ j, .createPush j ∉ spawn) → Dead s.issued s.master.jobs j →
      s'.master.pendingQueue = s.master.pendingQueue.erase j → QueueMove s s' c cur spawn
  | cleared : (∀ j, cur ≠ some (.createPush j)) → (∀ j, .createPush j ∉ spawn) →
      (∀ id ∈ s.master.pendingQueue, ¬ PendingAt s.master.jobs id) →
      s'.master.jobs = s.master.jobs → s'.master.pendingQueue = [] →
      QueueMove s s' c cur spawn
  | slot (skipped : List JobId) (j : JobId) (after : List JobId) (w : WorkerId) :
      (∀ j, cur ≠ some (.createPush j)) → (∀ j, .createPush j ∉ spawn) →
      c.act = .fetchJob w → replay s.master w = none →
      s.master.pendingQueue = skipped ++ j :: after →
      (∀ id ∈ skipped, ¬ PendingAt s.master.jobs id) → PendingAt s.master.jobs j →
      (s'.master.pendingQueue = j :: after ∧ PendingAt s'.master.jobs j ∨
        s'.master.pendingQueue = after ∧ ¬ PendingAt s'.master.jobs j) →
      QueueMove s s' c cur spawn

theorem not_pendingAt_put {jobs : HashMap JobId JobRecord} {id : JobId} {r : JobRecord}
    (h : r.status ≠ .pending) : ¬ PendingAt (jobs.put id r) id := by
  rintro ⟨r', hr', hs'⟩
  rw [HashMap.get?_put_self, Option.some.injEq] at hr'
  exact h (hr' ▸ hs')

theorem Move.queue (h : Move env s c s' rep cur rest spawn) (hok : s.Ok) :
    QueueMove s s' c cur spawn := by
  by_cases hpush : ∃ j, cur = some (.createPush j)
  · obtain ⟨j, hcur⟩ := hpush
    obtain ⟨hspawn, hmaster, _⟩ := h.pushed j hcur
    exact .pushed j hcur hspawn (by rw [hmaster]) (by rw [hmaster])
  have hcur : ∀ j, cur ≠ some (.createPush j) := fun j hj => hpush ⟨j, hj⟩
  by_cases hnew : ∃ j, .createPush j ∈ spawn
  · obtain ⟨j, hj⟩ := hnew
    obtain ⟨hspawn, hk, spec, hact⟩ := h.creates j hj
    obtain ⟨hold, hissued⟩ := h.fresh _ _ hact
    exact .created j hcur hold hissued hspawn hk.queue
  have hnone : ∀ j, .createPush j ∉ spawn := fun j hj => hnew ⟨j, hj⟩
  cases h.effect with
  | pushed j hj => exact absurd hj (hcur j)
  | created _ _ _ _ _ hspawn =>
    exact absurd (hspawn ▸ List.mem_singleton.mpr rfl) (hnone _)
  | fetchedNone w hact hrep hall hjobs hqueue => exact .cleared hcur hnone hall hjobs hqueue
  | @assigned w skipped j after r r₁ hact hslot _ hw hqueue =>
    refine .slot skipped j after w hcur hnone hact hslot.noReplay hslot.queue hslot.skips
      ⟨r, hw.found, hslot.pending⟩ (.inl ⟨hqueue, r₁, ?_, hslot.keeps.1⟩)
    rw [show s'.master.jobs = _ from hw.jobs, HashMap.get?_put_self]
  | @filled w skipped j after r r₁ fileQueue manifestHandle hact hslot _ hw hqueue =>
    refine .slot skipped j after w hcur hnone hact hslot.noReplay hslot.queue hslot.skips
      ⟨r, hw.found, hslot.pending⟩ (.inr ⟨hqueue, ?_⟩)
    rw [show s'.master.jobs = _ from hw.jobs]
    refine not_pendingAt_put ?_
    rw [(JobRecord.filled_keeps _ _ _ hslot.keeps.1).1]
    simp
  | dequeued j workers hdel _ hqueue =>
    have hdead := hok.tasks (.deleteDequeue j workers) (h.mem_inflight.mpr (.inl hdel))
    exact .dequeued j hcur hnone hdead hqueue
  | idle _ hk | noted _ _ _ hk | resulted _ _ _ _ _ _ _ hk | readied _ _ _ _ _ hk
  | started _ _ _ _ _ hk | ended _ _ _ _ _ _ _ _ hk | concluded _ _ _ _ _ _ _ _ _ _ _ _ hk
  | ticked _ _ _ hk | collected _ _ _ hk => exact .same hcur hnone hk.queue
  | released t _ _ hqueue => exact .same hcur hnone hqueue

theorem Dead.not_pending {issued : Finset JobId} {jobs : HashMap JobId JobRecord} {id : JobId}
    (h : Dead issued jobs id) : ¬ PendingAt jobs id := by
  rintro ⟨r, hr, hs⟩
  have hterm := h.2 r hr
  simp [JobRecord.isTerminal, hs] at hterm

/-- Every job has at most one ticket, and a pending one has it. -/
structure Sys.Queued (s : Sys) : Prop where
  issued : ∀ id, 0 < s.tickets id → id ∈ s.issued
  once : ∀ id, s.tickets id ≤ 1
  pending : ∀ id, PendingAt s.master.jobs id → s.tickets id = 1

theorem Sys.Queued.mem_issued (h : s.Queued) {id : JobId} (hid : id ∈ s.master.pendingQueue) :
    id ∈ s.issued := by
  refine h.issued id ?_
  have := List.count_pos_iff.mpr hid
  unfold Sys.tickets
  omega

theorem Move.tickets (h : Move env s c s' rep cur rest spawn) (hok : s.Ok) (hqueued : s.Queued)
    (id : JobId) :
    s'.tickets id = s.tickets id ∨
      (s'.tickets id ≤ s.tickets id ∧ ¬ PendingAt s'.master.jobs id) ∨
      (s'.tickets id = s.tickets id + 1 ∧ id ∉ s.issued ∧ id ∈ s'.issued) := by
  have hcount := h.countQueues id
  have hquiet : (∀ j, cur ≠ some (.createPush j)) →
      cur.toList.countP (Task.queues id) = 0 := fun hcur =>
    countQueues_none id fun j hj => hcur j (by simpa using hj)
  have hnp : ¬ PendingAt s.master.jobs id → id ∈ s.issued →
      ¬ PendingAt s'.master.jobs id := fun hold hid hp => hold (h.pendingBack hok hid hp)
  unfold Sys.tickets
  cases h.queue hok with
  | same hcur hspawn hqueue =>
    have hzero := countQueues_none id hspawn
    have hzero' := hquiet hcur
    rw [hqueue]
    omega
  | created j hcur hold hnew hspawn hqueue =>
    have hzero' := hquiet hcur
    subst hspawn
    rw [hqueue]
    simp only [List.countP_singleton, Task.queues, beq_iff_eq] at hcount
    split at hcount
    · next hj =>
      subst hj
      exact .inr (.inr ⟨by omega, hold, hnew⟩)
    · omega
  | pushed j hcur hspawn hjobs hqueue =>
    subst hcur hspawn
    rw [hqueue]
    simp only [Option.toList_some, List.countP_singleton, List.countP_nil, List.count_append,
      List.count_singleton, Task.queues, beq_iff_eq] at hcount ⊢
    omega
  | dequeued j hcur hspawn hdead hqueue =>
    have hzero := countQueues_none id hspawn
    have hzero' := hquiet hcur
    rw [hqueue, List.count_erase]
    by_cases hj : j = id
    · subst hj
      exact .inr (.inl ⟨by omega, hnp hdead.not_pending hdead.1⟩)
    · simp only [beq_iff_eq, hj, if_false]
      omega
  | cleared hcur hspawn hall hjobs hqueue =>
    have hzero := countQueues_none id hspawn
    have hzero' := hquiet hcur
    rw [hqueue, List.count_nil]
    by_cases hmem : id ∈ s.master.pendingQueue
    · exact .inr (.inl ⟨by omega, by rw [hjobs]; exact hall id hmem⟩)
    · rw [List.count_eq_zero_of_not_mem hmem]
      omega
  | slot skipped j after w hcur hspawn _ _ hq hskips hj hout =>
    have hzero := countQueues_none id hspawn
    have hzero' := hquiet hcur
    rw [hq]
    by_cases hmem : id ∈ skipped
    · have hid : id ∈ s.issued := hqueued.mem_issued (by rw [hq]; simp [hmem])
      refine .inr (.inl ⟨?_, hnp (hskips id hmem) hid⟩)
      rw [List.count_append]
      rcases hout with ⟨hqueue, _⟩ | ⟨hqueue, _⟩
      · rw [hqueue]
        omega
      · rw [hqueue, List.count_cons]
        omega
    · rw [count_skip hmem]
      rcases hout with ⟨hqueue, _⟩ | ⟨hqueue, hnone⟩
      · rw [hqueue]
        omega
      · rw [hqueue, List.count_cons]
        by_cases hid : j = id
        · subst hid
          exact .inr (.inl ⟨by omega, hnone⟩)
        · simp only [beq_iff_eq, hid, if_false]
          omega

theorem Move.queued (h : Move env s c s' rep cur rest spawn) (hok : s.Ok)
    (hqueued : s.Queued) : s'.Queued := by
  have hcases := h.tickets hok hqueued
  refine ⟨fun id hid => ?_, fun id => ?_, fun id hp => ?_⟩
  · rcases hcases id with heq | ⟨hle, _⟩ | ⟨_, _, hnew⟩
    · exact h.issued (hqueued.issued id (by omega))
    · exact h.issued (hqueued.issued id (by omega))
    · exact hnew
  · have honce := hqueued.once id
    rcases hcases id with heq | ⟨hle, _⟩ | ⟨heq, hold, _⟩
    · omega
    · omega
    · have hzero : ¬ 0 < s.tickets id := fun hpos => hold (hqueued.issued id hpos)
      omega
  · rcases hcases id with heq | ⟨_, hnp⟩ | ⟨heq, hold, _⟩
    · by_cases hid : id ∈ s.issued
      · rw [heq]
        exact hqueued.pending id (h.pendingBack hok hid hp)
      · -- the job was created in this step, and its task is in flight
        obtain ⟨r', hr', _⟩ := hp
        cases h.origin hok hr' with
        | old r hr => exact absurd (hok.issued id r hr) hid
        | created _ _ hspawn =>
          have hmem : .createPush id ∈ s'.inflight :=
            h.mem_after.mpr (.inr (hspawn ▸ List.mem_singleton.mpr rfl))
          have hpos : 0 < s'.inflight.countP (Task.queues id) :=
            List.countP_pos_iff.mpr ⟨_, hmem, by simp [Task.queues]⟩
          have hold : 0 < s.tickets id := by
            rw [← heq]
            unfold Sys.tickets
            omega
          exact absurd (hqueued.issued id hold) hid
    · exact absurd hp hnp
    · have hzero : ¬ 0 < s.tickets id := fun hpos => hold (hqueued.issued id hpos)
      omega

theorem Reachable.queued (h : (machine env).Reachable s) : s.Queued := by
  refine h.invariant ?_ ?_
  · refine ⟨fun id hid => ?_, fun id => ?_, fun id hp => ?_⟩
    · simp [Sys.tickets, machine, Sys.init, MasterState.new] at hid
    · simp [Sys.tickets, machine, Sys.init, MasterState.new]
    · obtain ⟨r, hr, _⟩ := hp
      simp [machine, Sys.init, MasterState.new] at hr
  · intro s c s' rep hs hq hstep
    obtain ⟨cur, rest, spawn, hmove⟩ := Reachable.move hs hstep
    exact hmove.queued (Reachable.ok hs) hq

/-- A pending job that holds a slot is the first pending job of the queue. -/
def Sys.Fifo (s : Sys) : Prop := ∀ id r, s.job id = some r → r.status = .pending →
  r.workerAssignments.keys ≠ ∅ → s.front = some id

theorem Move.front (h : Move env s c s' rep cur rest spawn) (hok : s.Ok)
    (hqueued : s.Queued) {id : JobId} (hfront : s.front = some id)
    (hp : PendingAt s'.master.jobs id) : s'.front = some id := by
  have hstay : s.master.pendingQueue.find? (pendingJob s'.master.jobs) = some id := by
    refine find?_restrict hfront (pendingJob_iff.mpr hp) fun x hx hpx => ?_
    exact pendingJob_iff.mpr
      (h.pendingBack hok (hqueued.mem_issued hx) (pendingJob_iff.mp hpx))
  unfold Sys.front
  cases h.queue hok with
  | same _ _ hqueue => rw [hqueue, hstay]
  | created _ _ _ _ _ hqueue => rw [hqueue, hstay]
  | pushed j _ _ _ hqueue => rw [hqueue, List.find?_append, hstay, Option.some_or]
  | dequeued j _ _ hdead hqueue =>
    rw [hqueue, find?_erase, hstay]
    exact pendingJob_eq_false ((h.later hok).dead hdead).not_pending
  | cleared _ _ hall hjobs =>
    have hmem := List.mem_of_find?_eq_some hstay
    rw [hjobs] at hp
    exact absurd hp (hall id hmem)
  | slot skipped j after w _ _ _ _ hq hskips hj hout =>
    have hfirst : s.front = some j := by
      rw [Sys.front, hq]
      exact find?_skip (fun x hx => pendingJob_eq_false (hskips x hx)) (pendingJob_iff.mpr hj)
    obtain rfl : j = id := Option.some.inj (hfirst.symm.trans hfront)
    rcases hout with ⟨hqueue, _⟩ | ⟨_, hnp⟩
    · rw [hqueue, List.find?_cons_of_pos (pendingJob_iff.mpr hp)]
    · exact absurd hp hnp

theorem Move.fifo (h : Move env s c s' rep cur rest spawn) (hok : s.Ok)
    (hqueued : s.Queued) (hfifo : s.Fifo) : s'.Fifo := by
  intro id r' hr' hs' hwa'
  have hp' : PendingAt s'.master.jobs id := ⟨r', hr', hs'⟩
  cases h.origin hok hr' with
  | created _ _ _ _ _ hnew => simp [hnew, JobRecord.new] at hwa'
  | old r hr =>
    have hs : r.status = .pending := by
      obtain ⟨r₀, hr₀, hs₀⟩ := h.pendingBack hok (hok.issued id r hr) hp'
      obtain rfl := Option.some.inj (hr.symm.trans hr₀)
      exact hs₀
    by_cases hwa : r.workerAssignments.keys = ∅
    · cases h.change hok hr hr' with
      | kept heq | closed heq | readied _ _ _ _ _ heq | result _ _ _ _ _ _ heq =>
        exact absurd (heq ▸ hwa) hwa'
      | slot _ _ _ _ _ _ hout =>
        rcases hout with ⟨_, hqueue⟩ | ⟨hprep, _⟩
        · rw [Sys.front, hqueue, List.find?_cons_of_pos (pendingJob_iff.mpr hp')]
        · rw [hs'] at hprep
          cases hprep
    · exact h.front hok hqueued (hfifo id r hr hs hwa) hp'

theorem Reachable.fifo (h : (machine env).Reachable s) : s.Fifo := by
  refine h.invariant (fun id r hr => ?_) ?_
  · simp [machine, Sys.init, MasterState.new, Sys.job] at hr
  · intro s c s' rep hs hf hstep
    obtain ⟨cur, rest, spawn, hmove⟩ := Reachable.move hs hstep
    exact hmove.fifo (Reachable.ok hs) (Reachable.queued hs) hf

end

end CvdBench.Master
