import CvdBench.Master.Queue
import CvdBench.Master.Replies

/-!
Strict first-in first-out scheduling over whole runs, with the queue and the job map
under different locks.
-/

set_option autoImplicit false

namespace CvdBench.Master

open Foundation Proto

variable {H : Type} {env : MasterEnv H}

/-- The jobs whose CreateJob has returned, in the order in which they were queued:
`create_job` queues the job and returns in one section. -/
def returned (tr : Trace) : List JobId :=
  tr.filterMap fun e => match e.out with
    | some (.createJob (.ok res)) => some res.jobId
    | _ => none

theorem returned_snoc (tr : Trace) (e : Step) :
    returned (tr ++ [e]) = returned tr ++ returned [e] := by
  simp [returned]

/-- `w` is handed the job by a fresh slot, not by the replay. -/
def HandsFresh (e : Step) (id : JobId) : Prop :=
  ∃ w resp, e.out = some (.fetchJob w (.ok resp)) ∧ resp.jobId = some id ∧
    replay e.pre.master w = none

/-- What the past of a run says about the queue. -/
structure Queues (tr : Trace) (s : Sys) : Prop where
  order : s.master.pendingQueue.Sublist (returned tr)
  once : (returned tr).Nodup
  done : ∀ id ∈ returned tr, id ∈ s.issued ∧ s.inflight.countP (Task.queues id) = 0

section

variable {s s' : Sys} {c : Choice} {rep : Option Reply} {cur : Option Task}
  {rest spawn : List Task}

theorem Move.createReply (h : Move env s c s' rep cur rest spawn)
    (hstep : s.step env c = some (s', rep)) {res : CreateJobResponse}
    (hrep : rep = some (.createJob (.ok res))) : cur = some (.createPush res.jobId) := by
  subst hrep
  rcases step_reply hstep with hrpc | ⟨i, t, hact, ht, hrpc, hrun⟩
  · have hact : ∃ spec id, c.act = .createJob spec id := by
      cases hact : c.act <;> rw [hact] at hrpc <;> cases hrpc
      exact ⟨_, _, rfl⟩
    obtain ⟨spec, id, hact⟩ := hact
    unfold Sys.step at hstep
    simp only [hact] at hstep
    split at hstep
    · cases hstep
    · have hout : (createJob env c.amb s.master spec id).reply = some (.createJob (.ok res)) :=
        congrArg Prod.snd (Option.some.inj hstep)
      exact absurd hout ((createJob_answers env c.amb s.master spec id).2 res)
  · have hcur := h.resumed i t hact ht
    cases t <;> cases hrpc
    cases hrun
    exact hcur

theorem returned_none {e : Step}
    (h : ∀ res, e.out ≠ some (.createJob (.ok res))) : returned [e] = [] := by
  unfold returned
  rw [List.filterMap_cons]
  split
  · rfl
  · next res heq =>
    split at heq
    · next hout => exact absurd hout (h _)
    · cases heq

theorem Move.countReturned (h : Move env s c s' rep cur rest spawn) {id : JobId}
    (hid : id ∈ s.issued) (hzero : s.inflight.countP (Task.queues id) = 0) :
    s'.inflight.countP (Task.queues id) = 0 := by
  have hcount := h.countQueues id
  have hspawn : spawn.countP (Task.queues id) = 0 := by
    rw [List.countP_eq_zero]
    intro t ht hq
    cases t <;> simp [Task.queues] at hq
    subst hq
    obtain ⟨_, _, spec, hact⟩ := h.creates _ ht
    exact (h.fresh _ _ hact).1 hid
  omega

theorem Move.queues {tr : Trace} (h : Move env s c s' rep cur rest spawn)
    (hstep : s.step env c = some (s', rep)) (hok : s.Ok) (hqueued : s.Queued)
    (hq : Queues tr s) : Queues (tr ++ [⟨s, c, rep, s'⟩]) s' := by
  by_cases hpush : ∃ j, cur = some (.createPush j)
  · obtain ⟨j, hcur⟩ := hpush
    obtain ⟨hspawn, hmaster, hrep⟩ := h.pushed j hcur
    have hnew : returned [⟨s, c, rep, s'⟩] = [j] := by simp [returned, hrep]
    have hmem : .createPush j ∈ s.inflight := h.mem_inflight.mpr (.inl hcur)
    have hpos : 0 < s.inflight.countP (Task.queues j) :=
      List.countP_pos_iff.mpr ⟨_, hmem, by simp [Task.queues]⟩
    have hissued : j ∈ s.issued := hok.tasks _ hmem
    have hfresh : j ∉ returned tr := fun hj => by
      have := (hq.done j hj).2
      omega
    refine ⟨?_, ?_, fun id hid => ?_⟩
    · rw [returned_snoc, hnew, hmaster]
      exact hq.order.append (.refl _)
    · rw [returned_snoc, hnew, List.nodup_append]
      exact ⟨hq.once, by simp, fun x hx y hy => by
        rw [List.mem_singleton.mp hy]
        rintro rfl
        exact hfresh hx⟩
    · rw [returned_snoc, hnew, List.mem_append, List.mem_singleton] at hid
      rcases hid with hid | rfl
      · obtain ⟨hid', hzero⟩ := hq.done id hid
        exact ⟨h.issued hid', h.countReturned hid' hzero⟩
      · refine ⟨h.issued hissued, ?_⟩
        have honce := hqueued.once id
        have hcount := h.countQueues id
        subst hcur hspawn
        simp only [Option.toList_some, List.countP_singleton, Task.queues, beq_self_eq_true,
          if_true, List.countP_nil] at hcount
        unfold Sys.tickets at honce
        omega
  · have hold : returned [⟨s, c, rep, s'⟩] = [] :=
      returned_none fun res hrep => hpush ⟨_, h.createReply hstep hrep⟩
    have htrace : returned (tr ++ [⟨s, c, rep, s'⟩]) = returned tr := by
      rw [returned_snoc, hold, List.append_nil]
    refine ⟨?_, by rw [htrace]; exact hq.once, fun id hid => ?_⟩
    · rw [htrace]
      cases h.queue hok with
      | same _ _ hqueue => rw [hqueue]; exact hq.order
      | created _ _ _ _ _ hqueue => rw [hqueue]; exact hq.order
      | pushed j hcur => exact absurd ⟨j, hcur⟩ hpush
      | dequeued j _ _ _ hqueue => rw [hqueue]; exact (List.erase_sublist ..).trans hq.order
      | cleared _ _ _ _ hqueue => rw [hqueue]; exact List.nil_sublist _
      | slot skipped j after w _ _ _ _ heq _ _ hout =>
        have hsub : (j :: after).Sublist s.master.pendingQueue := by
          rw [heq]
          exact List.sublist_append_right ..
        rcases hout with ⟨hqueue, _⟩ | ⟨hqueue, _⟩
        · rw [hqueue]
          exact hsub.trans hq.order
        · rw [hqueue]
          exact ((List.sublist_cons_self ..).trans hsub).trans hq.order
    · rw [htrace] at hid
      obtain ⟨hid', hzero⟩ := hq.done id hid
      exact ⟨h.issued hid', h.countReturned hid' hzero⟩

end

theorem Run.queues {s : Sys} {tr : Trace} (h : (machine env).Run Sys.init tr s) :
    Queues tr s := by
  refine h.history ?_ ?_
  · refine ⟨?_, ?_, ?_⟩ <;> simp [returned, machine, Sys.init, MasterState.new]
  · intro tr s c s' rep hrun hq hstep
    have hs : (machine env).Reachable s := ⟨tr, hrun⟩
    obtain ⟨cur, rest, spawn, hmove⟩ := Reachable.move hs hstep
    exact hmove.queues hstep (Reachable.ok hs) (Reachable.queued hs) hq

theorem idxOf_le_of_sublist {l : List JobId} {x y : JobId} (hnodup : l.Nodup)
    (h : [x, y].Sublist l) : l.idxOf x ≤ l.idxOf y := by
  induction l with
  | nil => cases h
  | cons z zs ih =>
    obtain ⟨hz, hzs⟩ := List.nodup_cons.mp hnodup
    by_cases hx : z = x
    · subst hx
      rw [List.idxOf_cons_self]
      exact Nat.zero_le _
    · have hsub : [x, y].Sublist zs := by
        cases h with
        | cons _ h => exact h
        | cons_cons _ _ => exact absurd rfl hx
      have hy : z ≠ y := by
        rintro rfl
        exact hz (hsub.subset (by simp))
      rw [List.idxOf_cons_ne _ hx, List.idxOf_cons_ne _ hy]
      exact Nat.succ_le_succ (ih hzs hsub)

theorem Queues.earliest {tr : Trace} {s : Sys} (hq : Queues tr s) {skipped rest : List JobId}
    {id id' : JobId} (heq : s.master.pendingQueue = skipped ++ id :: rest)
    (hskip : ∀ x ∈ skipped, ¬ PendingAt s.master.jobs x)
    (hmem : id' ∈ s.master.pendingQueue) (hp : PendingAt s.master.jobs id') :
    (returned tr).idxOf id ≤ (returned tr).idxOf id' := by
  rw [heq, List.mem_append, List.mem_cons] at hmem
  rcases hmem with hmem | rfl | hmem
  · exact absurd hp (hskip id' hmem)
  · exact Nat.le_refl _
  · refine idxOf_le_of_sublist hq.once (List.Sublist.trans ?_ hq.order)
    rw [heq]
    exact ((List.singleton_sublist.mpr hmem).cons_cons id).trans
      (List.sublist_append_right skipped _)

/-- First in, first out, over every run: a job whose CreateJob has returned is queued
exactly once while it is pending; a fresh slot goes to the pending job that was queued
first; one pending job at most holds slots; "no job" means that no queued job is pending;
and a pending job never refuses a slot. -/
theorem fifo_scheduling {s : Sys} {tr : Trace} (h : (machine env).Run Sys.init tr s) :
    (∀ id ∈ returned tr, PendingAt s.master.jobs id → s.master.pendingQueue.count id = 1) ∧
    (∀ tr₁ e tr₂, tr = tr₁ ++ e :: tr₂ → ∀ id,
      (HandsFresh e id ∨ ∃ r r', e.pre.job id = some r ∧ e.post.job id = some r' ∧
        r'.workerAssignments ≠ r.workerAssignments) →
      (returned tr₁).Nodup ∧ id ∈ e.pre.master.pendingQueue ∧ PendingAt e.pre.master.jobs id ∧
        ∀ id' ∈ e.pre.master.pendingQueue, PendingAt e.pre.master.jobs id' →
          (returned tr₁).idxOf id ≤ (returned tr₁).idxOf id') ∧
    (∀ id id' r r', s.job id = some r → s.job id' = some r' → r.status = .pending →
      r'.status = .pending → r.workerAssignments.keys ≠ ∅ →
      r'.workerAssignments.keys ≠ ∅ → id = id') ∧
    (∀ e ∈ tr, ∀ w resp, e.out = some (.fetchJob w (.ok resp)) → resp.jobId = none →
      replay e.pre.master w = none ∧
        ∀ id ∈ e.pre.master.pendingQueue, ¬ PendingAt e.pre.master.jobs id) ∧
    (∀ id r w now, s.job id = some r → r.status = .pending →
      (r.tryAssign w now).isSome = true) := by
  have hinit : (machine env).Reachable Sys.init := .init
  have hs := h.reachable hinit
  refine ⟨fun id hid hp => ?_, fun tr₁ e tr₂ heq id hfresh => ?_,
    fun id id' r r' hr hr' hs₁ hs₂ hwa hwa' => ?_, fun e he w resp hout hnone => ?_,
    fun id r w now hr hs₁ => ((Reachable.ok hs).coherent id r hr).tryAssign_isSome hs₁ w now⟩
  · have htickets := (Reachable.queued hs).pending id hp
    have hzero := ((Run.queues h).done id hid).2
    unfold Sys.tickets at htickets
    omega
  · obtain ⟨hpre, hstep, _⟩ := h.split heq
    have hs₁ := hpre.reachable hinit
    have hok := Reachable.ok hs₁
    have hq := Run.queues hpre
    have hslot : ∃ skipped rest, e.pre.master.pendingQueue = skipped ++ id :: rest ∧
        (∀ x ∈ skipped, ¬ PendingAt e.pre.master.jobs x) ∧
        PendingAt e.pre.master.jobs id := by
      rcases hfresh with ⟨w, resp, hout, hid, hnone⟩ | ⟨r, r', hr, hr', hne⟩
      · rw [hout] at hstep
        rcases (fetchJob_hands hok hstep hid).2 with ⟨r, a, hrep⟩ |
          ⟨_, skipped, rest, r, heq, hskip, hr, hp⟩
        · rw [hrep] at hnone
          cases hnone
        · exact ⟨skipped, rest, heq, hskip, r, hr, hp⟩
      · obtain ⟨cur, rest, spawn, hmove⟩ := Reachable.move hs₁ hstep
        cases hmove.change hok hr hr' with
        | kept heq | closed heq | readied _ _ _ _ _ heq | result _ _ _ _ _ _ heq =>
          exact absurd heq hne
        | slot _ hslot =>
          exact ⟨_, _, hslot.queue, hslot.skips, r, hr, hslot.pending⟩
    obtain ⟨skipped, rest, heq', hskip, hp⟩ := hslot
    refine ⟨hq.once, ?_, hp, fun id' hmem hp' => hq.earliest heq' hskip hmem hp'⟩
    rw [heq']
    simp
  · have hfirst := Reachable.fifo hs id r hr hs₁ hwa
    have hfirst' := Reachable.fifo hs id' r' hr' hs₂ hwa'
    exact Option.some.inj (hfirst.symm.trans hfirst')
  · obtain ⟨hstep, hpre⟩ := h.event he
    rw [hout] at hstep
    exact fetchJob_none (Reachable.ok (hpre hinit)) hstep hnone

/-- Two jobs are created, and one worker takes a slot of the first. -/
theorem fifo_scheduling_small :
    (Small.play (Small.create 2 "j" ++ Small.create 1 "k" ++
      [.fetchJob "a"])).master.pendingQueue.count "k" = 1 := by
  have hrun := (machine Small.env).run_play Sys.init
    (Small.at0 (Small.create 2 "j" ++ Small.create 1 "k" ++ [.fetchJob "a"]))
  have hreturned : "k" ∈ returned ((machine Small.env).trace Sys.init
      (Small.at0 (Small.create 2 "j" ++ Small.create 1 "k" ++ [.fetchJob "a"]))) := by decide
  exact (fifo_scheduling hrun).1 "k" hreturned (pendingJob_iff.mp (by decide))

end CvdBench.Master
