import CvdBench.Master.Bindings
import CvdBench.Master.Replies
import CvdBench.Properties.ActiveJobs

/-!
The slot indices of a job. `try_assign` numbers a worker by the size of the map before
it inserts it, so everything rests on the worker not being in the map yet.
-/

set_option autoImplicit false

namespace CvdBench.Master

open Foundation Proto

variable {H : Type} {env : MasterEnv H}

/-- Distinct workers have distinct indices, all below the number of slots taken. -/
structure JobRecord.Indexed (r : JobRecord) : Prop where
  below : ∀ w a, r.workerAssignments.get? w = some a →
    a.workerIndex < r.workerAssignments.len
  distinct : ∀ w w' a a', r.workerAssignments.get? w = some a →
    r.workerAssignments.get? w' = some a' → a.workerIndex = a'.workerIndex → w = w'

theorem JobRecord.Indexed.of_eq {r r' : JobRecord} (h : r.Indexed)
    (heq : r'.workerAssignments = r.workerAssignments) : r'.Indexed := by
  constructor
  · rw [heq]
    exact h.below
  · rw [heq]
    exact h.distinct

theorem JobRecord.Indexed.withSlot {r : JobRecord} (h : r.Indexed)
    (hslots : r.slotsFilled = r.workerAssignments.len) {w : WorkerId}
    (hw : w ∉ r.workerAssignments.keys) : (r.withSlot w).Indexed := by
  have hget : ∀ {w' a}, (r.withSlot w).workerAssignments.get? w' = some a →
      w' = w ∧ a.workerIndex = r.workerAssignments.len ∨
        w' ≠ w ∧ r.workerAssignments.get? w' = some a := by
    intro w' a ha
    rw [JobRecord.withSlot, HashMap.get?_put] at ha
    split at ha
    · next heq =>
      cases ha
      exact .inl ⟨heq, hslots⟩
    · next hne => exact .inr ⟨hne, ha⟩
  have hlen : (r.withSlot w).workerAssignments.len = r.workerAssignments.len + 1 :=
    HashMap.len_put_of_notMem _ hw
  constructor
  · intro w' a ha
    rcases hget ha with ⟨_, heq⟩ | ⟨_, hold⟩
    · omega
    · have hlt := h.below w' a hold
      omega
  · intro w₁ w₂ a₁ a₂ ha₁ ha₂ heq
    rcases hget ha₁ with ⟨rfl, hnew₁⟩ | ⟨_, hold₁⟩ <;>
      rcases hget ha₂ with ⟨rfl, hnew₂⟩ | ⟨_, hold₂⟩
    · rfl
    · have hlt := h.below w₂ a₂ hold₂
      omega
    · have hlt := h.below w₁ a₁ hold₁
      omega
    · exact h.distinct w₁ w₂ a₁ a₂ hold₁ hold₂ heq

theorem JobRecord.Indexed.full {r : JobRecord} (h : r.Indexed)
    (hlen : r.workerAssignments.len = r.targetWorkers) (i : Nat) :
    (∃ w a, r.workerAssignments.get? w = some a ∧ a.workerIndex = i) ↔ i < r.targetWorkers := by
  constructor
  · rintro ⟨w, a, ha, rfl⟩
    rw [← hlen]
    exact h.below w a ha
  · intro hi
    rw [← hlen] at hi
    exact HashMap.exists_of_lt_len (·.workerIndex) h.below h.distinct hi

theorem JobRecord.Coherent.len_eq {r : JobRecord} (h : r.Coherent)
    (hs : r.status = .preparing ∨ r.status = .running ∨ r.status = .completed) :
    r.workerAssignments.len = r.targetWorkers := by
  have hcard : r.runWorkers = r.workerAssignments.keys ∧ r.runWorkers.card = r.targetWorkers := by
    rcases hs with hs | hs | hs
    · exact ⟨(h.preparing hs).1, (h.preparing hs).2.1⟩
    · exact ⟨(h.running hs).1, (h.running hs).2.1⟩
    · exact ⟨(h.completed hs).1, (h.completed hs).2.1⟩
  rw [← hcard.2, hcard.1]
  rfl

section

variable {s s' : Sys} {c : Choice} {rep : Option Reply} {cur : Option Task}
  {rest spawn : List Task}

/-- A worker that gets a fresh slot of a pending job has none of this job yet, as long as
the workers of pending jobs are bound to them. -/
theorem Slot.fresh (hok : s.Ok) (hb : s.Bound) (hheld : s.Held (· = .pending))
    {w : WorkerId} {now : Instant} {skipped after : List JobId} {id : JobId}
    {r r₁ : JobRecord} (h : Slot s.master w now skipped id after r r₁)
    (hr : s.job id = some r) : w ∉ r.workerAssignments.keys := by
  intro hmem
  have hnores : w ∉ r.workerResults.keys := by
    rw [((hok.coherent id r hr).pending h.pending).2.1]
    exact Finset.notMem_empty w
  have hactive := hheld w id r hr h.pending ⟨hmem, hnores⟩
  have hterm : r.isTerminal = false := by simp [JobRecord.isTerminal, h.pending]
  obtain ⟨a, hrep⟩ := replay_of_bound hb hactive hr hterm
  rw [h.noReplay] at hrep
  cases hrep

theorem Move.indices (h : Move env s c s' rep cur rest spawn) (hok : s.Ok) (hb : s.Bound)
    (hheld : s.Held (· = .pending)) {id : JobId} {r r' : JobRecord} (hr : s.job id = some r)
    (hr' : s'.job id = some r') (hindexed : r.Indexed) :
    r'.Indexed ∧ ∀ w a, r.workerAssignments.get? w = some a →
      r'.workerAssignments.get? w = some a := by
  have hsame : r'.workerAssignments = r.workerAssignments →
      r'.Indexed ∧ ∀ w a, r.workerAssignments.get? w = some a →
        r'.workerAssignments.get? w = some a := by
    intro heq
    refine ⟨hindexed.of_eq heq, fun w a ha => ?_⟩
    rw [heq]
    exact ha
  cases h.change hok hr hr' with
  | kept heq | closed heq | readied _ _ _ _ _ heq | result _ _ _ _ _ _ heq => exact hsame heq
  | @slot w _ _ _ _ hslot _ hwa =>
    have hw := hslot.fresh hok hb hheld hr
    have hslots := (hok.coherent id r hr).slotsFilled_eq hslot.pending
    refine ⟨(hindexed.withSlot hslots hw).of_eq hwa, fun w' a ha => ?_⟩
    have hne : w' ≠ w := by
      rintro rfl
      exact hw (HashMap.mem_keys_of_get? ha)
    rw [hwa, JobRecord.withSlot, HashMap.get?_put_ne _ _ hne]
    exact ha

end

/-- The slots of every job are indexed, and no index of an earlier state has changed. -/
structure IndexedSince (tr : Trace) (s : Sys) : Prop where
  indexed : ∀ id r, s.job id = some r → r.Indexed
  fixed : ∀ e ∈ tr, ∀ id r r' w a, e.post.job id = some r → s.job id = some r' →
    r.workerAssignments.get? w = some a → r'.workerAssignments.get? w = some a

theorem Run.heldPending {s : Sys} {tr : Trace} (h : (machine env).Run Sys.init tr s)
    (hsafe : ∀ e ∈ tr, ¬ Cuts (· = .pending) e.pre e.act) : s.Held (· = .pending) :=
  Run.held h (fun _ _ hedge hs => absurd hs hedge.not_pending)
    (fun r hs => by simp [JobRecord.isTerminal, hs]) hsafe

theorem Run.indexed {s : Sys} {tr : Trace} (h : (machine env).Run Sys.init tr s)
    (hsafe : ∀ e ∈ tr, ¬ Cuts (· = .pending) e.pre e.act) : IndexedSince tr s := by
  refine h.historyWhere (fun s c => ¬ Cuts (· = .pending) s c) hsafe ⟨fun id r hr => ?_, by simp⟩ ?_
  · simp [machine, Sys.init, MasterState.new, Sys.job] at hr
  · intro tr s c s' rep hrun hsafe ih _ hstep
    have hs := hrun.reachable .init
    have hok := Reachable.ok hs
    obtain ⟨cur, rest, spawn, hmove⟩ := Reachable.move hs hstep
    have hindices : ∀ {id r r'}, s.job id = some r → s'.job id = some r' →
        r'.Indexed ∧ ∀ w a, r.workerAssignments.get? w = some a →
          r'.workerAssignments.get? w = some a := fun {id r r'} hr hr' =>
      hmove.indices hok (Reachable.bound hs) (Run.heldPending hrun hsafe) hr hr'
        (ih.indexed id r hr)
    constructor
    · intro id r' hr'
      cases hmove.origin hok hr' with
      | created _ _ _ _ _ hnew => constructor <;> simp [hnew, JobRecord.new]
      | old r hr => exact (hindices hr hr').1
    · intro e he id r r' w a hr hr' ha
      rcases List.mem_append.mp he with he | he
      · obtain ⟨hpost, hlater⟩ := Run.after hrun .init he
        have hissued := hlater.issued ((Reachable.ok hpost).issued id r hr)
        obtain ⟨r₁, hr₁, _⟩ := (hmove.later hok).jobs id hissued r' hr'
        exact (hindices hr₁ hr').2 w a (ih.fixed e he id r r₁ w a hr hr₁ ha)
      · obtain rfl := List.mem_singleton.mp he
        obtain rfl := Option.some.inj (hr.symm.trans hr')
        exact ha

/-- In every run in which no step clears the binding of a slot of a pending job: the
indices of a job are distinct and below the number of its slots; an index, once given,
stays, and every FetchJob hands out the one that is kept; from PREPARING on they are
exactly the numbers below the target; and no FetchJob of a worker that has a slot of the
job takes another one. -/
theorem worker_index_permutation {s : Sys} {tr : Trace}
    (h : (machine env).Run Sys.init tr s)
    (hsafe : ∀ e ∈ tr, ¬ Cuts (· = .pending) e.pre e.act) :
    (∀ id r, s.job id = some r → r.Indexed) ∧
    (∀ e ∈ tr, ∀ id r r' w a, e.post.job id = some r → s.job id = some r' →
      r.workerAssignments.get? w = some a → r'.workerAssignments.get? w = some a) ∧
    (∀ e ∈ tr, ∀ id w resp r, e.out = some (.fetchJob w (.ok resp)) → resp.jobId = some id →
      s.job id = some r → ∃ a, r.workerAssignments.get? w = some a ∧
        resp.workerIndex = some ((i32TryFrom a.workerIndex).getD 0)) ∧
    (∀ e ∈ tr, ∀ id r r', e.post.job id = some r →
      r.status = .preparing ∨ r.status = .running ∨ r.status = .completed →
      s.job id = some r' → ∀ i, (∃ w a, r'.workerAssignments.get? w = some a ∧
        a.workerIndex = i) ↔ i < r'.targetWorkers) ∧
    (∀ e ∈ tr, ∀ id w r r', e.act.act = .fetchJob w → e.pre.job id = some r →
      w ∈ r.workerAssignments.keys → e.post.job id = some r' →
      r'.workerAssignments = r.workerAssignments ∧ ∀ skipped after r₁,
        ¬ Slot e.pre.master w (e.act.amb.instant 0) skipped id after r r₁) := by
  have hall := Run.indexed h hsafe
  refine ⟨hall.indexed, hall.fixed, fun e he id w resp r hout hid hr => ?_,
    fun e he id r r' hr hs hr' i => ?_, fun e he id w r r' hact hr hmem hr' => ?_⟩
  · obtain ⟨hstep, hpre⟩ := h.event he
    rw [hout] at hstep
    obtain ⟨r₁, a, hr₁, ha, hindex⟩ := fetchJob_index (Reachable.ok (hpre .init)) hstep hid
    exact ⟨a, hall.fixed e he id r₁ r w a hr₁ hr ha, hindex⟩
  · obtain ⟨hpost, hlater⟩ := Run.after h .init he
    have hok := Reachable.ok hpost
    have hle := hlater.le hok hr hr'
    have hpending : r.status ≠ .pending := by
      rcases hs with hs | hs | hs <;> simp [hs]
    have hlen : r'.workerAssignments.len = r'.targetWorkers := by
      rw [hle.slots hpending, hle.target]
      exact (hok.coherent id r hr).len_eq hs
    exact (hall.indexed id r' hr').full hlen i
  · obtain ⟨tr₁, tr₂, rfl⟩ := List.append_of_mem he
    obtain ⟨hpre, hstep, _⟩ := h.split rfl
    have hs := hpre.reachable .init
    have hok := Reachable.ok hs
    have hheld := Run.heldPending hpre fun e' he' => hsafe e' (List.mem_append_left _ he')
    have hnoslot : ∀ {now skipped after r₁},
        ¬ Slot e.pre.master w now skipped id after r r₁ := fun hslot =>
      hslot.fresh hok (Reachable.bound hs) hheld hr hmem
    refine ⟨?_, fun _ _ _ => hnoslot⟩
    obtain ⟨cur, rest, spawn, hmove⟩ := Reachable.move hs hstep
    cases hmove.change hok hr hr' with
    | kept heq | closed heq | readied _ _ _ _ _ heq | result _ _ _ _ _ _ heq => exact heq
    | slot hact' hslot =>
      rw [hact] at hact'
      cases hact'
      exact absurd hslot hnoslot

theorem worker_index_permutation_small :
    ∃ r, (Small.play Small.completed).job "j" = some r ∧ r.Indexed :=
  ⟨_, rfl, (worker_index_permutation
    ((machine Small.env).run_play Sys.init (Small.at0 Small.completed)) (Small.not_cuts _)).1
      "j" _ rfl⟩

/-- `a` has a slot, reports a result of the job that waits for `b`, and asks again. -/
def Small.askedTwice : List Action :=
  Small.create 2 "j" ++ [.fetchJob "a", .reportResult (Small.report "a" true), .resume 0,
    .fetchJob "a", .fetchJob "b"]

/-- Both workers of the job have index 1. -/
theorem worker_index_clash : ¬ ∀ s, (machine Small.env).Reachable s →
    ∀ id r, s.job id = some r → r.Indexed := by
  intro hall
  have hclash : ∀ w ∈ ["a", "b"], ((Small.play Small.askedTwice).job "j").bind
      (·.workerAssignments.get? w) = some ⟨1⟩ := by decide
  have hindexed := hall _ ((machine Small.env).reachable_play (Small.at0 Small.askedTwice)) "j"
    _ rfl
  exact absurd (hindexed.distinct "a" "b" _ _ (hclash "a" (by simp)) (hclash "b" (by simp)) rfl)
    (by decide)

end CvdBench.Master
