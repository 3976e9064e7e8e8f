import CvdBench.Master.Invariant

/-!
What a section tells the watchers: the calls it makes on the registry, the numbers that
its events carry, and that no job changes its status unannounced.
-/

set_option autoImplicit false

namespace CvdBench.Master

open Foundation Proto

def terminalStatus (status : JobStatus) : Bool :=
  status == .completed || status == .failed || status == .cancelled

theorem JobRecord.isTerminal_eq (r : JobRecord) : r.isTerminal = terminalStatus r.status := rfl

def RegistryCall.eventOf (j : JobId) : RegistryCall → Option JobEvent
  | .broadcast id event => if id = j then some event else none
  | _ => none

def eventsOf (j : JobId) (calls : List RegistryCall) : List JobEvent :=
  calls.filterMap (·.eventOf j)

@[simp] theorem eventsOf_nil (j : JobId) : eventsOf j [] = [] := rfl

@[simp] theorem eventsOf_append (j : JobId) (calls calls' : List RegistryCall) :
    eventsOf j (calls ++ calls') = eventsOf j calls ++ eventsOf j calls' := by
  simp [eventsOf]

def RegistryCall.isBroadcast : RegistryCall → Bool
  | .broadcast .. => true
  | _ => false

/-- Counting from `seq`, every broadcast event carries the next number, and the counter
ends at `seq'`. None of the calls subscribes. -/
def Numbered : Int → List RegistryCall → Int → Prop
  | seq, [], seq' => seq' = seq
  | seq, .broadcast _ event :: calls, seq' =>
      event.seq = seq ∧ Numbered (wrapI64 (seq + 1)) calls seq'
  | seq, .terminate _ :: calls, seq' => Numbered seq calls seq'
  | _, .subscribeWithSnapshot .. :: _, _ => False

theorem Numbered.append {calls calls' : List RegistryCall} {seq seq' seq'' : Int}
    (h : Numbered seq calls seq') (h' : Numbered seq' calls' seq'') :
    Numbered seq (calls ++ calls') seq'' := by
  induction calls generalizing seq with
  | nil =>
    simp only [Numbered] at h
    subst h
    exact h'
  | cons call calls ih =>
    cases call with
    | broadcast id event => exact ⟨h.1, ih h.2⟩
    | terminate id => exact ih h
    | subscribeWithSnapshot => exact h.elim

theorem Numbered.next {calls : List RegistryCall} {seq seq' q : Int}
    (h : Numbered seq calls seq') (hseq : seq = wrapI64 q) :
    seq' = wrapI64 (q + calls.countP RegistryCall.isBroadcast) := by
  induction calls generalizing seq q with
  | nil => simpa [Numbered, hseq] using h
  | cons call calls ih =>
    cases call with
    | broadcast id event =>
      obtain ⟨_, hrest⟩ := h
      rw [hseq, wrapI64_add] at hrest
      have hnext := ih hrest rfl
      rw [hnext, List.countP_cons]
      congr 1
      simp only [RegistryCall.isBroadcast, if_true]
      omega
    | terminate id =>
      have hnext := ih h hseq
      rw [hnext, List.countP_cons]
      simp [RegistryCall.isBroadcast]
    | subscribeWithSnapshot => exact h.elim

/-- As long as the counter does not wrap, it numbers the events upwards. -/
theorem Numbered.seqs {calls : List RegistryCall} {seq seq' : Int} {k : Nat}
    (h : Numbered seq calls seq') (hseq : seq = wrapI64 (1 + k))
    (hbound : ((k + calls.countP RegistryCall.isBroadcast : Nat) : Int) ≤ i64Max) (j : JobId) :
    (eventsOf j calls).Pairwise (fun a b => a.seq < b.seq) ∧
      ∀ event ∈ eventsOf j calls, (k : Int) < event.seq ∧
        event.seq ≤ (k + calls.countP RegistryCall.isBroadcast : Nat) := by
  induction calls generalizing seq k with
  | nil => simp
  | cons call calls ih =>
    rw [List.countP_cons] at hbound ⊢
    cases call with
    | broadcast id event =>
      obtain ⟨hevent, hrest⟩ := h
      simp only [RegistryCall.isBroadcast, if_true] at hbound ⊢
      have hfits : wrapI64 (1 + k) = 1 + (k : Int) :=
        wrapI64_of_fits (by unfold i64Min; omega) (by omega)
      have hnext : wrapI64 (seq + 1) = wrapI64 (1 + ((k + 1 : Nat) : Int)) := by
        rw [hseq, hfits]
        congr 1
      rw [hseq, hfits] at hevent
      obtain ⟨hpair, hall⟩ := ih hrest hnext (by omega)
      have htail : ∀ event ∈ eventsOf j calls, ((k + 1 : Nat) : Int) < event.seq ∧
          event.seq ≤ ((k + (calls.countP RegistryCall.isBroadcast + 1) : Nat) : Int) := by
        intro event' hmem
        obtain ⟨hlo, hhi⟩ := hall event' hmem
        exact ⟨hlo, by omega⟩
      by_cases hid : id = j
      · have hcons : eventsOf j (.broadcast id event :: calls) = event :: eventsOf j calls := by
          simp [eventsOf, RegistryCall.eventOf, hid]
        rw [hcons]
        refine ⟨List.pairwise_cons.mpr ⟨fun event' hmem => ?_, hpair⟩, fun event' hmem => ?_⟩
        · have := (htail event' hmem).1
          omega
        · rcases List.mem_cons.mp hmem with rfl | hmem
          · omega
          · have := htail event' hmem
            omega
      · have hskip : eventsOf j (.broadcast id event :: calls) = eventsOf j calls := by
          simp [eventsOf, RegistryCall.eventOf, hid]
        rw [hskip]
        refine ⟨hpair, fun event' hmem => ?_⟩
        have := htail event' hmem
        omega
    | terminate id =>
      simp only [RegistryCall.isBroadcast, Bool.false_eq_true, if_false, Nat.add_zero]
        at hbound ⊢
      have hskip : eventsOf j (.terminate id :: calls) = eventsOf j calls := rfl
      rw [hskip]
      exact ih h hseq hbound
    | subscribeWithSnapshot => exact h.elim

def Steady (jobs jobs' : HashMap JobId JobRecord) (j : JobId) : Prop :=
  ∀ r, jobs.get? j = some r → r.isTerminal = false →
    ∃ r', jobs'.get? j = some r' ∧ r'.status = r.status

theorem Steady.of_eq {jobs jobs' : HashMap JobId JobRecord} {j : JobId}
    (h : jobs'.get? j = jobs.get? j) : Steady jobs jobs' j := by
  intro r hr _
  exact ⟨r, h.trans hr, rfl⟩

theorem Steady.put {jobs : HashMap JobId JobRecord} {id : JobId} {r r' : JobRecord}
    (hr : jobs.get? id = some r) (hs : r'.status = r.status) (j : JobId) :
    Steady jobs (jobs.put id r') j := by
  intro r₀ hr₀ _
  by_cases hj : j = id
  · subst hj
    rw [hr, Option.some.injEq] at hr₀
    subst hr₀
    exact ⟨r', HashMap.get?_put_self .., hs⟩
  · exact ⟨r₀, by rw [HashMap.get?_put_ne _ _ hj, hr₀], rfl⟩

/-- What the calls tell about one job: nothing, and it keeps its status, or one event with
the status that the job has from now on. -/
inductive Told (j : JobId) (jobs jobs' : HashMap JobId JobRecord)
    (calls : List RegistryCall) : Prop where
  | nothing : eventsOf j calls = [] → Steady jobs jobs' j → Told j jobs jobs' calls
  | event (event r') : eventsOf j calls = [event] → jobs'.get? j = some r' →
      event.status = r'.status → Told j jobs jobs' calls

def Untold (j : JobId) (jobs jobs' : HashMap JobId JobRecord)
    (calls : List RegistryCall) : Prop :=
  eventsOf j calls = [] ∧ jobs'.get? j = jobs.get? j

section

variable {j : JobId} {jobs jobs' jobs'' : HashMap JobId JobRecord}
  {calls calls' : List RegistryCall}

theorem Untold.told (h : Untold j jobs jobs' calls) : Told j jobs jobs' calls :=
  .nothing h.1 (.of_eq h.2)

theorem Untold.append (h : Untold j jobs jobs' calls) (h' : Untold j jobs' jobs'' calls') :
    Untold j jobs jobs'' (calls ++ calls') :=
  ⟨by rw [eventsOf_append, h.1, h'.1, List.append_nil], h'.2.trans h.2⟩

theorem Told.append_untold (h : Told j jobs jobs' calls)
    (h' : Untold j jobs' jobs'' calls') : Told j jobs jobs'' (calls ++ calls') := by
  have hevents : eventsOf j (calls ++ calls') = eventsOf j calls := by
    rw [eventsOf_append, h'.1, List.append_nil]
  cases h with
  | nothing hnone hsteady =>
    refine .nothing (hevents.trans hnone) fun r hr hlive => ?_
    obtain ⟨r', hr', hs⟩ := hsteady r hr hlive
    exact ⟨r', h'.2.trans hr', hs⟩
  | event event r' hone hr' hs => exact .event event r' (hevents.trans hone) (h'.2.trans hr') hs

theorem Untold.append_told (h : Untold j jobs jobs' calls)
    (h' : Told j jobs' jobs'' calls') : Told j jobs jobs'' (calls ++ calls') := by
  have hevents : eventsOf j (calls ++ calls') = eventsOf j calls' := by
    rw [eventsOf_append, h.1, List.nil_append]
  cases h' with
  | nothing hnone hsteady =>
    exact .nothing (hevents.trans hnone) fun r hr => hsteady r (h.2.trans hr)
  | event event r' hone hr' hs => exact .event event r' (hevents.trans hone) hr' hs

end

/-- The calls of a section that opens no watch stream. -/
structure Spoken (issued : Finset JobId) (m m' : MasterState) (calls : List RegistryCall) :
    Prop where
  log : m'.subscribers = m.subscribers ++ calls
  numbered : Numbered m.eventSeq calls m'.eventSeq
  told : ∀ j, Told j m.jobs m'.jobs calls
  ended : ∀ id, .terminate id ∈ calls → Dead issued m.jobs id

def openedBy : Option Reply → Option (JobId × JobEvent)
  | some (.watchJob id (.ok snapshot)) => some (id, snapshot)
  | _ => none

/-- What a section does for the watchers. A terminal job is only glanced at: its stream
never reaches the registry. -/
inductive Utters (issued : Finset JobId) (m m' : MasterState) (rep : Option Reply) : Prop where
  | tells (calls) : Spoken issued m m' calls → openedBy rep = none → Utters issued m m' rep
  | watches {id r snapshot} : openedBy rep = some (id, snapshot) →
      m.jobs.get? id = some r → r.isTerminal = false → snapshot.status = r.status →
      snapshot.seq = m.eventSeq → m' = { m.nextEventSeq with
        subscribers := m.subscribers ++ [.subscribeWithSnapshot id snapshot] } →
      Utters issued m m' rep
  | glances {id r snapshot} : openedBy rep = some (id, snapshot) →
      m.jobs.get? id = some r → r.isTerminal = true → snapshot.status = r.status →
      snapshot.seq = m.eventSeq → m' = m.nextEventSeq → Utters issued m m' rep

theorem Spoken.silent {issued : Finset JobId} {m m' : MasterState}
    (hlog : m'.subscribers = m.subscribers) (hseq : m'.eventSeq = m.eventSeq)
    (hsteady : ∀ j, Steady m.jobs m'.jobs j) : Spoken issued m m' [] :=
  ⟨by rw [hlog, List.append_nil], hseq, fun j => .nothing rfl (hsteady j), by simp⟩

theorem Spoken.broadcast {issued : Finset JobId} {m m' : MasterState} {id : JobId}
    {event : JobEvent} {r : JobRecord} (hid : r.jobId = id)
    (hlog : m'.subscribers = m.subscribers ++ [.broadcast r.jobId event])
    (hseq : event.seq = m.eventSeq) (hs : event.status = r.status)
    (hnext : m'.eventSeq = wrapI64 (m.eventSeq + 1)) (hjobs : m'.jobs = m.jobs.put id r) :
    Spoken issued m m' [.broadcast id event] := by
  rw [hid] at hlog
  refine ⟨hlog, ⟨hseq, hnext⟩, fun j => ?_, by simp⟩
  by_cases hj : j = id
  · subst hj
    refine .event event r ?_ (by rw [hjobs, HashMap.get?_put_self]) hs
    simp [eventsOf, RegistryCall.eventOf]
  · refine Untold.told ⟨?_, by rw [hjobs, HashMap.get?_put_ne _ _ hj]⟩
    simp [eventsOf, RegistryCall.eventOf, Ne.symm hj]

theorem Spoken.finalize {issued : Finset JobId} {m : MasterState} {id : JobId}
    (hdead : Dead issued m.jobs id) :
    Spoken issued m (m.finalizeStream id) [.terminate id] := by
  refine ⟨rfl, rfl, fun j => .nothing rfl (.of_eq rfl), fun id' hid' => ?_⟩
  cases List.mem_singleton.mp hid'
  exact hdead

section

variable {H : Type} {env : MasterEnv H} {amb : Ambient} {s : Sys}

theorem emit_spoken (issued : Finset JobId) (m m₁ : MasterState) (order : HashOrder String)
    (nowMs : Int) (kind : EventKind) {id : JobId} (r : JobRecord) (hid : r.jobId = id)
    (hlog : m₁.subscribers = m.subscribers) (hseq : m₁.eventSeq = m.eventSeq)
    (hjobs : m₁.jobs.put id r = m.jobs.put id r) :
    Spoken issued m ((m₁.emitForJob order nowMs r kind).setJob id r)
      [.broadcast id (m₁.buildEvent order nowMs r kind)] := by
  refine .broadcast hid ?_ hseq rfl ?_ hjobs
  · show m₁.subscribers ++ _ = _
    rw [hlog]
  · show wrapI64 (m₁.eventSeq + 1) = _
    rw [hseq]

variable (env amb) in
theorem settle_spoken (issued : Finset JobId) (m : MasterState) (k : Nat) {id : JobId}
    {r : JobRecord} (hid : r.jobId = id) :
    ∃ event, Spoken issued m (m.settle env.hdr amb k id r) [.broadcast id event] :=
  ⟨_, emit_spoken issued m _ (amb.order id) (amb.nowMs (k + 1)) .statusChange
    { r.aggregateIntoRecord env.hdr (amb.order id) (amb.nowMs k) with manifestHandle := none }
    hid rfl rfl rfl⟩

variable (s) in
def Outcome.Utters (o : Outcome) : Prop := Master.Utters s.issued s.master o.state o.reply

theorem Outcome.Utters.answerSame {reply : Reply} (h : openedBy (some reply) = none) :
    (Outcome.answer s.master reply).Utters s :=
  .tells [] (.silent rfl rfl fun _ => .of_eq rfl) h

theorem Outcome.Utters.answerPut {id : JobId} {r r' : JobRecord} {reply : Reply}
    (hr : s.master.jobs.get? id = some r) (hs : r'.status = r.status)
    (h : openedBy (some reply) = none) :
    (Outcome.answer (s.master.setJob id r') reply).Utters s :=
  .tells [] (.silent rfl rfl (.put hr hs)) h

theorem Outcome.Utters.continuePut {id : JobId} {r r' : JobRecord} {t : Task}
    (hr : s.master.jobs.get? id = some r) (hs : r'.status = r.status) :
    (Outcome.continue (s.master.setJob id r') t).Utters s :=
  .tells [] (.silent rfl rfl (.put hr hs)) rfl

theorem Outcome.Utters.settles (k : Nat) {id : JobId} {r : JobRecord} {t : Task}
    (hid : r.jobId = id) :
    (Outcome.continue (s.master.settle env.hdr amb k id r) t).Utters s := by
  obtain ⟨event, hspoken⟩ := settle_spoken env amb s.issued s.master k hid
  exact .tells _ hspoken rfl

theorem fillJob_utters {m : MasterState} {id : JobId} {r r₁ : JobRecord} {reply : Reply}
    (hid : r₁.jobId = id) (hlog : m.subscribers = s.master.subscribers)
    (hseq : m.eventSeq = s.master.eventSeq) (hjobs : m.jobs = s.master.jobs.put id r)
    (h : openedBy (some reply) = none) : (fillJob env amb m id r₁ reply).Utters s := by
  obtain ⟨cells, fileQueue, manifestHandle, started, heq⟩ :=
    startForFileQueueJob_spec env.config m (r₁.enterPreparing (amb.instant 1))
  have hid' : (r₁.enterPreparing (amb.instant 1)).jobId = id :=
    (enterPreparing_jobId ..).trans hid
  unfold fillJob
  simp only [heq]
  have hspoken := emit_spoken s.issued s.master { m with cells } (amb.order id) (amb.nowMs 1)
    .statusChange { r₁.enterPreparing (amb.instant 1) with fileQueue, manifestHandle } hid'
    hlog hseq (by rw [hjobs, HashMap.put_put])
  exact .tells _ ⟨hspoken.log, hspoken.numbered, hspoken.told, hspoken.ended⟩ h

theorem fetchJob_utters (hok : s.Ok) (w : WorkerId) : (fetchJob env amb s.master w).Utters s := by
  have hrow := fetchJob_row env amb s.master hok.coherent w
  generalize fetchJob env amb s.master w = o at hrow ⊢
  cases hrow with
  | refused e => exact .answerSame rfl
  | replayed hrep => exact .answerPut (replay_eq_some.mp hrep).2.1 rfl rfl
  | none hrep hall => exact .tells [] (.silent rfl rfl fun _ => .of_eq rfl) rfl
  | @assigned skipped id rest r r₁ hslot hr hmore =>
    have hs : r₁.status = r.status := by rw [hslot.slot]; rfl
    exact .tells [] (.silent rfl rfl (.put hr hs)) rfl
  | @filled skipped id rest r r₁ hslot hr hfull =>
    have hid : r₁.jobId = id := by rw [hslot.slot]; exact hok.keyed id r hr
    exact fillJob_utters hid rfl rfl rfl rfl

theorem reportReady_utters (hok : s.Ok) (req : ReportReadyRequest) :
    (reportReady env amb s.master req).Utters s := by
  have hrow := reportReady_row env amb s.master req
  generalize reportReady env amb s.master req = o at hrow ⊢
  cases hrow with
  | refused e => exact .answerSame rfl
  | turnedAway cancelled unknownJob => exact .answerSame rfl
  | untimely reason hserves herr hs => exact .answerPut hserves.found rfl rfl
  | @failed r reason hserves herr hs => exact .settles 0 (hok.keyed _ r hserves.found)
  | started hserves herr hopen heq =>
    subst heq
    have hid := hok.keyed _ _ hserves.found
    exact .tells _ (emit_spoken s.issued _ _ _ _ _ _ hid rfl rfl rfl) rfl
  | counted hserves herr hs hclosed => exact .answerPut hserves.found rfl rfl
  | noted hserves herr hs => exact .answerPut hserves.found rfl rfl

theorem fetchFileBatch_utters (req : FetchFileBatchRequest) :
    (fetchFileBatch amb s.master req).Utters s := by
  have hrow := fetchFileBatch_row amb s.master req
  generalize fetchFileBatch amb s.master req = o at hrow ⊢
  cases hrow with
  | refused e => exact .answerSame rfl
  | unknown => exact .answerSame rfl
  | cancelled hr hmember hs => exact .answerPut hr rfl rfl
  | drains hr hmember hs hcell => exact .continuePut hr rfl

theorem reportProgress_utters (hok : s.Ok) (req : ReportProgressRequest) :
    (reportProgress amb s.master req).Utters s := by
  have hrow := reportProgress_row amb s.master req
  generalize reportProgress amb s.master req = o at hrow ⊢
  cases hrow with
  | refused e => exact .answerSame rfl
  | unknown => exact .answerSame rfl
  | cancelled hp hr hs => exact .answerPut hr rfl rfl
  | recorded hp hserves heq =>
    subst heq
    have hid := hok.keyed _ _ hserves.found
    exact .tells _ (emit_spoken s.issued _ _ _ _ _ _ hid rfl rfl rfl) rfl

theorem reportResult_utters (hok : s.Ok) (req : ReportResultRequest) :
    (reportResult env amb s.master req).Utters s := by
  have hrow := reportResult_row env amb s.master req
  generalize reportResult env amb s.master req = o at hrow ⊢
  cases hrow with
  | refused e => exact .answerSame rfl
  | unknown hres => exact .tells [] (.silent rfl rfl fun _ => .of_eq rfl) rfl
  | again hres hr hmember hs hdup => exact .continuePut hr rfl
  | cancelled hres hr hmember hs hfresh => exact .continuePut hr rfl
  | counted hres hr ht hsuccess hmore heq => exact .continuePut hr (by rw [heq]; rfl)
  | settled hres hr ht he hresults hall heq =>
    subst heq
    exact .settles 0 (he.le.jobId.trans (hok.keyed _ _ hr))

theorem deleteJob_utters (hok : s.Ok) (id : JobId) : (deleteJob env amb s.master id).Utters s := by
  unfold deleteJob
  cases hr : s.master.jobs.get? id with
  | none => exact .answerSame rfl
  | some r =>
    simp only
    split
    · exact .answerSame rfl
    · exact .settles 0 (hok.keyed id r hr)

theorem watchJob_utters (id : JobId) : (watchJob amb s.master id).Utters s := by
  unfold watchJob
  cases hr : s.master.jobs.get? id with
  | none => exact .answerSame rfl
  | some r =>
    simp only
    split
    · next hterm => exact .glances rfl hr hterm rfl rfl rfl
    · next hlive => exact .watches rfl hr (Bool.eq_false_iff.mpr hlive) rfl rfl rfl

theorem startAction_utters (hok : s.Ok) {act : Action} {o : Outcome}
    (hnew : ∀ spec id, act ≠ .createJob spec id)
    (h : startAction env amb s.master act = some o) : o.Utters s := by
  cases act with
  | createJob spec id => exact absurd rfl (hnew spec id)
  | resume | readerAct | readerFail | readerExit => cases h
  | watchJob id => cases h; exact watchJob_utters id
  | queryJob id =>
    cases h
    unfold queryJob
    split
    · exact .answerSame rfl
    · exact .answerSame rfl
  | deleteJob id => cases h; exact deleteJob_utters hok id
  | listJobs req => cases h; exact .answerSame rfl
  | fetchJob w => cases h; exact fetchJob_utters hok w
  | reportReady req => cases h; exact reportReady_utters hok req
  | fetchFileBatch req => cases h; exact fetchFileBatch_utters req
  | reportProgress req => cases h; exact reportProgress_utters hok req
  | reportResult req => cases h; exact reportResult_utters hok req
  | staleTick => cases h; exact .tells [] (.silent rfl rfl fun _ => .of_eq rfl) rfl
  | gcTick => cases h; exact .tells [] (.silent rfl rfl fun _ => .of_eq rfl) rfl

end

section

variable {H : Type} {env : MasterEnv H} {amb : Ambient} {now : Instant}

/-- What the loop over `ids` tells: it ends no stream, and about a job that it does not
visit it tells nothing. -/
structure Ticks (ids : List JobId) (m m' : MasterState) (calls : List RegistryCall) :
    Prop where
  log : m'.subscribers = m.subscribers ++ calls
  numbered : Numbered m.eventSeq calls m'.eventSeq
  told : ∀ j ∈ ids, Told j m.jobs m'.jobs calls
  untold : ∀ j ∉ ids, Untold j m.jobs m'.jobs calls
  noEnd : ∀ id, .terminate id ∉ calls

theorem Ticks.silent (ids : List JobId) (m : MasterState) : Ticks ids m m [] :=
  ⟨by simp, rfl, fun _ _ => .nothing rfl (.of_eq rfl), fun _ _ => ⟨rfl, rfl⟩, by simp⟩

variable (env amb now) in
theorem tickRecord_ticks (k : Nat) {m : MasterState} (id : JobId)
    (hkeyed : ∀ id r, m.jobs.get? id = some r → r.jobId = id) :
    ∃ calls, Ticks [id] m (tickRecord env amb now k m id).1 calls := by
  unfold tickRecord
  split
  · exact ⟨[], .silent _ m⟩
  · next r hr =>
    split
    · exact ⟨[], .silent _ m⟩
    · split
      · exact ⟨[], .silent _ m⟩
      · next reason _ =>
        obtain ⟨event, hspoken⟩ := settle_spoken env amb ∅ m k
          (r := { r with status := .failed, error := some reason }) (hkeyed id r hr)
        refine ⟨_, hspoken.log, hspoken.numbered, fun j _ => hspoken.told j, fun j hj => ?_,
          by simp⟩
        have hne : j ≠ id := fun h => hj (List.mem_singleton.mpr h)
        refine ⟨by simp [eventsOf, RegistryCall.eventOf, Ne.symm hne], ?_⟩
        show (m.settle _ _ _ _ _).jobs.get? j = _
        rw [settle_jobs, HashMap.get?_put_ne _ _ hne]

theorem Ticks.append {id : JobId} {ids : List JobId} {m m' m'' : MasterState}
    {calls calls' : List RegistryCall} (h : Ticks [id] m m' calls) (h' : Ticks ids m' m'' calls')
    (hnew : id ∉ ids) : Ticks (id :: ids) m m'' (calls ++ calls') := by
  refine ⟨by rw [h'.log, h.log, List.append_assoc], h.numbered.append h'.numbered,
    fun j hj => ?_, fun j hj => ?_, fun j hj => ?_⟩
  · rcases List.mem_cons.mp hj with rfl | hmem
    · exact (h.told j (by simp)).append_untold (h'.untold j hnew)
    · have hne : j ∉ [id] := by
        rintro hj
        rw [List.mem_singleton.mp hj] at hmem
        exact hnew hmem
      exact (h.untold j hne).append_told (h'.told j hmem)
  · rw [List.mem_cons, not_or] at hj
    exact (h.untold j (by simpa using hj.1)).append (h'.untold j hj.2)
  · rcases List.mem_append.mp hj with hj | hj
    · exact h.noEnd j hj
    · exact h'.noEnd j hj

variable (env amb now) in
theorem tickLoop_ticks (k : Nat) (m : MasterState) (ids : List JobId) (hnodup : ids.Nodup)
    (hkeyed : ∀ id r, m.jobs.get? id = some r → r.jobId = id) :
    ∃ calls, Ticks ids m (tickLoop env amb now k m ids).1 calls := by
  induction ids generalizing k m with
  | nil => exact ⟨[], .silent _ m⟩
  | cons id ids ih =>
    obtain ⟨hnew, hrest⟩ := List.nodup_cons.mp hnodup
    obtain ⟨calls, hhead⟩ := tickRecord_ticks env amb now k id hkeyed
    have hkeyed' := (tickRecord_spec env amb now k id hkeyed).keyed hkeyed
    obtain ⟨calls', htail⟩ := ih (k + 2) (tickRecord env amb now k m id).1 hrest hkeyed'
    exact ⟨_, hhead.append htail hnew⟩

end

section

variable {H : Type} {env : MasterEnv H} {amb : Ambient} {s : Sys}

theorem tickScan_utters (hok : s.Ok) (now : Instant) :
    (tickScanSection env amb s.master now).Utters s := by
  obtain ⟨calls, hticks⟩ := tickLoop_ticks env amb now 0 s.master
    ((amb.order "").keys s.master.jobs) (HashOrder.nodup_keys _ _) hok.keyed
  have hspoken : Spoken s.issued s.master (tickLoop env amb now 0 s.master
      ((amb.order "").keys s.master.jobs)).1 calls := by
    refine ⟨hticks.log, hticks.numbered, fun j => ?_, fun id hid => absurd hid (hticks.noEnd id)⟩
    by_cases hj : j ∈ (amb.order "").keys s.master.jobs
    · exact hticks.told j hj
    · exact (hticks.untold j hj).told
  unfold tickScanSection
  revert hspoken
  generalize tickLoop env amb now 0 s.master ((amb.order "").keys s.master.jobs) = res
  obtain ⟨m', toClean⟩ := res
  intro hspoken
  cases toClean with
  | nil => exact .tells calls hspoken rfl
  | cons p rest => exact .tells calls hspoken rfl

theorem Utters.quiet {m' : MasterState} {rep : Option Reply}
    (hlog : m'.subscribers = s.master.subscribers) (hseq : m'.eventSeq = s.master.eventSeq)
    (hjobs : m'.jobs = s.master.jobs) (h : openedBy rep = none) :
    Utters s.issued s.master m' rep := by
  refine .tells [] (.silent hlog hseq fun j => .of_eq ?_) h
  rw [hjobs]

theorem deleteRest_quiet (m : MasterState) (id : JobId) (workers : List WorkerId) :
    (deleteRest m id workers).state = m ∧ openedBy (deleteRest m id workers).reply = none := by
  cases workers with
  | nil => exact ⟨rfl, rfl⟩
  | cons w ws => exact ⟨rfl, rfl⟩

theorem releaseAll_eventSeq (m : MasterState) (toClean : List (JobId × List WorkerId)) :
    (releaseAll m toClean).eventSeq = m.eventSeq := by
  induction toClean generalizing m with
  | nil => rfl
  | cons p rest ih => exact ih (m.releaseWorkers p.1 p.2)

theorem run_utters (hok : s.Ok) {t : Task} {o : Outcome} (ht : t.Ok s.issued s.master.jobs)
    (h : t.run env amb s.master = some o) : o.Utters s := by
  cases t with
  | manifestReader => cases h
  | createPush id => cases h; exact .quiet rfl rfl rfl rfl
  | deleteFinalize id wasPending workers =>
    cases h
    unfold deleteFinalizeSection
    simp only
    split
    · exact .tells _ (.finalize ht) rfl
    · obtain ⟨hstate, hrep⟩ := deleteRest_quiet (s.master.finalizeStream id) id workers
      refine .tells [.terminate id] ?_ hrep
      rw [hstate]
      exact .finalize ht
  | deleteDequeue id workers =>
    cases h
    obtain ⟨hstate, hrep⟩ := deleteRest_quiet
      { s.master with pendingQueue := removePending s.master.pendingQueue id } id workers
    exact .quiet ((congrArg MasterState.subscribers hstate).trans rfl)
      ((congrArg MasterState.eventSeq hstate).trans rfl)
      ((congrArg MasterState.jobs hstate).trans rfl) hrep
  | deleteRelease id workers => cases h; exact .quiet rfl rfl rfl rfl
  | readyRelease req workers => cases h; exact .quiet rfl rfl rfl rfl
  | readyFinalize req => cases h; exact .tells _ (.finalize ht) rfl
  | resultFinalize req w => cases h; exact .tells _ (.finalize ht) rfl
  | resultRelease req w unknownJob => cases h; exact .quiet rfl rfl rfl rfl
  | tickScan now => cases h; exact tickScan_utters hok now
  | tickRelease toClean =>
    cases h
    obtain ⟨hjobs, _, hlog⟩ := releaseAll_other s.master toClean
    exact .quiet hlog (releaseAll_eventSeq ..) hjobs rfl
  | tickFinalize ids =>
    cases h
    cases ids with
    | nil => exact .quiet rfl rfl rfl rfl
    | cons id rest =>
      have hspoken := Spoken.finalize (ht id (List.mem_cons_self ..))
      cases rest with
      | nil => exact .tells _ hspoken rfl
      | cons id' rest => exact .tells _ hspoken rfl
  | gcScan cutoffMs =>
    cases h
    unfold gcScanSection
    simp only
    split
    · exact .quiet rfl rfl rfl rfl
    · exact .quiet rfl rfl rfl rfl
  | gcRemove ids =>
    cases h
    refine .tells [] (.silent rfl rfl fun j r hr hlive => ⟨r, ?_, rfl⟩) rfl
    show (s.master.jobs.removeAll ids).get? j = some r
    rw [HashMap.get?_removeAll, if_neg, hr]
    intro hmem
    rw [(ht j hmem).2 r hr] at hlive
    cases hlive
  | manifestRelease id workers => cases h; exact .quiet rfl rfl rfl rfl
  | manifestFinalize id => cases h; exact .tells _ (.finalize ht) rfl
  | batchDrain req cell batchSize =>
    cases h
    unfold batchDrainSection
    simp only
    split
    · exact .quiet rfl rfl rfl rfl
    · exact .quiet rfl rfl rfl rfl
  | batchAddPermits req cell files => cases h; exact .quiet rfl rfl rfl rfl
  | batchLoadDone req cell =>
    cases h
    unfold batchLoadDoneSection
    split
    · exact .quiet rfl rfl rfl rfl
    · exact .quiet rfl rfl rfl rfl
  | batchIsEmpty req cell => cases h; exact .quiet rfl rfl rfl rfl

theorem readerFail_utters (hok : s.Ok) (id : JobId) (reason : String) :
    (failJobDueToManifest env amb s.master id reason).Utters s := by
  unfold failJobDueToManifest
  cases hr : s.master.jobs.get? id with
  | none => exact .quiet rfl rfl rfl rfl
  | some r =>
    simp only
    split
    · exact .quiet rfl rfl rfl rfl
    · exact .settles 0 (hok.keyed id r hr)

theorem createJob_utters (spec : Option BenchSpec) (id : JobId) :
    (createJob env amb s.master spec id).Utters s := by
  unfold createJob
  cases hprep : prepareJob env amb spec id with
  | error e => exact .answerSame rfl
  | ok r =>
    obtain ⟨_, _, _, _, _, _, _, hr⟩ := prepareJob_ok hprep
    have hid : r.jobId = id := by rw [hr]; rfl
    exact .tells _ (.broadcast hid rfl rfl rfl rfl rfl) rfl

theorem step_utters {s' : Sys} {c : Choice} {rep : Option Reply} (hok : s.Ok)
    (h : s.step env c = some (s', rep)) : Utters s.issued s.master s'.master rep := by
  cases Sys.step_cases h with
  | resume hact ht ho => exact run_utters hok (hok.tasks _ (List.mem_of_getElem? ht)) ho
  | readerAct => exact .quiet rfl rfl rfl rfl
  | @readerFail i reason id hact hid => exact readerFail_utters hok id reason
  | readerExit => exact .quiet rfl rfl rfl rfl
  | @created spec id hact hissued => exact createJob_utters spec id
  | started hnew hold ho => exact startAction_utters hok hnew ho

end

section

variable {H : Type} {env : MasterEnv H}

theorem Reachable.dead {s : Sys} (hs : (machine env).Reachable s) {id : JobId} {r : JobRecord}
    (hr : s.job id = some r) (hterm : r.isTerminal = true) :
    Dead s.issued s.master.jobs id := by
  refine ⟨(Reachable.ok hs).issued id r hr, fun r' hr' => ?_⟩
  obtain rfl := Option.some.inj (hr.symm.trans hr')
  exact hterm

variable {s s' : Sys} {c : Choice} {rep : Option Reply} {cur : Option Task}
  {rest spawn : List Task}

theorem Move.silent (h : Move env s c s' rep cur rest spawn) {id : JobId}
    (hdead : Dead s.issued s.master.jobs id) :
    Tells s.master s'.master fun j => j ≠ id := by
  have hlive : ∀ {j : JobId} {r : JobRecord}, s.master.jobs.get? j = some r →
      r.isTerminal = false → j ≠ id := by
    rintro j r hr hterm rfl
    rw [hdead.2 r hr] at hterm
    cases hterm
  have hwrote : ∀ {j : JobId} {r r' : JobRecord}, Wrote s.master s'.master j r r' →
      Tells s.master s'.master fun j => j ≠ id := by
    intro j r r' hw
    refine hw.tells.mono fun k hk => ?_
    rw [hk.1]
    exact hlive hw.found hk.2
  have hnone : Tells s.master s'.master (fun _ => False) →
      Tells s.master s'.master fun j => j ≠ id := fun ht => ht.mono fun _ hf => hf.elim
  cases h.effect with
  | idle _ _ ht => exact hnone ht
  | pushed _ _ _ _ _ ht => exact hnone ht
  | dequeued _ _ _ _ _ _ ht => exact hnone ht
  | fetchedNone _ _ _ _ _ _ _ ht => exact hnone ht
  | released _ _ _ _ _ ht => exact hnone ht
  | collected _ _ _ _ ht => exact hnone ht
  | noted _ _ hw => exact hwrote hw
  | resulted _ _ _ _ _ _ hw => exact hwrote hw
  | readied _ _ _ _ hw => exact hwrote hw
  | started _ _ _ _ hw => exact hwrote hw
  | ended _ _ _ _ _ _ _ hw => exact hwrote hw
  | concluded _ _ _ _ _ _ _ _ _ _ _ hw => exact hwrote hw
  | assigned _ _ _ hw => exact hwrote hw
  | filled _ _ _ _ _ hw => exact hwrote hw
  | ticked now toClean _ _ _ _ _ _ ht =>
    refine ht.mono ?_
    rintro j ⟨r, reason, hr, hv⟩
    refine hlive hr ?_
    rcases (tickVerdict_some hv).1 with hs | hs <;> simp [JobRecord.isTerminal, hs]
  | created hact _ _ _ ht =>
    refine ht.mono ?_
    rintro j rfl rfl
    exact (h.fresh _ _ hact).1 hdead.1

end

end CvdBench.Master
