import CvdBench.Cli.Session
import CvdBench.Foundation.Tally
import CvdBench.Master.Replies

/-!
Sessions of the command line over whole runs, together with the master that they call: what a
session reports is final, it is about the job that was asked for, and a cancellation that the
master has acknowledged leads to a report.
-/

set_option autoImplicit false

namespace CvdBench.Cli

open Foundation Proto Master

/-- The answer of QueryJob shows this record; the scan of the manifest may go on. -/
structure Shows (query : QueryJobResponse) (r : JobRecord) : Prop where
  job : query.job = some r.toPbJob
  workerResults : ∃ order : HashOrder String, query.workerResults = order.values r.workerResults
  aggregated : query.aggregated = r.aggregated
  error : query.error = r.error
  runWorkers : query.runWorkers = (i32TryFrom r.runWorkerCount).getD (2^31 - 1)

def Created (spec : BenchSpec) (id : JobId) (s : Sys) : Prop :=
  id ∈ s.issued ∧ ∀ r, s.job id = some r → r.specRedacted = storedSpec spec

/-- The answer is of a job that is over, and the record shows nothing else as long as it is
there. -/
structure Final (id : JobId) (query : QueryJobResponse) (s : Sys) : Prop where
  issued : id ∈ s.issued
  terminal : queryIsTerminal query = true
  named : query.job.map (·.jobId) = some id
  shown : ∀ r, s.job id = some r → Shows query r

def Gone (id : JobId) (s : Sys) : Prop := Dead s.issued s.master.jobs id

@[simp] theorem isTerminalStatus_eq (r : JobRecord) :
    isTerminalStatus r.status = r.isTerminal := by
  unfold isTerminalStatus JobRecord.isTerminal
  cases r.status <;> rfl

theorem Shows.terminal {query : QueryJobResponse} {r : JobRecord} (h : Shows query r) :
    queryIsTerminal query = r.isTerminal := by
  rw [queryIsTerminal, h.job, Option.any_some, ← isTerminalStatus_eq]
  rfl

theorem Shows.completed {query : QueryJobResponse} {r : JobRecord} (h : Shows query r)
    (hco : r.Coherent) (hstatus : r.status = .completed) :
    (∀ result ∈ query.workerResults, result.success = true) ∧
      query.runWorkers = min (query.workerResults.length : Int) (2^31 - 1) := by
  obtain ⟨-, hcard, -, hkeys, hsuccess⟩ := hco.completed hstatus
  obtain ⟨order, hresults⟩ := h.workerResults
  have hne : r.runWorkers ≠ ∅ := by
    rintro hempty
    have hpos := hco.targetPos
    rw [hempty, Finset.card_empty] at hcard
    omega
  have hcount : r.runWorkerCount = query.workerResults.length := by
    rw [JobRecord.runWorkerCount, if_neg hne, hresults, HashOrder.length_values, HashMap.len,
      hkeys]
  refine ⟨fun result hmem => ?_, ?_⟩
  · rw [hresults] at hmem
    obtain ⟨w, hw⟩ := order.mem_values.mp hmem
    exact hsuccess w result hw
  · rw [h.runWorkers, hcount, i32TryFrom]
    split
    · simp only [Option.getD_some]
      omega
    · simp only [Option.getD_none]
      omega

section

variable {H : Type} {env : MasterEnv H} {s t : Sys} {c : Choice} {o : Option Reply}

theorem record_before (hs : (machine env).Reachable s)
    (hstep : (machine env).step s c = some (t, o)) {id : JobId} (hid : id ∈ s.issued)
    {r' : JobRecord} (hr' : t.job id = some r') :
    ∃ r, s.job id = some r ∧ (r' = r ∨ r.Step env.hdr r') := by
  obtain ⟨cur, rest, spawn, hmove⟩ := Reachable.move hs hstep
  cases hmove.origin (Reachable.ok hs) hr' with
  | created _ hact => exact absurd hid (hmove.fresh _ _ hact).1
  | old r hr hold => exact ⟨r, hr, hold⟩

theorem issued_step (hs : (machine env).Reachable s)
    (hstep : (machine env).step s c = some (t, o)) : s.issued ⊆ t.issued := by
  obtain ⟨cur, rest, spawn, hmove⟩ := Reachable.move hs hstep
  exact hmove.issued

theorem Created.step (hs : (machine env).Reachable s)
    (hstep : (machine env).step s c = some (t, o)) {spec : BenchSpec} {id : JobId}
    (h : Created spec id s) : Created spec id t := by
  refine ⟨issued_step hs hstep h.1, fun r' hr' => ?_⟩
  obtain ⟨r, hr, rfl | hrec⟩ := record_before hs hstep h.1 hr'
  · exact h.2 r' hr
  · rw [hrec.spec]
    exact h.2 r hr

theorem Gone.step (hs : (machine env).Reachable s)
    (hstep : (machine env).step s c = some (t, o)) {id : JobId} (h : Gone id s) :
    Gone id t := by
  obtain ⟨cur, rest, spawn, hmove⟩ := Reachable.move hs hstep
  exact (hmove.later (Reachable.ok hs)).dead h

theorem Shows.step {H : Type} {lib : Metrics.HdrLib H} {query : QueryJobResponse}
    {r r' : JobRecord} (h : Shows query r) (hterm : r.isTerminal = true)
    (hstep : r.Step lib r') : Shows query r' := by
  have hle := hstep.le
  have hfrozen := hle.frozen hterm
  obtain ⟨order, hresults⟩ := h.workerResults
  refine ⟨?_, ⟨order, ?_⟩, ?_, ?_, ?_⟩
  · rw [h.job]
    unfold JobRecord.toPbJob
    rw [hle.jobId, hstep.spec, hfrozen.status, hstep.createdAtMs]
  · rw [hresults, hfrozen.workerResults]
  · rw [h.aggregated, hfrozen.aggregated]
  · rw [h.error, hfrozen.error]
  · rw [h.runWorkers, JobRecord.runWorkerCount, JobRecord.runWorkerCount, hfrozen.runWorkers,
      hfrozen.workerAssignments]

theorem Final.step (hs : (machine env).Reachable s)
    (hstep : (machine env).step s c = some (t, o)) {id : JobId} {query : QueryJobResponse}
    (h : Final id query s) : Final id query t := by
  refine ⟨issued_step hs hstep h.issued, h.terminal, h.named, fun r' hr' => ?_⟩
  obtain ⟨r, hr, rfl | hrec⟩ := record_before hs hstep h.issued hr'
  · exact h.shown r' hr
  · have hshows := h.shown r hr
    exact hshows.step (hshows.terminal.symm.trans h.terminal) hrec

theorem call_after {o' : Outcome} (hnew : ∀ spec id, c.act ≠ .createJob spec id)
    (h : (machine env).step s c = some (t, o))
    (ho : startAction env c.amb s.master c.act = some o') :
    t = { s with master := o'.state, inflight := s.inflight ++ o'.spawn } ∧ o = o'.reply := by
  have hstep : some (t, o) = some (s.after s.inflight o') := h.symm.trans (Sys.step_call hnew ho)
  exact Prod.mk.inj (Option.some.inj hstep)

theorem createJob_begun {amb : Ambient} {spec : BenchSpec} {id : JobId}
    (h : (machine env).step s ⟨.createJob (some spec) id, amb⟩ = some (t, none)) :
    Created spec id t := by
  have h : s.step env ⟨.createJob (some spec) id, amb⟩ = some (t, none) := h
  have hcases := Sys.step_cases h
  generalize hres : (t, (none : Option Reply)) = res at hcases
  cases hcases with
  | created hact hissued =>
    cases hact
    obtain ⟨rfl, hnone⟩ := Prod.mk.inj hres
    refine ⟨Finset.mem_insert_self .., fun r hr => ?_⟩
    unfold createJob at hr hnone
    cases hprep : prepareJob env amb (some spec) id with
    | error e =>
      simp only [hprep] at hnone
      cases hnone
    | ok r₀ =>
      simp only [hprep] at hr
      have hr : (HashMap.put s.master.jobs id r₀).get? id = some r := hr
      rw [HashMap.get?_put_self] at hr
      cases hr
      obtain ⟨_, _, _, _, _, heq, _, _, rfl⟩ := prepareJob_accepted hprep
      cases heq
      rfl
  | started hnew => exact absurd rfl (hnew _ _)
  | resume hact | readerAct hact | readerFail hact | readerExit hact => cases hact

theorem createJob_refused {amb : Ambient} {spec : BenchSpec} {id : JobId} {res : Reply}
    (h : (machine env).step s ⟨.createJob (some spec) id, amb⟩ = some (t, some res)) :
    ∀ res', res ≠ .createJob (.ok res') := by
  rintro res' rfl
  have h : s.step env ⟨.createJob (some spec) id, amb⟩ = some (t, some (.createJob (.ok res'))) := h
  have hcases := Sys.step_cases h
  generalize hres : (t, some (Reply.createJob (.ok res'))) = res at hcases
  cases hcases with
  | created hact hissued =>
    cases hact
    exact (createJob_answers env amb s.master (some spec) id).2 res' (congrArg Prod.snd hres).symm
  | started hnew => exact absurd rfl (hnew _ _)
  | resume hact | readerAct hact | readerFail hact | readerExit hact => cases hact

theorem queryJob_answered {amb : Ambient} {id : JobId}
    (h : (machine env).step s ⟨.queryJob id, amb⟩ = some (t, o)) :
    t = s ∧ ∃ res, o = some (.queryJob id res) ∧ ∀ query, res = .ok query →
      ∃ r, s.job id = some r ∧ Shows query r := by
  obtain ⟨rfl, rfl⟩ := call_after (by simp) h (rfl : _ = some (queryJob amb s.master id))
  unfold queryJob
  cases hr : s.master.jobs.get? id with
  | none =>
    refine ⟨by simp [Outcome.answer], _, rfl, fun query hquery => ?_⟩
    cases hquery
  | some r =>
    refine ⟨by simp [Outcome.answer], _, rfl, fun query hquery => ?_⟩
    cases hquery
    exact ⟨r, hr, rfl, ⟨amb.order id, rfl⟩, rfl, rfl, rfl⟩

theorem deleteJob_begun (hs : (machine env).Reachable s) {amb : Ambient} {id : JobId}
    (h : (machine env).step s ⟨.deleteJob id, amb⟩ = some (t, o)) :
    (o = none → Gone id t) ∧ ∀ id', o = some (.deleteJob id' (.ok ())) → Gone id t := by
  have hok := Reachable.ok hs
  obtain ⟨rfl, rfl⟩ := call_after (by simp) h (rfl : _ = some (deleteJob env amb s.master id))
  have hsection : Section env ⟨.deleteJob id, amb⟩ s none (deleteJob env amb s.master id) :=
    deleteJob_section hok
  unfold deleteJob at hsection ⊢
  cases hr : s.master.jobs.get? id with
  | none => exact ⟨nofun, nofun⟩
  | some r =>
    by_cases hterm : r.isTerminal = true
    · simp only [hterm, if_true]
      refine ⟨nofun, fun _ _ => ⟨hok.issued id r hr, fun r' hr' => ?_⟩⟩
      obtain rfl := Option.some.inj (hr.symm.trans hr')
      exact hterm
    · simp only [hr, hterm, Bool.false_eq_true, if_false] at hsection ⊢
      exact ⟨fun _ => hsection.spawned _ (List.mem_singleton_self _), nofun⟩

end

namespace SessionPc

def early : SessionPc → Bool
  | .start | .creating | .firstQuery => true
  | _ => false

def isFirstQuery : SessionPc → Bool
  | .firstQuery => true
  | _ => false

def failed : SessionPc → Bool
  | .ended (.failed _) => true
  | _ => false

def unsettled : SessionPc → Bool
  | .sleeping _ | .ended (.failed (.streamEnded _)) => true
  | _ => false

def shown? : SessionPc → Option QueryJobResponse
  | .reporting query | .ended (.reported query) => some query
  | _ => none

end SessionPc

def Acked (tr : SessionHistory) : Prop :=
  ∃ e ∈ tr, ∃ jobId, e.act.2 = .answer (.deleteJob jobId (.ok ()))

def Named : Command → Session → Sys → Prop
  | .create spec, c, s => c.pc.isFirstQuery = false ∧
      (c.pc.early = false → c.pc.failed = false → Created spec c.jobId s)
  | .watch jobId, c, _ => c.jobId = jobId

def About : Command → QueryJobResponse → Prop
  | .create spec, query => query.job.map (·.spec) = some (some (storedSpec spec))
  | .watch jobId, query => query.job.map (·.jobId) = some jobId

/-- What a session can rely on in the report of its job. -/
structure Asked (cmd : Command) (query : QueryJobResponse) : Prop where
  about : About cmd query
  aggregated : query.aggregated.isSome = true
  completed : query.job.map (·.status) = some .completed →
    (∀ result ∈ query.workerResults, result.success = true) ∧
      query.runWorkers = min (query.workerResults.length : Int) (2^31 - 1)

structure Knows (cmd : Command) (tr : SessionHistory) (c : Session) (s : Sys) : Prop where
  named : Named cmd c s
  acked : Acked tr → c.pc.early = false ∧ c.pc.unsettled = false ∧ Gone c.jobId s
  shown : ∀ query, c.pc.shown? = some query → Final c.jobId query s ∧ Asked cmd query

def Begun (s : Sys) : Request → Delivery → Prop
  | .createJob spec, d => Created spec d.newId s
  | .deleteJob jobId, _ => Gone jobId s
  | .watchJob _, _ | .queryJob _, _ => True

def Answered (cmd : Command) (tr : SessionHistory) (s : Sys) : Request → Reply → Prop
  | .createJob spec, .createJob (.ok res) => Created spec res.jobId s
  | .deleteJob jobId, .deleteJob _ (.ok ()) => Gone jobId s
  | .queryJob jobId, .queryJob _ (.ok query) =>
      (queryIsTerminal query = true → Final jobId query s ∧ Asked cmd query) ∧
        (Acked tr → queryIsTerminal query = true)
  | _, _ => True

def awaits (cmd : Command) (c : Session) : Option Request :=
  match c.pc, cmd with
  | .creating, .create spec => some (.createJob spec)
  | .firstQuery, _ | .querying _, _ => some (.queryJob c.jobId)
  | .opening, _ => some (.watchJob c.jobId)
  | .cancelling, _ => some (.deleteJob c.jobId)
  | _, _ => none

theorem awaits_queryJob {cmd : Command} {c : Session} {jobId : JobId}
    (h : awaits cmd c = some (.queryJob jobId)) : c.jobId = jobId := by
  unfold awaits at h
  split at h <;> cases h <;> rfl

theorem awaits_follows {cmd : Command} {c : Session} {jobId : JobId}
    (hfirst : c.pc.isFirstQuery = false) (h : awaits cmd c = some (.queryJob jobId)) :
    c.pc.early = false ∧ c.pc.failed = false := by
  unfold awaits at h
  split at h
  · cases h
  · next hpc =>
    rw [hpc] at hfirst
    cases hfirst
  · next hpc =>
    rw [hpc]
    exact ⟨rfl, rfl⟩
  · cases h
  · cases h
  · cases h

theorem acked_snoc {tr : SessionHistory}
    {e : Event Session (SessionAct × Heard Reply) (Option Request)} (h : Acked (tr ++ [e])) :
    Acked tr ∨ ∃ jobId, e.act.2 = .answer (.deleteJob jobId (.ok ())) := by
  obtain ⟨e', he', hack⟩ := h
  rcases List.mem_append.mp he' with he' | he'
  · exact .inl ⟨e', he', hack⟩
  · rw [List.mem_singleton.mp he'] at hack
    exact .inr hack

theorem acked_quiet {tr : SessionHistory}
    {e : Event Session (SessionAct × Heard Reply) (Option Request)}
    (hquiet : ∀ jobId res, e.act.2 ≠ .answer (.deleteJob jobId res)) (h : Acked (tr ++ [e])) :
    Acked tr :=
  (acked_snoc h).resolve_right fun hack => hack.elim fun jobId hres => hquiet jobId _ hres

section

variable {H ι : Type} {env : MasterEnv H} {commands : ι → Command}

theorem sessions_waits : (sessions env commands).Waits fun i => awaits (commands i) where
  init i := by
    show awaits (commands i) (.new (commands i)) = none
    cases commands i <;> rfl
  step {i c act c' out} h := by
    cases Session.step_move h with
    | creates spec hcmd => simp only [awaits, hcmd, Session.goes]
    | looks | fails | created | opens | streams | prompts | interrupted | detached | cancels
    | cancelled | streamEnds | settled | waits | gaveUp | polls | reported => rfl

variable {s t : Sys} {c : Choice} {o : Option Reply}

theorem Knows.serve (hs : (machine env).Reachable s)
    (hstep : (machine env).step s c = some (t, o)) {cmd : Command} {tr : SessionHistory}
    {p : Session} (h : Knows cmd tr p s) : Knows cmd tr p t := by
  refine ⟨?_, fun hack => ?_, fun query hq => (h.shown query hq).imp_left (·.step hs hstep)⟩
  · have hnamed := h.named
    cases cmd with
    | create spec =>
      exact ⟨hnamed.1, fun hearly hfailed => (hnamed.2 hearly hfailed).step hs hstep⟩
    | watch => exact hnamed
  · obtain ⟨hearly, hsettled, hgone⟩ := h.acked hack
    exact ⟨hearly, hsettled, hgone.step hs hstep⟩

theorem Begun.serve (hs : (machine env).Reachable s)
    (hstep : (machine env).step s c = some (t, o)) {req : Request} {d : Delivery}
    (h : Begun s req d) : Begun t req d := by
  cases req with
  | createJob spec => exact Created.step hs hstep h
  | deleteJob => exact Gone.step hs hstep h
  | watchJob | queryJob => trivial

theorem Answered.serve (hs : (machine env).Reachable s)
    (hstep : (machine env).step s c = some (t, o)) {cmd : Command} {tr : SessionHistory}
    {req : Request} {res : Reply} (h : Answered cmd tr s req res) :
    Answered cmd tr t req res := by
  unfold Answered at h ⊢
  split
  · exact Created.step hs hstep h
  · exact Gone.step hs hstep h
  · exact ⟨fun hterm => (h.1 hterm).imp_left (·.step hs hstep), h.2⟩
  · trivial

theorem Begun.begins (hs : (machine env).Reachable s) {req : Request} {d : Delivery}
    (hstep : (machine env).step s ⟨req.action d.newId, d.amb⟩ = some (t, none)) :
    Begun t req d := by
  cases req with
  | createJob spec => exact createJob_begun hstep
  | deleteJob => exact (deleteJob_begun hs hstep).1 rfl
  | watchJob | queryJob => trivial

theorem Answered.delivers (hs : (machine env).Reachable s) {cmd : Command}
    {tr : SessionHistory} {p : Session} {req : Request} {d : Delivery} {res : Reply}
    (hknows : Knows cmd tr p s) (hawaits : awaits cmd p = some req)
    (hstep : (machine env).step s ⟨req.action d.newId, d.amb⟩ = some (t, some res)) :
    Answered cmd tr t req res := by
  cases req with
  | createJob spec =>
    have hreply := createJob_refused hstep
    unfold Answered
    split
    · exact absurd rfl (hreply _)
    · trivial
    · trivial
    · trivial
  | deleteJob jobId =>
    cases res with
    | deleteJob id res =>
      cases res with
      | ok => exact (deleteJob_begun hs hstep).2 id rfl
      | error => trivial
    | _ => trivial
  | queryJob jobId =>
    obtain ⟨rfl, res', hres, hquery⟩ := queryJob_answered hstep
    cases hres
    cases res' with
    | error => trivial
    | ok query =>
      obtain ⟨r, hr, hshows⟩ := hquery query rfl
      have hok := Reachable.ok hs
      have hnamed : query.job.map (·.jobId) = some jobId := by
        rw [hshows.job]
        exact congrArg some (hok.keyed jobId r hr)
      refine ⟨fun hterm => ⟨⟨hok.issued jobId r hr, hterm, hnamed, fun r' hr' => ?_⟩, ?_⟩,
        fun hack => ?_⟩
      · obtain rfl := Option.some.inj (hr.symm.trans hr')
        exact hshows
      · have hco := hok.coherent jobId r hr
        refine ⟨?_, ?_, fun hcompleted => hshows.completed hco ?_⟩
        rotate_left
        · rw [hshows.aggregated]
          exact (hco.published.mp (hshows.terminal.symm.trans hterm)).2
        · rw [hshows.job] at hcompleted
          exact Option.some.inj hcompleted
        have hcreated := hknows.named
        cases cmd with
        | create spec =>
          obtain ⟨hearly, hfailed⟩ := awaits_follows hcreated.1 hawaits
          have hspec := (hcreated.2 hearly hfailed).2 r (awaits_queryJob hawaits ▸ hr)
          rw [About, hshows.job]
          exact congrArg (some ∘ some) hspec
        | watch id =>
          rw [About, hnamed, ← hcreated, awaits_queryJob hawaits]
      · obtain ⟨-, -, hgone⟩ := hknows.acked hack
        rw [awaits_queryJob hawaits] at hgone
        rw [hshows.terminal]
        exact hgone.2 r hr
  | watchJob => cases res <;> trivial

theorem Answered.later (hs : (machine env).Reachable s)
    (hstep : (machine env).step s c = some (t, o)) {cmd : Command} {tr : SessionHistory}
    {req : Request} {d : Delivery} {res : Reply} (hbegun : Begun s req d)
    (hanswers : answersLater req d res = true) : Answered cmd tr t req res := by
  have hbegun := hbegun.serve hs hstep
  cases req with
  | createJob spec =>
    cases res with
    | createJob res =>
      cases res with
      | ok res =>
        have hid : res.jobId = d.newId := by simpa [answersLater] using hanswers
        show Created spec res.jobId t
        rw [hid]
        exact hbegun
      | error => trivial
    | _ => trivial
  | deleteJob jobId =>
    cases res with
    | deleteJob _ res =>
      cases res with
      | ok => exact hbegun
      | error => trivial
    | _ => trivial
  | queryJob | watchJob => cases hanswers

section

variable {cmd : Command} {tr : SessionHistory} {p p' : Session}
  {e : Event Session (SessionAct × Heard Reply) (Option Request)}

theorem Knows.goes (h : Knows cmd tr p s) (hearly : p.pc.early = false)
    (hfailed : p.pc.failed = false) (hid : p'.jobId = p.jobId) (hearly' : p'.pc.early = false)
    (hack : Acked (tr ++ [e]) → (Acked tr ∨ Gone p.jobId s) ∧ p'.pc.unsettled = false)
    (hshown : ∀ query, p'.pc.shown? = some query → Final p.jobId query s ∧ Asked cmd query) :
    Knows cmd (tr ++ [e]) p' s := by
  refine ⟨?_, fun hacked => ⟨hearly', (hack hacked).2, ?_⟩, fun query hq => ?_⟩
  · have hnamed := h.named
    cases cmd with
    | create spec =>
      refine ⟨?_, fun _ _ => hid ▸ hnamed.2 hearly hfailed⟩
      cases hpc : p'.pc <;> first | rfl | (rw [hpc] at hearly'; cases hearly')
    | watch => exact hid.trans hnamed
  · rw [hid]
    exact (hack hacked).1.elim (fun hacked => (h.acked hacked).2.2) id
  · rw [hid]
    exact hshown query hq

theorem Knows.enters (h : Knows cmd tr p s) (hearly : p.pc.early = true)
    (hquiet : ∀ jobId res, e.act.2 ≠ .answer (.deleteJob jobId res)) (hnamed : Named cmd p' s)
    (hshown : ∀ query, p'.pc.shown? = some query → Final p'.jobId query s ∧ Asked cmd query) :
    Knows cmd (tr ++ [e]) p' s := by
  refine ⟨hnamed, fun hacked => ?_, hshown⟩
  have hfollows := (h.acked (acked_quiet hquiet hacked)).1
  rw [hearly] at hfollows
  cases hfollows

theorem Named.first (h : Named cmd p s) (hpc : p.pc = .firstQuery) (hid : p'.jobId = p.jobId) :
    Named cmd p' s := by
  cases cmd with
  | create =>
    have hfirst := h.1
    rw [hpc] at hfirst
    cases hfirst
  | watch => exact hid.trans h

theorem Answered.notAcked {id jobId : JobId} {query : QueryJobResponse}
    (h : Answered cmd tr s (.queryJob id) (.queryJob jobId (.ok query)))
    (hterm : queryIsTerminal query = false) : ¬ Acked tr := by
  intro hacked
  have hover := h.2 hacked
  rw [hterm] at hover
  cases hover

theorem Knows.hears {act : SessionAct × Heard Reply} {out : Option Request}
    (h : Knows cmd tr p s) (hmove : Session.Move cmd p act p' out)
    (hheard : ∀ res, act.2 = .answer res → ∃ req, awaits cmd p = some req ∧
      Answered cmd tr s req res) : Knows cmd (tr ++ [⟨p, act, out, p'⟩]) p' s := by
  have hnone : ∀ (pc : SessionPc) (jobId : JobId), pc.shown? = none →
      ∀ query, pc.shown? = some query → Final jobId query s ∧ Asked cmd query := by
    intro pc jobId hpc query hq
    cases hpc.symm.trans hq
  cases hmove with
  | creates spec hcmd hpc =>
    subst hcmd
    exact h.enters (by rw [hpc]; rfl) (by simp) ⟨rfl, nofun⟩ (hnone _ _ rfl)
  | looks jobId hcmd hpc =>
    have hnamed := h.named
    subst hcmd
    exact h.enters (by rw [hpc]; rfl) (by simp) hnamed (hnone _ _ rfl)
  | fails act heard err hne hquiet =>
    refine ⟨?_, fun hacked => ?_, hnone _ _ rfl⟩
    · have hnamed := h.named
      cases cmd with
      | create => exact ⟨rfl, nofun⟩
      | watch => exact hnamed
    · refine ⟨rfl, ?_, (h.acked (acked_quiet hquiet hacked)).2.2⟩
      cases err <;> first | rfl | exact absurd rfl (hne _)
  | created res hpc =>
    obtain ⟨req, hawaits, hanswered⟩ := hheard _ rfl
    refine h.enters (by rw [hpc]; rfl) (by simp) ?_ (hnone _ _ rfl)
    cases cmd with
    | create spec =>
      simp only [awaits, hpc] at hawaits
      cases hawaits
      exact ⟨rfl, fun _ _ => hanswered⟩
    | watch =>
      simp only [awaits, hpc] at hawaits
      cases hawaits
  | opens heard hpc hquiet =>
    exact h.enters (by rw [hpc]; rfl) hquiet (h.named.first hpc rfl) (hnone _ _ rfl)
  | streams _ _ hpc | prompts hpc | interrupted hpc | detached _ _ hpc | cancels _ _ hpc
  | streamEnds _ hpc | polls _ hpc =>
    exact h.goes (by rw [hpc]; rfl) (by rw [hpc]; rfl) rfl rfl
      (fun hacked => ⟨.inl (acked_quiet (by simp) hacked), rfl⟩) (hnone _ _ rfl)
  | cancelled heard hpc hheard' =>
    refine h.goes (by rw [hpc]; rfl) (by rw [hpc]; rfl) rfl rfl (fun hacked => ⟨?_, rfl⟩)
      (hnone _ _ rfl)
    rcases acked_snoc hacked with hacked | ⟨jobId, hres⟩
    · exact .inl hacked
    · obtain ⟨req, hawaits, hanswered⟩ := hheard _ hres
      simp only [awaits, hpc] at hawaits
      cases hawaits
      exact .inr hanswered
  | settled jobId query hpc hterm =>
    obtain ⟨req, hawaits, hanswered⟩ := hheard _ rfl
    have hfinal : Final p.jobId query s ∧ Asked cmd query := by
      rcases hpc with hpc | ⟨polls, hpc⟩ <;> simp only [awaits, hpc] at hawaits <;>
        cases hawaits <;> exact hanswered.1 hterm
    have hshown : ∀ q, (SessionPc.reporting query).shown? = some q →
        Final p.jobId q s ∧ Asked cmd q := by
      rintro q hq
      cases hq
      exact hfinal
    rcases hpc with hpc | ⟨polls, hpc⟩
    · exact h.enters (by rw [hpc]; rfl) (by simp) (h.named.first hpc rfl) hshown
    · exact h.goes (by rw [hpc]; rfl) (by rw [hpc]; rfl) rfl rfl
        (fun hacked => ⟨.inl (acked_quiet (by simp) hacked), rfl⟩) hshown
  | waits polls jobId query hpc hterm =>
    obtain ⟨req, hawaits, hanswered⟩ := hheard _ rfl
    simp only [awaits, hpc] at hawaits
    cases hawaits
    exact h.goes (by rw [hpc]; rfl) (by rw [hpc]; rfl) rfl rfl
      (fun hacked => absurd (acked_quiet (by simp) hacked) (hanswered.notAcked hterm))
      (hnone _ _ rfl)
  | gaveUp jobId query text hpc hterm =>
    obtain ⟨polls, hpc⟩ := hpc
    obtain ⟨req, hawaits, hanswered⟩ := hheard _ rfl
    simp only [awaits, hpc] at hawaits
    cases hawaits
    exact h.goes (by rw [hpc]; rfl) (by rw [hpc]; rfl) rfl rfl
      (fun hacked => absurd (acked_quiet (by simp) hacked) (hanswered.notAcked hterm))
      (hnone _ _ rfl)
  | reported act query hpc =>
    refine h.goes (by rw [hpc]; rfl) (by rw [hpc]; rfl) rfl rfl
      (fun hacked => ⟨.inl (acked_quiet (by simp) hacked), rfl⟩) ?_
    intro q hq
    cases hq
    exact h.shown query (by rw [hpc]; rfl)

end

theorem sessions_learn : (sessions env commands).Learns (fun i => awaits (commands i))
    (fun i => Knows (commands i)) (fun _ _ req d s => Begun s req d)
    (fun i tr req _ res s => Answered (commands i) tr s req res) where
  init i := by
    refine ⟨?_, fun ⟨_, he, _⟩ => absurd he List.not_mem_nil, fun query hq => ?_⟩
    · show Named (commands i) (.new (commands i)) Sys.init
      cases commands i with
      | create => exact ⟨rfl, nofun⟩
      | watch => rfl
    · have hstart : ∀ cmd, (Session.new cmd).pc = .start := fun cmd => by cases cmd <;> rfl
      have hq : (Session.new (commands i)).pc.shown? = some query := hq
      rw [hstart] at hq
      cases hq
  stable hs hstep i tr := ⟨fun _ h => h.serve hs hstep, fun _ _ =>
    ⟨fun h => h.serve hs hstep, fun _ h => h.serve hs hstep⟩⟩
  begins hs _ _ hstep hnone := by
    cases hnone
    exact Begun.begins hs hstep
  delivers hs hknows hawaits hstep hres := by
    cases hres
    exact Answered.delivers hs hknows hawaits hstep
  answers hs _ hstep hbegun _ hanswers := Answered.later hs hstep hbegun hanswers
  hears _ hknows hstep hheard := by
    refine hknows.hears (Session.step_move hstep) fun res hres => ?_
    obtain ⟨req, d, hawaits, hanswered⟩ := hheard res hres
    exact ⟨req, hawaits, hanswered⟩

end

def Request.isQuery : Request → Bool
  | .queryJob _ => true
  | _ => false

def Request.isCreate : Request → Bool
  | .createJob _ => true
  | _ => false

def asked (kind : Request → Bool) (tr : SessionHistory) : Nat :=
  tr.countP fun e => e.out.any kind

/-- How often it can still ask for the record. -/
def SessionPc.queriesLeft : SessionPc → Nat
  | .start => maxPolls + 2
  | .creating | .firstQuery | .opening | .streaming | .prompting | .cancelling => maxPolls + 1
  | .querying polls | .sleeping polls => maxPolls - polls
  | .reporting _ | .ended _ => 0

def SessionPc.createsLeft : SessionPc → Nat
  | .start => 1
  | _ => 0

theorem asked_snoc (kind : Request → Bool) (tr : SessionHistory)
    (e : Event Session (SessionAct × Heard Reply) (Option Request)) :
    asked kind (tr ++ [e]) = asked kind tr + if e.out.any kind then 1 else 0 := by
  rw [asked, List.countP_append, List.countP_singleton, asked]

structure Bounded (tr : SessionHistory) (c : Session) : Prop where
  queries : asked Request.isQuery tr + c.pc.queriesLeft ≤ maxPolls + 2
  creates : asked Request.isCreate tr + c.pc.createsLeft ≤ 1
  sleeping : ∀ polls, c.pc = .sleeping polls → polls < maxPolls

theorem Session.Move.spends {cmd : Command} {c c' : Session} {act : SessionAct × Heard Reply}
    {out : Option Request} (h : Session.Move cmd c act c' out)
    (hsleeping : ∀ polls, c.pc = .sleeping polls → polls < maxPolls) :
    c'.pc.queriesLeft + (if out.any Request.isQuery then 1 else 0) ≤ c.pc.queriesLeft ∧
      c'.pc.createsLeft + (if out.any Request.isCreate then 1 else 0) ≤ c.pc.createsLeft ∧
        ∀ polls, c'.pc = .sleeping polls → polls < maxPolls := by
  cases h with
  | fails => exact ⟨Nat.zero_le _, Nat.zero_le _, nofun⟩
  | settled => exact ⟨Nat.zero_le _, Nat.zero_le _, nofun⟩
  | gaveUp => exact ⟨Nat.zero_le _, Nat.zero_le _, nofun⟩
  | reported => exact ⟨Nat.zero_le _, Nat.zero_le _, nofun⟩
  | waits polls jobId query hpc _ hmore =>
    rw [hpc]
    refine ⟨Nat.le_refl _, Nat.le_refl _, fun polls' hpolls => ?_⟩
    cases hpolls
    exact hmore
  | polls n hpc =>
    have hmore := hsleeping n hpc
    rw [hpc]
    refine ⟨?_, Nat.le_refl _, nofun⟩
    show maxPolls - (n + 1) + 1 ≤ maxPolls - n
    omega
  | creates _ _ hpc | looks _ _ hpc | created _ hpc | opens _ hpc | streams _ _ hpc | prompts hpc
  | interrupted hpc | detached _ _ hpc | cancels _ _ hpc | cancelled _ hpc | streamEnds _ hpc =>
    rw [hpc]
    exact ⟨Nat.le_of_ble_eq_true rfl, Nat.le_of_ble_eq_true rfl, nofun⟩

theorem session_bounded {cmd : Command} {tr : SessionHistory} {c : Session}
    (h : (session cmd).Run (session cmd).init tr c) : Bounded tr c := by
  refine h.history ?_ ?_
  · have hstart : (Session.new cmd).pc = .start := by cases cmd <;> rfl
    refine ⟨?_, ?_, fun polls hpc => ?_⟩
    · show asked _ [] + (Session.new cmd).pc.queriesLeft ≤ _
      rw [hstart]
      exact Nat.le_refl _
    · show asked _ [] + (Session.new cmd).pc.createsLeft ≤ _
      rw [hstart]
      exact Nat.le_refl _
    · cases hstart.symm.trans hpc
  · intro tr c act c' out _ hb hstep
    obtain ⟨hqueries, hcreates, hsleeping⟩ := hb
    obtain ⟨hq, hc, hsleeping'⟩ := (Session.step_move hstep).spends hsleeping
    refine ⟨?_, ?_, hsleeping'⟩
    · rw [asked_snoc]
      simp only
      omega
    · rw [asked_snoc]
      simp only
      omega

section

variable {H ι : Type} [DecidableEq ι] {env : MasterEnv H} {commands : ι → Command}

abbrev SessionsTrace (ι : Type) :=
  CallTrace ι Sys Choice (Option Reply) Session SessionAct Request Reply Delivery

/-- What a session shows and writes is the record of its own job, of a job that is over; the
master never shows anything else of that job again, and it has a success of every worker if the
job is COMPLETED. -/
theorem session_reports {tr₁ tr₂ : SessionsTrace ι}
    {e : Event (Calling ι Sys Session Request Reply Delivery)
      (CallAct ι Choice SessionAct Delivery)
      (CallOut ι Sys Choice (Option Reply) Session SessionAct Request Reply)}
    {s : Calling ι Sys Session Request Reply Delivery}
    (hrun : (sessions env commands).calling.Run (sessions env commands).calling.init
      (tr₁ ++ e :: tr₂) s) {i : ι}
    {e' : Event Session (SessionAct × Heard Reply) (Option Request)} {query : QueryJobResponse}
    (hout : e.out = .client i e') (hshown : e'.post.pc.shown? = some query) :
    Asked (commands i) query ∧ Final e'.post.jobId query s.server := by
  obtain ⟨hrun₁, hstep, hrun₂⟩ := hrun.split rfl
  have hpre : (sessions env commands).calling.Run _ (tr₁ ++ [e]) e.post := hrun₁.snoc hstep
  have hclient : CallTrace.client i (tr₁ ++ [e]) = CallTrace.client i tr₁ ++ [e'] := by
    rw [CallTrace.client_snoc, hout, CallOut.client?, if_pos rfl]
    rfl
  have hlast := (Service.projects hpre).2 i
  rw [hclient] at hlast
  have hpost : e.post.clients i = e'.post := Machine.Run.eq_of_nil (hlast.split rfl).2.2
  have hknows := (sessions_learn.run sessions_waits hpre i).knows
  obtain ⟨hfinal, hasked⟩ := hknows.shown query (hpost ▸ hshown)
  refine ⟨hasked, ?_⟩
  rw [← hpost]
  have hkeeps := hrun₂.relates (R := fun s t => ∀ id query, Final id query s.server →
    Final id query t.server) (fun _ _ _ h => h) (fun _ _ _ h₁ h₂ _ _ h => h₂ _ _ (h₁ _ _ h))
    ⟨_, hpre⟩ ?_
  · exact hkeeps _ _ hfinal
  · intro s a t o hs hstep id query hfinal
    rcases (Service.step_moves hstep).parts with
      ⟨a', o', -, -, hserver⟩ | ⟨_, _, _, _, _, -, hserver, -, -, -⟩
    · obtain ⟨tr, hrun⟩ := hs
      exact hfinal.step ⟨_, (Service.projects hrun).1⟩ hserver
    · exact hserver ▸ hfinal

end

namespace Small

def commands : Bool → Command
  | true => .create (Master.Small.spec 1)
  | false => .watch "j"

def called (i : Bool) : List (CallAct Bool Choice SessionAct Delivery) :=
  [.deliver i ⟨Master.Small.amb 0, "j"⟩, .hear i .heard]

def resumes (waiting : Option Bool) : CallAct Bool Choice SessionAct Delivery :=
  .own ⟨.resume 0, Master.Small.amb 0⟩ waiting

/-- A job is created, watched and cancelled; another session looks at it then. -/
def cancelled : List (CallAct Bool Choice SessionAct Delivery) :=
  [.client true .run, .deliver true ⟨Master.Small.amb 0, "j"⟩, resumes (some true),
    .hear true .heard] ++ called true ++
  [.client true .ctrlC, .client true (.choose true (some "c\n")),
    .deliver true ⟨Master.Small.amb 0, ""⟩, resumes none, resumes (some true),
    .hear true .heard, .client true (.streamEnds none)] ++
  called true ++ [.client true (.write true), .client false .run] ++ called false

def trace : SessionsTrace Bool :=
  (sessions Master.Small.env commands).calling.trace
    (sessions Master.Small.env commands).calling.init cancelled

def final : Calling Bool Sys Session Request Reply Delivery :=
  (sessions Master.Small.env commands).calling.play
    (sessions Master.Small.env commands).calling.init cancelled

def shows (e : Event (Calling Bool Sys Session Request Reply Delivery)
    (CallAct Bool Choice SessionAct Delivery)
    (CallOut Bool Sys Choice (Option Reply) Session SessionAct Request Reply)) :
    Option (Bool × QueryJobResponse) :=
  match e.out with
  | .client i e' => e'.post.pc.shown?.map fun query => (i, query)
  | .server _ => none

def acks (res : Heard Reply) : Bool :=
  match res with
  | .answer (.deleteJob _ (.ok _)) => true
  | _ => false

theorem acks_eq_true {res : Heard Reply} (h : acks res = true) :
    ∃ jobId, res = .answer (.deleteJob jobId (.ok ())) := by
  unfold acks at h
  split at h
  · exact ⟨_, rfl⟩
  · cases h

end Small

theorem session_reports_small : ∃ e ∈ Small.trace, ∃ query, Small.shows e = some (false, query) ∧
    query.job.map (·.status) = some .cancelled ∧ Asked (.watch "j") query ∧
      Final "j" query Small.final.server := by
  have hany : Small.trace.any (fun e => (Small.shows e).any fun shown =>
      shown.1 == false && shown.2.job.map (·.status) == some .cancelled) = true := by
    decide +kernel
  obtain ⟨e, he, hshows⟩ := List.any_eq_true.mp hany
  obtain ⟨⟨i, query⟩, hquery, hshown⟩ := (Option.any_eq_true _ _).mp hshows
  obtain ⟨rfl, hcancelled⟩ : i = false ∧ query.job.map (·.status) = some .cancelled := by
    simpa using hshown
  refine ⟨e, he, query, hquery, hcancelled, ?_⟩
  have hrun : (sessions Master.Small.env Small.commands).calling.Run _ Small.trace Small.final :=
    Machine.run_play _ _ _
  obtain ⟨tr₁, tr₂, htrace⟩ := List.append_of_mem he
  rw [htrace] at hrun
  unfold Small.shows at hquery
  split at hquery
  · next i' e' hout =>
    obtain ⟨q, hshown, heq⟩ := Option.map_eq_some_iff.mp hquery
    cases heq
    obtain ⟨hasked, hfinal⟩ := session_reports hrun hout hshown
    have hid : query.job.map (·.jobId) = some "j" := hasked.about
    have heq : e'.post.jobId = "j" := Option.some.inj (hfinal.named.symm.trans hid)
    exact ⟨hasked, heq ▸ hfinal⟩
  · cases hquery

section

variable {H ι : Type} [DecidableEq ι] {env : MasterEnv H} {commands : ι → Command}

/-- A session creates at most one job and asks for a record at most twelve times; and once the
master has acknowledged its cancellation, the job of the session is over or about to be, so the
session neither polls nor gives up. -/
theorem session_asks {tr : SessionsTrace ι} {s : Calling ι Sys Session Request Reply Delivery}
    (hrun : (sessions env commands).calling.Run (sessions env commands).calling.init tr s)
    (i : ι) :
    asked Request.isCreate (tr.client i) ≤ 1 ∧ asked Request.isQuery (tr.client i) ≤ maxPolls + 2 ∧
      (Acked (tr.client i) →
        (s.clients i).pc.unsettled = false ∧ Gone (s.clients i).jobId s.server) := by
  have hbounded := session_bounded ((Service.projects hrun).2 i)
  have hqueries := hbounded.queries
  have hcreates := hbounded.creates
  have hknows := (sessions_learn.run sessions_waits hrun i).knows
  exact ⟨by omega, by omega, fun hack => (hknows.acked hack).2⟩

end

theorem session_asks_small : Acked (CallTrace.client true Small.trace) ∧
    asked Request.isCreate (CallTrace.client true Small.trace) ≤ 1 ∧
      asked Request.isQuery (CallTrace.client true Small.trace) ≤ maxPolls + 2 ∧
        (Small.final.clients true).pc.unsettled = false ∧ Gone "j" Small.final.server := by
  have hrun : (sessions Master.Small.env Small.commands).calling.Run _ Small.trace Small.final :=
    Machine.run_play _ _ _
  have hany : (CallTrace.client true Small.trace).any (fun e => Small.acks e.act.2) = true := by
    decide +kernel
  obtain ⟨e, he, hacks⟩ := List.any_eq_true.mp hany
  have hack : Acked (CallTrace.client true Small.trace) := ⟨e, he, Small.acks_eq_true hacks⟩
  obtain ⟨hcreates, hqueries, hgone⟩ := session_asks hrun true
  have hid : (Small.final.clients true).jobId = "j" := by decide +kernel
  exact ⟨hack, hcreates, hqueries, (hgone hack).1, hid ▸ (hgone hack).2⟩

end CvdBench.Cli
