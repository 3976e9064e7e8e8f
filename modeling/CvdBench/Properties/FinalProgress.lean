import CvdBench.Master.MetricsPage
import CvdBench.Master.Shown
import CvdBench.Properties.Results

/-!
The progress entry of a worker whose result is recorded: it stays the final one exactly as
long as no late ReportProgress of the worker is let in.
-/

set_option autoImplicit false

namespace CvdBench.Master

open Foundation Proto

/-- The step records the result, and the job goes on because others are unfinished. -/
def RecordsOpen (e : Step) (id : JobId) (result : WorkerResult) : Prop :=
  ∃ req r r', e.act.act = .reportResult req ∧ req.jobId = id ∧ req.result = some result ∧
    e.pre.job id = some r ∧ result.workerId ∉ r.workerResults.keys ∧ e.post.job id = some r' ∧
    r'.workerResults.get? result.workerId = some result ∧ r'.status = .running

def finalSnapshot (result : WorkerResult) : WorkerProgress :=
  { workerId := result.workerId, elapsedMs := result.effectiveDurationMs
    perOp := result.perOp, phase := WorkerPhase.finished.number }

def Announces (e : Step) (id : JobId) (event : JobEvent) : Prop :=
  (∃ calls call, e.post.master.subscribers = e.pre.master.subscribers ++ calls ∧
    call ∈ calls ∧ call.carried = some (id, event)) ∨ openedBy e.out = some (id, event)

def Prints (showF64 : Float → String) (m : MasterState) (id : JobId) (w : WorkerId)
    (lines : String) : Prop :=
  ∃ job ∈ (HashOrder.ascending JobId).entries m.jobs, job.1 = id ∧
    ∃ entry ∈ (HashOrder.ascending WorkerId).entries job.2.latestProgress, entry.1 = w ∧
      lines = renderWorker showF64 job.1 entry.1 entry.2

/-- Whatever is stored or shown of the worker after these steps is `final`. -/
structure StaysFinal (tr : Trace) (id : JobId) (final : WorkerProgress) : Prop where
  stored : ∀ e ∈ tr, ∀ r, e.post.job id = some r →
    r.latestProgress.get? final.workerId = some final
  events : ∀ e ∈ tr, ∀ event, Announces e id event → final ∈ event.workerProgress ∧
    ∀ p ∈ event.workerProgress, p.workerId = final.workerId → p = final
  page : ∀ e ∈ tr, ∀ showF64 lines, Prints showF64 e.post.master id final.workerId lines →
    lines = renderWorker showF64 id final.workerId final

/-- A ReportProgress of the worker that meets the job RUNNING, and says something else. -/
def Overwrites (id : JobId) (final : WorkerProgress) (s : Sys) (c : Choice) : Prop :=
  ∃ req p r, c.act = .reportProgress req ∧ req.jobId = id ∧ req.progress = some p ∧
    p.workerId = final.workerId ∧ s.job id = some r ∧ r.status = .running ∧
    admitProgress p ≠ final

theorem RecordsOpen.records {e : Step} {id : JobId} {result : WorkerResult}
    (h : RecordsOpen e id result) : Records e id result.workerId := by
  obtain ⟨req, r, r', hact, hid, hres, hr, hnew, hr', hget, _⟩ := h
  exact ⟨req, result, r, r', hact, hid, hres, rfl, hr, hnew, hr', hget⟩

def Sys.ProgressKeyed (s : Sys) : Prop :=
  ∀ id r, s.job id = some r → ∀ w p, r.latestProgress.get? w = some p → p.workerId = w

/-- The result of the worker is recorded, and its entry is the final one. -/
def Sys.Settled (s : Sys) (id : JobId) (final : WorkerProgress) : Prop :=
  id ∈ s.issued ∧ ∀ r, s.job id = some r →
    final.workerId ∈ r.workerResults.keys ∧ r.latestProgress.get? final.workerId = some final

@[simp] theorem admitProgress_workerId (p : WorkerProgress) :
    (admitProgress p).workerId = p.workerId := by
  unfold admitProgress
  split <;> rfl

@[simp] theorem finalProgress_workerId (result : WorkerResult) :
    (finalProgress result).workerId = result.workerId := rfl

theorem finalProgress_of_success {result : WorkerResult} (h : result.success = true) :
    finalProgress result = finalSnapshot result := by
  simp [finalProgress, finalSnapshot, h]

section

variable {H : Type} {env : MasterEnv H} {s s' : Sys} {c : Choice} {rep : Option Reply}
  {id : JobId} {final : WorkerProgress}

theorem Shows.progressKeyed (h : Shows c s.master s'.master rep) (hkeyed : s.ProgressKeyed) :
    s'.ProgressKeyed := by
  intro id r' hr' w p hp
  cases h.stored id r' hr' with
  | fresh _ hempty =>
    rw [hempty, HashMap.get?_empty] at hp
    cases hp
  | old r hr hentry =>
    have hput : ∀ v : WorkerProgress, r'.latestProgress = r.latestProgress.put v.workerId v →
        p.workerId = w := by
      intro v heq
      rw [heq, HashMap.get?_put] at hp
      split at hp
      · next hw =>
        rw [← Option.some.inj hp, hw]
      · exact hkeyed id r hr w p hp
    cases hentry with
    | kept heq =>
      rw [heq] at hp
      exact hkeyed id r hr w p hp
    | progress req v _ _ _ _ heq => exact hput (admitProgress v) (by rw [heq]; simp)
    | result req res _ _ _ _ heq => exact hput (finalProgress res) (by rw [heq]; simp)

theorem Reachable.progressKeyed (h : (machine env).Reachable s) : s.ProgressKeyed := by
  refine h.invariant (fun id r hr => by cases hr) ?_
  intro s c s' rep hs hkeyed hstep
  exact (step_shows (Reachable.ok hs) hstep).progressKeyed hkeyed

theorem Sys.Settled.step (h : s.Settled id final) (hok : s.Ok)
    (hstep : s.step env c = some (s', rep)) (hc : ¬ Overwrites id final s c) :
    s'.Settled id final := by
  obtain ⟨cur, rest, spawn, hmove⟩ := step_move hok hstep
  have hlater := hmove.later hok
  refine ⟨hlater.issued h.1, fun r' hr' => ?_⟩
  obtain ⟨r, hr, hle⟩ := hlater.jobs id h.1 r' hr'
  obtain ⟨hmem, hfinal⟩ := h.2 r hr
  refine ⟨?_, ?_⟩
  · obtain ⟨x, hx⟩ := HashMap.mem_keys_iff.mp hmem
    exact HashMap.mem_keys_of_get? (hle.results _ x hx)
  · cases (step_shows hok hstep).stored id r' hr' with
    | fresh hnone =>
      rw [hr] at hnone
      cases hnone
    | old r₀ hr₀ hentry =>
      obtain rfl := Option.some.inj (hr.symm.trans hr₀)
      cases hentry with
      | kept heq => rw [heq, hfinal]
      | progress req p hact hid hp hlive heq =>
        rw [heq, HashMap.get?_put]
        split
        · next hw =>
          have hrunning : r.status = .running := by
            rcases (hok.coherent id r hr).reported hmem with hrunning | hover
            · exact hrunning
            · rw [hlive] at hover
              cases hover
          by_contra hne
          refine hc ⟨req, p, r, hact, hid, hp, hw.symm, hr, hrunning, fun heq' => hne ?_⟩
          rw [heq']
        · exact hfinal
      | result req res hact hid hres hnew heq =>
        have hne : final.workerId ≠ res.workerId := fun hw => hnew (hw ▸ hmem)
        rw [heq, HashMap.get?_put_ne _ _ hne, hfinal]

end

section

variable {H : Type} {env : MasterEnv H} {m : MasterState} {req : ReportResultRequest}
  {result : WorkerResult} {r r' : JobRecord}

theorem reportResult_final (amb : Ambient) (hres : req.result = some result)
    (hr : m.jobs.get? req.jobId = some r) (hnew : result.workerId ∉ r.workerResults.keys)
    (hr' : (reportResult env amb m req).state.jobs.get? req.jobId = some r')
    (hmem : result.workerId ∈ r'.workerResults.keys) :
    r'.latestProgress = r.latestProgress.put result.workerId (finalProgress result) ∧
      (r'.status = .running → result.success = true) := by
  have hsame : ∀ r₁ : JobRecord, r₁.workerResults = r.workerResults → r' ≠ r₁ := by
    rintro r₁ heq rfl
    rw [heq] at hmem
    exact hnew hmem
  have hcell : ∀ r₁ : JobRecord, (m.jobs.put req.jobId r₁).get? req.jobId = some r' → r' = r₁ := by
    intro r₁ h₁
    rw [HashMap.get?_put_self] at h₁
    exact (Option.some.inj h₁).symm
  have hunread : m.jobs.get? req.jobId = some r' → False := by
    intro h₁
    rw [hr] at h₁
    exact hsame r rfl (Option.some.inj h₁).symm
  have hrow := reportResult_row env amb m req
  generalize reportResult env amb m req = o at hrow hr'
  cases hrow with
  | refused e => exact (hunread hr').elim
  | unknown => exact (hunread hr').elim
  | again hres₁ hr₁ =>
    obtain rfl := Option.some.inj (hr.symm.trans hr₁)
    exact absurd (hcell _ hr') (hsame _ rfl)
  | cancelled hres₁ hr₁ =>
    obtain rfl := Option.some.inj (hr.symm.trans hr₁)
    exact absurd (hcell _ hr') (hsame _ rfl)
  | counted hres₁ hr₁ ht hsuccess hmore heq =>
    obtain rfl := Option.some.inj (hres.symm.trans hres₁)
    obtain rfl := Option.some.inj (hr.symm.trans hr₁)
    obtain rfl := (hcell _ hr').trans heq
    exact ⟨rfl, fun _ => hsuccess⟩
  | @settled result' r₁ r₀ r₂ hres₁ hr₁ ht he hresults hall heq =>
    obtain rfl := Option.some.inj (hres.symm.trans hres₁)
    obtain rfl := Option.some.inj (hr.symm.trans hr₁)
    subst heq
    obtain rfl := hcell _ hr'
    refine ⟨rfl, fun hs => ?_⟩
    have hover : r₀.isTerminal = true := he.edge.2.1
    have hrunning : r₀.status = .running := hs
    simp [JobRecord.isTerminal, hrunning] at hover

theorem RecordsOpen.settled {e : Step} {id : JobId} (hok : e.pre.Ok)
    (hstep : (machine env).step e.pre e.act = some (e.post, e.out))
    (h : RecordsOpen e id result) : e.post.Settled id (finalSnapshot result) := by
  obtain ⟨req, r, r', hact, rfl, hres, hr, hnew, hr', hget, hrunning⟩ := h
  have hmem := HashMap.mem_keys_of_get? hget
  have hstate : e.post.master = (reportResult env e.act.amb e.pre.master req).state := by
    rw [reportResult_step env e.pre hact, Option.some.injEq] at hstep
    exact (congrArg (fun x => x.1.master) hstep).symm
  have hissued : req.jobId ∈ e.post.issued := by
    obtain ⟨cur, rest, spawn, hmove⟩ := step_move hok hstep
    exact (hmove.later hok).issued (hok.issued _ r hr)
  have hpost : (reportResult env e.act.amb e.pre.master req).state.jobs.get? req.jobId =
      some r' := by
    rw [← hstate]
    exact hr'
  refine ⟨hissued, fun r'' hr'' => ?_⟩
  obtain rfl := Option.some.inj (hr'.symm.trans hr'')
  refine ⟨hmem, ?_⟩
  obtain ⟨hput, hsuccess⟩ := reportResult_final e.act.amb hres hr hnew hpost hmem
  rw [hput]
  show (r.latestProgress.put result.workerId _).get? result.workerId = _
  rw [HashMap.get?_put_self, finalProgress_of_success (hsuccess hrunning)]

end

section

variable {H : Type} {env : MasterEnv H} {id : JobId} {final : WorkerProgress}

theorem Carries.onlyFinal {s : Sys} {event : JobEvent} (h : Carries s.master.jobs id event)
    (hkeyed : s.ProgressKeyed) (hsettled : s.Settled id final) :
    final ∈ event.workerProgress ∧
      ∀ p ∈ event.workerProgress, p.workerId = final.workerId → p = final := by
  obtain ⟨r, order, hr, hevent⟩ := h
  obtain ⟨_, hfinal⟩ := hsettled.2 r hr
  rw [hevent]
  refine ⟨order.mem_values.mpr ⟨_, hfinal⟩, fun p hp hw => ?_⟩
  obtain ⟨w, hget⟩ := order.mem_values.mp hp
  rw [← hkeyed id r hr w p hget, hw, hfinal] at hget
  exact (Option.some.inj hget).symm

theorem Prints.onlyFinal {s : Sys} {showF64 : Float → String} {lines : String}
    (h : Prints showF64 s.master id final.workerId lines) (hsettled : s.Settled id final) :
    lines = renderWorker showF64 id final.workerId final := by
  obtain ⟨⟨id', r⟩, hjob, rfl, ⟨w, p⟩, hentry, hw, rfl⟩ := h
  rw [HashOrder.mem_entries] at hjob hentry
  obtain ⟨_, hfinal⟩ := hsettled.2 r hjob
  have hget : r.latestProgress.get? final.workerId = some p := hw ▸ hentry
  rw [hfinal, Option.some.injEq] at hget
  show renderWorker showF64 id' w p = _
  rw [show w = final.workerId from hw, hget]

theorem Announces.carries {e : Step} {event : JobEvent}
    (hshows : Shows e.act e.pre.master e.post.master e.out) (h : Announces e id event) :
    Carries e.post.master.jobs id event := by
  rcases h with ⟨calls, call, hlog, hcall, hcarried⟩ | hopened
  · obtain ⟨calls', hlog', hall⟩ := hshows.calls
    rw [hlog'] at hlog
    obtain rfl := List.append_cancel_left hlog
    exact hall call hcall id event hcarried
  · exact hshows.opened id event hopened

end

section

variable {H : Type} {env : MasterEnv H} {s t : Sys} {tr : Trace} {id : JobId}
  {final : WorkerProgress}

theorem Sys.Settled.run (h : (machine env).Run s tr t) (hs : (machine env).Reachable s)
    (hsettled : s.Settled id final) (hclear : ∀ f ∈ tr, ¬ Overwrites id final f.pre f.act) :
    t.Settled id final :=
  h.invariantWhere (fun s c => ¬ Overwrites id final s c) hclear hs hsettled
    fun _ _ _ _ hs' hset hc hstep => Sys.Settled.step hset (Reachable.ok hs') hstep hc

theorem StaysFinal.of_settled {tr : Trace} (hreach : ∀ e ∈ tr, (machine env).Reachable e.pre)
    (hstep : ∀ e ∈ tr, (machine env).step e.pre e.act = some (e.post, e.out))
    (hsettled : ∀ e ∈ tr, e.post.Settled id final) : StaysFinal tr id final where
  stored e he r hr := ((hsettled e he).2 r hr).2
  events e he event hevent := by
    have hpost := (hreach e he).step (hstep e he)
    have hshows := step_shows (Reachable.ok (hreach e he)) (hstep e he)
    exact (hevent.carries hshows).onlyFinal (Reachable.progressKeyed hpost) (hsettled e he)
  page e he _ _ hprints := hprints.onlyFinal (hsettled e he)

theorem Overwrites.stored {s s' : Sys} {c : Choice} {rep : Option Reply} (hok : s.Ok)
    (hresult : ∀ r, s.job id = some r → final.workerId ∈ r.workerResults.keys)
    (h : Overwrites id final s c) (hstep : s.step env c = some (s', rep)) :
    ∃ r p, s'.job id = some r ∧ r.latestProgress.get? final.workerId = some p ∧ p ≠ final := by
  obtain ⟨req, p, r, hact, rfl, hp, hw, hr, hrunning, hne⟩ := h
  have hmem := hresult r hr
  have hco := hok.coherent _ r hr
  have hrun := (hco.running hrunning).1
  have hassigned : p.workerId ∈ r.workerAssignments.keys := by
    rw [hw, ← hrun]
    exact hco.resultsRun hmem
  have hvalid := hco.validIds _ hassigned
  have hlive : r.isTerminal = false := by simp [JobRecord.isTerminal, hrunning]
  have hcontains : r.workerAssignments.containsKey p.workerId = true :=
    HashMap.containsKey_iff.mpr hassigned
  rw [Sys.step_call (by simp [hact]) (by rw [hact]; rfl), Option.some.injEq] at hstep
  have hstate : s'.master = (reportProgress c.amb s.master req).state :=
    (congrArg (fun x => x.1.master) hstep).symm
  have hnot : r.status ≠ .cancelled := by simp [hrunning]
  refine ⟨{ r.touch p.workerId (c.amb.instant 0) with
    latestProgress := r.latestProgress.put p.workerId (admitProgress p) }, admitProgress p, ?_, ?_,
    hne⟩
  · show s'.master.jobs.get? _ = _
    rw [hstate, reportProgress, hp]
    have hr' : s.master.jobs.get? req.jobId = some r := hr
    simp only [requireValidWorkerId, hvalid, reportProgressSection, hr', hnot, hlive, hcontains,
      if_false, Bool.false_eq_true, not_true]
    exact HashMap.get?_put_self ..
  · show (r.latestProgress.put p.workerId _).get? _ = _
    rw [← hw, HashMap.get?_put_self]

/-- In every run, what is stored and shown of a worker whose result is recorded while the
job goes on stays the final snapshot, if and only if no ReportProgress of the worker that
says something else is let in afterwards. -/
theorem final_progress_iff {tr₁ tr₂ : Trace} {e : Step} {result : WorkerResult}
    (h : (machine env).Run Sys.init (tr₁ ++ e :: tr₂) s) (hrec : RecordsOpen e id result) :
    StaysFinal (e :: tr₂) id (finalSnapshot result) ↔
      ∀ f ∈ tr₂, ¬ Overwrites id (finalSnapshot result) f.pre f.act := by
  obtain ⟨h₁, hstep, h₂⟩ := h.split rfl
  have hpre : (machine env).Reachable e.pre := h₁.reachable .init
  have hpost : (machine env).Reachable e.post := hpre.step hstep
  have hsettled := hrec.settled (Reachable.ok hpre) hstep
  constructor
  · intro hstays f hf hover
    obtain ⟨tr₃, tr₄, rfl⟩ := List.append_of_mem hf
    obtain ⟨hpre', hstep', _⟩ := h.split (List.append_assoc tr₁ (e :: tr₃) (f :: tr₄)).symm
    have hresult : ∀ r, f.pre.job id = some r → result.workerId ∈ r.workerResults.keys :=
      fun r hr => (hrec.records.later .init hpre' (by simp) hr).1
    obtain ⟨r, p, hr, hget, hne⟩ :=
      hover.stored (Reachable.ok (hpre'.reachable .init)) hresult hstep'
    have hfinal := hstays.stored f (List.mem_cons_of_mem _ hf) r hr
    exact hne (Option.some.inj (hget.symm.trans hfinal))
  · intro hclear
    have hevent := fun f (hf : f ∈ e :: tr₂) => h.event (List.mem_append_right tr₁ hf)
    refine StaysFinal.of_settled (fun f hf => (hevent f hf).2 .init)
      (fun f hf => (hevent f hf).1) fun f hf => ?_
    rcases List.mem_cons.mp hf with rfl | hf
    · exact hsettled
    · obtain ⟨tr₃, tr₄, rfl⟩ := List.append_of_mem hf
      obtain ⟨hrun, hlast, _⟩ := h₂.split rfl
      refine Sys.Settled.run (hrun.snoc hlast) hpost hsettled fun g hg => ?_
      rcases List.mem_append.mp hg with hg | hg
      · exact hclear g (by simp [hg])
      · exact hclear g (by simp [List.mem_singleton.mp hg])

end

namespace Small

def snapshot (w : WorkerId) : WorkerProgress :=
  { workerId := w, elapsedMs := 8000, perOp := ∅, phase := WorkerPhase.measuring.number }

def late (w : WorkerId) : List Action := [.reportProgress ⟨"j", some (snapshot w)⟩]

theorem trace_delivered (acts : List Action) :
    (machine env).trace Sys.init (at0 (delivered ++ acts)) =
      (machine env).trace Sys.init (at0 running) ++
        delivery :: (machine env).trace (play delivered) (at0 acts) := by
  have hacts : at0 (delivered ++ acts) = at0 running ++ (delivery.act :: at0 acts) := by
    simp [at0, delivered, delivery]
  rw [hacts, Machine.trace_append]
  rfl

theorem run_delivered (acts : List Action) : (machine env).Run Sys.init
    ((machine env).trace Sys.init (at0 running) ++
      delivery :: (machine env).trace (play delivered) (at0 acts)) (play (delivered ++ acts)) := by
  rw [← trace_delivered]
  exact (machine env).run_play Sys.init (at0 (delivered ++ acts))

theorem delivery_open : RecordsOpen delivery "j" (result "a" true) :=
  ⟨report "a" true, _, _, rfl, rfl, rfl, rfl, by decide, rfl, rfl, rfl⟩

end Small

/-- `b` goes on reporting. -/
theorem final_progress_small : StaysFinal
    (Small.delivery :: (machine Small.env).trace (Small.play Small.delivered)
      (Small.at0 (Small.late "b"))) "j" (finalSnapshot (Small.result "a" true)) := by
  refine (final_progress_iff (Small.run_delivered (Small.late "b")) Small.delivery_open).mpr ?_
  rintro f hf ⟨req, p, _, hact, _, hp, hw, _⟩
  rw [List.mem_singleton.mp ((machine Small.env).act_of_mem_trace hf)] at hact
  cases hact
  cases hp
  exact absurd hw (by decide)

/-- A snapshot of `a` that arrives late takes its place. -/
theorem late_progress_overwrites : ¬ ∀ (s : Sys) (tr₁ : Trace) (e : Step) (tr₂ : Trace)
    (id : JobId) (result : WorkerResult),
    (machine Small.env).Run Sys.init (tr₁ ++ e :: tr₂) s → RecordsOpen e id result →
      StaysFinal (e :: tr₂) id (finalSnapshot result) := by
  intro hall
  have hstays := hall _ _ _ _ "j" _ (Small.run_delivered (Small.late "a")) Small.delivery_open
  have hstored := hstays.stored _ (List.mem_cons_of_mem _ (List.mem_singleton.mpr rfl)) _ rfl
  exact absurd (congrArg (Option.map (·.elapsedMs)) hstored) (by decide)

end CvdBench.Master
