import CvdBench.Worker.Phases

/-!
What the steps of a worker make of the phase it shows: only an advancer that is aborted sets it
back, and not below the phase that it was about to set.
-/

set_option autoImplicit false

namespace CvdBench.Worker

open Foundation Proto Spec

inductive Stage where
  | preflight | barrier | waitStart | workload | later
  deriving DecidableEq

def MainPc.stage : MainPc → Stage
  | .preflight => .preflight
  | .barrier | .ready | .barrierSleep => .barrier
  | .waitStart => .waitStart
  | .workload => .workload
  | _ => .later

theorem MainPc.isWaitStart_iff {m : MainPc} : m.isWaitStart = true ↔ m = .waitStart := by
  cases m <;> simp [isWaitStart]

inductive Leads (m : MainPc) (act : MainAct) (m' : MainPc) : Prop where
  | prepared : m = .preflight → m' = .barrier → Leads m act m'
  | waits : m.stage = .barrier → m'.stage = .barrier → phaseSet m m' = none → Leads m act m'
  | told (res : ReportReadyResponse) : m = .ready → act = .ready (.ok res) → 0 < res.startAtMs →
      m' = .waitStart → Leads m act m'
  | later : m.stage ≠ .waitStart → m.stage ≠ .workload → m'.stage = .later →
      phaseSet m m' = none ∨ phaseSet m m' = some .finished → Leads m act m'

inductive MainFlow (s : Assigned) (act : MainAct) (s' : Assigned) : Prop where
  | begins : s.main = .waitStart → s'.main = .workload →
      s'.preflightProgress = s.preflightProgress → s'.progress = .spawn → MainFlow s act s'
  | ends (outcome : RunnerOutcome) : s.main = .workload → s'.main = .cleanup outcome →
      s'.preflightProgress = s.preflightProgress → s'.progress = s.progress.abort →
      MainFlow s act s'
  | goes : Leads s.main act s'.main →
      s'.preflightProgress =
        (if s.main.stage = .preflight then s.preflightProgress.abort else s.preflightProgress) →
      s'.progress = s.progress → MainFlow s act s'

section

variable {job : AssignedJob} {s s' : Assigned} {act : MainAct} {o : AssignedOut}

theorem readyAnswer_leads {res : ReportReadyResponse} (h : s.main = .ready) :
    Leads s.main (.ready (.ok res)) (Assigned.readyAnswer res) := by
  unfold Assigned.readyAnswer
  rw [h]
  split
  · exact .later nofun nofun rfl (.inr rfl)
  · split
    · exact .later nofun nofun rfl (.inl rfl)
    · split
      · next hstart => exact .told res rfl rfl hstart rfl
      · exact .waits rfl rfl rfl

theorem stepReadyError_leads (h : s.stepReadyError act = some (s', o)) :
    Leads s.main act s'.main ∧ s.main.stage ≠ .preflight := by
  obtain ⟨main, rfl, ⟨n, hmain⟩, hmain', -⟩ := Assigned.stepReadyError_spec h
  have hlater : s.main.stage = .later := by
    rcases hmain with hmain | hmain | hmain <;> rw [hmain] <;> rfl
  have hlater' : main.stage = .later := by
    rcases hmain' with rfl | ⟨n', rfl | rfl | rfl⟩ <;> rfl
  have hset : phaseSet s.main main = none := by
    rcases hmain with hmain | hmain | hmain <;> rw [hmain] <;>
      rcases hmain' with rfl | ⟨n', rfl | rfl | rfl⟩ <;> rfl
  refine ⟨.later (by simp [hlater]) (by simp [hlater]) hlater' (.inl hset), by simp [hlater]⟩

theorem mainFlow (h : s.MainMove job act s' o) :
    MainFlow s act s' ∧ s'.cancelled = s.cancelled := by
  cases h with
  | preflight calls hmain =>
    refine ⟨?_, rfl⟩
    unfold Assigned.preflight
    rcases hrun : job.runPreflight calls with ⟨made, res⟩
    cases res with
    | ok p => exact .goes (.prepared hmain rfl) (by simp [hmain, MainPc.stage]) rfl
    | error e =>
      refine .goes (.later ?_ ?_ rfl (.inl ?_)) (by simp [hmain, MainPc.stage]) rfl
      · simp [hmain, MainPc.stage]
      · simp [hmain, MainPc.stage]
      · simp only [hmain, phaseSet]
  | readyError _ _ _ hstep =>
    obtain ⟨hleads, hstage⟩ := stepReadyError_leads hstep
    obtain ⟨main, rfl, -⟩ := Assigned.stepReadyError_spec hstep
    exact ⟨.goes hleads (by rw [if_neg hstage]) rfl, rfl⟩
  | readyOk res hmain =>
    exact ⟨.goes (readyAnswer_leads hmain) (by simp [hmain, MainPc.stage]) rfl, rfl⟩
  | startWorkload hmain => exact ⟨.begins hmain rfl rfl rfl, rfl⟩
  | returned outcome hmain => exact ⟨.ends outcome hmain rfl rfl rfl, rfl⟩
  | askReady hmain | readyFailed _ hmain | barrierAgain hmain =>
    refine ⟨.goes (.waits ?_ rfl ?_) (by simp [hmain, MainPc.stage]) rfl, rfl⟩
    · simp [hmain, MainPc.stage]
    · simp only [hmain, phaseSet]
  | resultOk n result res hmain =>
    refine ⟨.goes ?_ (by simp [hmain, MainPc.stage]) rfl, rfl⟩
    rw [hmain]
    cases res.unknownJob with
    | true => exact .later nofun nofun rfl (.inl rfl)
    | false => exact .later nofun nofun rfl (.inr rfl)
  | resultFailed n result err hmain =>
    refine ⟨.goes ?_ (by simp [hmain, MainPc.stage]) rfl, rfl⟩
    rw [hmain]
    by_cases hmore : n + 1 < reportResultMaxRetries
    · simp only [hmore, if_true]
      exact .later nofun nofun rfl (.inl rfl)
    · simp only [hmore, if_false]
      exact .later nofun nofun rfl (.inr rfl)
  | leaveCancelled hmain | reportCancelled hmain | cancelledOk _ hmain | cancelledFailed _ hmain
  | storeUnknown hmain | cleanup _ _ hmain | skip _ hmain | goOn _ hmain | buildResult _ hmain
  | giveUp _ _ hmain | send _ _ hmain | retry _ _ hmain | storeResultUnknown hmain =>
    exact ⟨.goes (.later (by simp [hmain, MainPc.stage]) (by simp [hmain, MainPc.stage]) rfl
      (by simp [hmain, phaseSet])) (by simp [hmain, MainPc.stage]) rfl, rfl⟩

end

def Advancer.sets (a : Advancer) : Option LocalPhase :=
  match a.pc with
  | .setMeasuring => some .measuring
  | .setCleanup => some .cleanup
  | _ => none

theorem Advancer.abort_aborted (a : Advancer) : a.abort.aborted = true := by
  unfold abort
  split <;> rfl

theorem Advancer.abort_sets (a : Advancer) : a.abort.sets = a.sets := by
  obtain ⟨pc, aborted⟩ := a
  cases pc <;> rfl

theorem ProgressTask.abort_aborted (t : ProgressTask) : t.abort.aborted = true := by
  unfold abort
  split <;> rfl

theorem ProgressTask.step_aborted {flags flags' : JobFlags} {t t' : ProgressTask}
    {act : ProgressAct} {o : AssignedOut} (h : t.step flags act = some (t', flags', o)) :
    t'.aborted = t.aborted := by
  unfold ProgressTask.step at h
  split at h
  · cases h; rfl
  · split at h <;> cases h <;> rfl
  · cases h; rfl
  · cases h; rfl
  · split at h
    · cases h; rfl
    · split at h <;> cases h <;> rfl
  · cases h; rfl
  · cases h

theorem Advancer.step_pc {times : PhaseTimes} {now : Instant} {cancelled : Bool}
    {phase phase' : PhaseTracker} {a a' : Advancer}
    (h : a.step times now cancelled phase = some (a', phase')) :
    (phase'.get = .measuring → phase.get = .measuring ∨ a.pc = .setMeasuring) ∧
      (a'.pc = .readWarmup ∨ a'.pc = .setMeasuring →
        times.measureStartLocal ≤ now ∨ a.pc = .readWarmup) := by
  obtain ⟨pc, aborted⟩ := a
  cases pc with
  | checkStart | checkEnd =>
    cases h
    refine ⟨.inl, ?_⟩
    cases cancelled <;> rintro (hpc | hpc) <;> cases hpc
  | clockStart =>
    obtain ⟨rfl, rfl⟩ := Prod.mk.inj (Option.some.inj h)
    refine ⟨.inl, fun hpc => ?_⟩
    split at hpc
    · next hle => exact .inl hle
    · cases aborted <;> rcases hpc with hpc | hpc <;> cases hpc
  | clockEnd =>
    obtain ⟨rfl, rfl⟩ := Prod.mk.inj (Option.some.inj h)
    refine ⟨.inl, fun hpc => ?_⟩
    split at hpc
    · rcases hpc with hpc | hpc <;> cases hpc
    · cases aborted <;> rcases hpc with hpc | hpc <;> cases hpc
  | sleepStart | sleepEnd =>
    cases h
    exact ⟨.inl, by rintro (hpc | hpc) <;> cases hpc⟩
  | readWarmup =>
    cases h
    exact ⟨.inl, fun _ => .inr rfl⟩
  | readMeasuring =>
    cases h
    refine ⟨.inl, fun hpc => ?_⟩
    by_cases hphase : phase.get = .measuring <;> simp [hphase] at hpc
  | setMeasuring =>
    cases h
    exact ⟨fun _ => .inr rfl, by rintro (hpc | hpc) <;> cases hpc⟩
  | setCleanup =>
    cases h
    exact ⟨nofun, by rintro (hpc | hpc) <;> cases hpc⟩
  | finished => cases h

theorem Advancer.step_sets {times : PhaseTimes} {now : Instant} {cancelled : Bool}
    {phase phase' : PhaseTracker} {a a' : Advancer}
    (h : a.step times now cancelled phase = some (a', phase')) : a'.aborted = a.aborted ∧
      ((∃ p, a.sets = some p ∧ phase' = .set p ∧ a'.sets = none) ∨
        phase' = phase ∧ a.sets = none ∧ (a'.sets = some .measuring → phase.get = .warmup) ∧
          (a'.sets = some .cleanup → phase.get = .measuring)) := by
  obtain ⟨pc, aborted⟩ := a
  cases pc with
  | checkStart | checkEnd =>
    cases h
    refine ⟨rfl, .inr ⟨rfl, rfl, ?_⟩⟩
    cases cancelled <;> exact ⟨nofun, nofun⟩
  | clockStart | clockEnd =>
    obtain ⟨rfl, rfl⟩ := Prod.mk.inj (Option.some.inj h)
    split
    · exact ⟨rfl, .inr ⟨rfl, rfl, nofun, nofun⟩⟩
    · refine ⟨rfl, .inr ⟨rfl, rfl, ?_⟩⟩
      cases aborted <;> exact ⟨nofun, nofun⟩
  | sleepStart | sleepEnd =>
    cases h
    exact ⟨rfl, .inr ⟨rfl, rfl, nofun, nofun⟩⟩
  | readWarmup =>
    cases h
    refine ⟨rfl, .inr ⟨rfl, rfl, ?_⟩⟩
    by_cases hphase : phase.get = .warmup
    · exact ⟨fun _ => hphase, by simp [hphase, sets]⟩
    · simp [hphase, sets]
  | readMeasuring =>
    cases h
    refine ⟨rfl, .inr ⟨rfl, rfl, ?_⟩⟩
    by_cases hphase : phase.get = .measuring
    · exact ⟨by simp [hphase, sets], fun _ => hphase⟩
    · simp [hphase, sets]
  | setMeasuring =>
    cases h
    exact ⟨rfl, .inl ⟨.measuring, rfl, rfl, rfl⟩⟩
  | setCleanup =>
    cases h
    exact ⟨rfl, .inl ⟨.cleanup, rfl, rfl, rfl⟩⟩
  | finished => cases h

theorem LocalPhase.number_toPb (p : LocalPhase) : p.toPb.number = (p.code : Int) + 1 := by
  cases p <;> rfl

theorem Advancer.sets_le {a : Advancer} {p : LocalPhase} (h : a.sets = some p) :
    p.code ≤ LocalPhase.cleanup.code := by
  unfold sets at h
  split at h
  · cases h; decide
  · cases h; decide
  · cases h

namespace Phased

/-- Until the main flow sets another phase, none below this one is read. -/
def floor (s : Phased) : Nat :=
  match s.advancer.sets with
  | some p => min s.phase.get.code p.code
  | none => s.phase.get.code

theorem floor_le (s : Phased) : s.floor ≤ s.phase.get.code := by
  unfold floor
  split
  · exact Nat.min_le_left _ _
  · exact Nat.le_refl _

theorem floor_congr {s s' : Phased} (hsets : s'.advancer.sets = s.advancer.sets)
    (hphase : s'.phase = s.phase) : s'.floor = s.floor := by
  unfold floor
  rw [hsets, hphase]

/-- The tasks of the hot loop are not there yet. -/
structure Idle (s : Phased) : Prop where
  advancer : s.advancer = .unspawned
  progress : s.base.progress = .over
  draft : s.draft = .empty

/-- The advancer does not lag behind. -/
structure Advances (s : Phased) : Prop where
  measuring : s.advancer.sets = some .measuring → s.phase.get = .warmup
  cleanup : s.advancer.sets = some .cleanup → s.phase.get = .measuring
  phase : s.phase.get.code ≤ LocalPhase.cleanup.code

def Row (job : AssignedJob) (s : Phased) : Stage → Prop
  | .preflight => s.Idle ∧ s.entered = none ∧ s.base.preflightProgress.aborted = false ∧
      s.pending = none ∧ s.phase.get = .preparing
  | .barrier => s.Idle ∧ s.entered = none ∧
      (s.pending = some .waitingStart ∧ s.phase.get = .preparing ∨
        s.pending = none ∧ s.phase.get = .waitingStart)
  | .waitStart => s.Idle ∧ s.pending = none ∧
      (s.entered = none ∧ s.phase.get = .waitingStart ∨
        s.entered.isSome = true ∧ s.phase.get = firstPhase job)
  | .workload => s.pending = none ∧ s.base.progress.aborted = false ∧ s.Advances
  | .later => (s.Idle ∨ s.base.progress.aborted = true ∧ s.advancer.aborted = true) ∧
      ∀ q, s.pending = some q → s.phase.get.code ≤ q.code ∧ LocalPhase.cleanup.code ≤ q.code

structure Keeps (s s' : Phased) : Prop where
  main : s'.base.main = s.base.main
  advancer : s'.advancer = s.advancer
  pending : s'.pending = s.pending
  entered : s'.entered = s.entered
  phase : s'.phase = s.phase
  preflight : s'.base.preflightProgress.aborted = s.base.preflightProgress.aborted
  progress : s'.base.progress.aborted = s.base.progress.aborted
  idle : s.Idle → s'.Idle

structure Inv (job : AssignedJob) (s : Phased) : Prop where
  row : s.Row job s.base.main.stage
  preflight : s.base.main.stage ≠ .preflight → s.base.preflightProgress.aborted = true

section

variable {job : AssignedJob} {s s' : Phased} {a : PhasedAct}

theorem Idle.floor (h : s.Idle) : s.floor = s.phase.get.code := by
  unfold Phased.floor
  rw [h.advancer]
  rfl

theorem Advances.floor (h : s.Advances) : s.floor = s.phase.get.code := by
  unfold Phased.floor
  split
  · next p hp =>
    have hcases : p = .measuring ∨ p = .cleanup := by
      unfold Advancer.sets at hp
      split at hp
      · exact .inl (Option.some.inj hp).symm
      · exact .inr (Option.some.inj hp).symm
      · cases hp
    rcases hcases with rfl | rfl
    · rw [h.measuring hp]
      rfl
    · rw [h.cleanup hp]
      rfl
  · rfl

theorem Row.keep {st : Stage} (h : s.Row job st) (hkeeps : s.Keeps s') : s'.Row job st := by
  obtain ⟨-, hadvancer, hpending, hentered, hphase, hpreflight, hprogress, hidle⟩ := hkeeps
  have hadvances : s.Advances → s'.Advances := by
    rintro ⟨hmeasuring, hcleanup, hle⟩
    exact ⟨by rwa [hadvancer, hphase], by rwa [hadvancer, hphase], by rwa [hphase]⟩
  cases st with
  | preflight =>
    obtain ⟨hi, hrest⟩ := h
    exact ⟨hidle hi, by rwa [hentered, hpreflight, hpending, hphase]⟩
  | barrier =>
    obtain ⟨hi, hrest⟩ := h
    exact ⟨hidle hi, by rwa [hentered, hpending, hphase]⟩
  | waitStart =>
    obtain ⟨hi, hrest⟩ := h
    exact ⟨hidle hi, by rwa [hentered, hpending, hphase]⟩
  | workload =>
    obtain ⟨hnone, haborted, hadv⟩ := h
    exact ⟨by rwa [hpending], by rwa [hprogress], hadvances hadv⟩
  | later =>
    obtain ⟨htasks, hset⟩ := h
    refine ⟨htasks.imp hidle fun hab => ?_, by rwa [hpending, hphase]⟩
    rwa [hprogress, hadvancer]

/-- What a step does to the phase: only an advancer that is aborted sets it back. -/
structure Moved (s : Phased) (a : PhasedAct) (s' : Phased) : Prop where
  floor : s.floor ≤ s'.floor
  back : s'.phase.get.code < s.phase.get.code → a = .advance ∧ s.advancer.aborted = true

theorem Moved.same (hsets : s'.advancer.sets = s.advancer.sets)
    (hphase : s'.phase = s.phase) : Moved s a s' where
  floor := (floor_congr hsets hphase).ge
  back h := by
    rw [hphase] at h
    exact absurd h (Nat.lt_irrefl _)

theorem Moved.set (hadvancer : s'.advancer = s.advancer)
    (hle : s.phase.get.code ≤ s'.phase.get.code) : Moved s a s' where
  floor := by
    unfold Phased.floor
    rw [hadvancer]
    split
    · exact min_le_min_right _ hle
    · exact hle
  back h := absurd h (Nat.not_lt.mpr hle)

theorem Inv.keep (h : s.Inv job) (hkeeps : s.Keeps s') :
    s'.Inv job ∧ Moved s a s' := by
  refine ⟨⟨?_, fun hstage => ?_⟩, .same (by rw [hkeeps.advancer]) hkeeps.phase⟩
  · rw [hkeeps.main]
    exact h.row.keep hkeeps
  · rw [hkeeps.preflight]
    exact h.preflight (by rwa [hkeeps.main] at hstage)

theorem advancerAfter_other (a : Advancer) {m m' : MainPc} (hwait : m.stage ≠ .waitStart)
    (hwork : m.stage ≠ .workload) : advancerAfter a m m' = a := by
  unfold advancerAfter
  split
  · exact absurd rfl hwait
  · exact absurd rfl hwork
  · rfl

@[simp] theorem timing_phase (s : Phased) (act : MainAct) : (s.timing act).phase = s.phase := by
  unfold timing
  split <;> rfl

@[simp] theorem timing_entered (s : Phased) (act : MainAct) :
    (s.timing act).entered = s.entered := by
  unfold timing
  split <;> rfl

@[simp] theorem timing_draft (s : Phased) (act : MainAct) : (s.timing act).draft = s.draft := by
  unfold timing
  split <;> rfl

@[simp] theorem timing_preflightDraft (s : Phased) (act : MainAct) :
    (s.timing act).preflightDraft = s.preflightDraft := by
  unfold timing
  split <;> rfl

@[simp] theorem timing_now (s : Phased) (act : MainAct) : (s.timing act).now = s.now := by
  unfold timing
  split <;> rfl

theorem Inv.main (h : s.Inv job) {act : MainAct} {base : Assigned} {o : AssignedOut}
    (hblocks : s.blocks (.main act) = false) (hmove : s.base.MainMove job act base o) :
    (s.after (.main act) base).Inv job ∧ Moved s a (s.after (.main act) base) := by
  obtain ⟨hflow, -⟩ := mainFlow hmove
  simp only [blocks, Bool.or_eq_false_iff, Option.isSome_eq_false_iff, Option.isNone_iff_eq_none,
    Bool.and_eq_false_iff] at hblocks
  obtain ⟨hpending, hentered⟩ := hblocks
  have hrow := h.row
  cases hflow with
  | begins hmain hmain' hpreflight hprogress =>
    rw [hmain] at hrow hentered
    obtain ⟨hidle, -, ⟨hnone, -⟩ | ⟨hsome, hfirst⟩⟩ := hrow
    · rw [hnone] at hentered
      rcases hentered with hentered | hentered <;> cases hentered
    · refine ⟨⟨?_, fun _ => ?_⟩, .same ?_ (timing_phase s act)⟩
      · simp only [after, hmain, hmain', MainPc.stage, Row, phaseSet, hprogress, advancerAfter,
          ProgressTask.spawn, true_and]
        refine ⟨nofun, nofun, ?_⟩
        simp only [timing_phase, hfirst, firstPhase]
        split <;> decide
      · simp only [after, hpreflight]
        exact h.preflight (by simp [hmain, MainPc.stage])
      · simp only [after, hmain, hmain', advancerAfter, hidle.advancer]
        rfl
  | ends outcome hmain hmain' hpreflight hprogress =>
    rw [hmain] at hrow
    obtain ⟨-, -, hadvances⟩ := hrow
    refine ⟨⟨?_, fun _ => ?_⟩, .same ?_ (timing_phase s act)⟩
    · simp only [after, hmain, hmain', MainPc.stage, Row, phaseSet, hprogress, advancerAfter]
      refine ⟨.inr ⟨ProgressTask.abort_aborted _, Advancer.abort_aborted _⟩, ?_⟩
      rintro q hq
      cases hq
      exact ⟨by simpa using hadvances.phase, Nat.le_refl _⟩
    · simp only [after, hpreflight]
      exact h.preflight (by simp [hmain, MainPc.stage])
    · simp only [after, hmain, hmain', advancerAfter, Advancer.abort_sets]
  | goes hleads hpreflight hprogress =>
    have hother : s.base.main.stage ≠ .waitStart ∧ s.base.main.stage ≠ .workload := by
      cases hleads with
      | prepared hm | told _ hm => simp [hm, MainPc.stage]
      | waits hm => simp [hm]
      | later hwait hwork => exact ⟨hwait, hwork⟩
    have hadvancer : advancerAfter s.advancer s.base.main base.main = s.advancer :=
      advancerAfter_other _ hother.1 hother.2
    have hidle : s.Idle → (s.after (.main act) base).Idle := by
      rintro ⟨hover, hprog, hdraft⟩
      simp only [after]
      exact ⟨by rw [hadvancer, hover], by rw [hprogress, hprog], by simpa using hdraft⟩
    refine ⟨⟨?_, fun _ => ?_⟩, .same (by simp only [after, hadvancer]) (timing_phase s act)⟩
    · cases hleads with
      | prepared hm hm' =>
        rw [hm] at hrow
        obtain ⟨hi, hnone, -, -, hphase⟩ := hrow
        have hi' := hidle hi
        simp only [after, hm, hm', MainPc.stage, Row, phaseSet, timing_entered, timing_phase,
          hphase, hnone] at hi' ⊢
        exact ⟨hi', trivial, .inl ⟨trivial, trivial⟩⟩
      | waits hm hm' hset =>
        rw [hm] at hrow
        obtain ⟨hi, hnone, ⟨hsome, -⟩ | ⟨-, hphase⟩⟩ := hrow
        · rw [hpending] at hsome
          cases hsome
        · have hi' := hidle hi
          have hstage : (s.after (.main act) base).base.main.stage = .barrier := hm'
          rw [hstage]
          simp only [after, Row, hset, timing_entered, timing_phase] at hi' ⊢
          exact ⟨hi', hnone, .inr ⟨trivial, hphase⟩⟩
      | told res hm hact hstart hm' =>
        rw [hm] at hrow
        obtain ⟨hi, hnone, ⟨hsome, -⟩ | ⟨-, hphase⟩⟩ := hrow
        · rw [hpending] at hsome
          cases hsome
        · have hi' := hidle hi
          simp only [after, hm, hm', MainPc.stage, Row, phaseSet, timing_entered,
            timing_phase] at hi' ⊢
          exact ⟨hi', trivial, .inl ⟨hnone, hphase⟩⟩
      | later hwait hwork hm' hset =>
        have hstage : (s.after (.main act) base).base.main.stage = .later := hm'
        have htasks : s.Idle ∨ s.base.progress.aborted = true ∧ s.advancer.aborted = true := by
          cases hst : s.base.main.stage with
          | preflight | barrier =>
            rw [hst] at hrow
            exact .inl hrow.1
          | waitStart => exact absurd hst hwait
          | workload => exact absurd hst hwork
          | later =>
            rw [hst] at hrow
            exact hrow.1
        rw [hstage]
        refine ⟨htasks.imp hidle fun hab => ?_, fun q hq => ?_⟩
        · simp only [after]
          rwa [hprogress, hadvancer]
        · simp only [after] at hq
          rcases hset with hset | hset <;> rw [hset] at hq <;> cases hq
          exact ⟨LocalPhase.code_le _, by decide⟩
    · simp only [after, hpreflight]
      split
      · exact ProgressTask.abort_aborted _
      · next hstage => exact h.preflight hstage

theorem after_preflightProgress (s : Phased) (act : ProgressAct) (base : Assigned) :
    ∃ draft, s.after (.preflightProgress act) base =
      { s with
        base
        preflightDraft := draft } := by
  cases act <;> exact ⟨_, rfl⟩

theorem after_progress (s : Phased) (act : ProgressAct) (base : Assigned) :
    ∃ draft, s.after (.progress act) base =
      { s with
        base
        draft } := by
  cases act <;> exact ⟨_, rfl⟩

theorem Inv.base (h : s.Inv job) {act : AssignedAct} {base : Assigned} {o : AssignedOut}
    (hblocks : s.blocks act = false) (hmove : Assigned.Move job s.base act base o) :
    (s.after act base).Inv job ∧ Moved s a (s.after act base) := by
  cases hmove with
  | main _ _ _ hmove => exact h.main hblocks hmove
  | preflightProgress act t flags o hstep =>
    obtain ⟨draft, hafter⟩ := s.after_preflightProgress act
      { s.base.setFlags flags with preflightProgress := t }
    rw [hafter]
    exact h.keep ⟨rfl, rfl, rfl, rfl, rfl, ProgressTask.step_aborted hstep, rfl,
      fun ⟨hover, hprogress, hdraft⟩ => ⟨hover, hprogress, hdraft⟩⟩
  | progress act t flags o hstep =>
    obtain ⟨draft, hafter⟩ := s.after_progress act { s.base.setFlags flags with progress := t }
    rw [hafter]
    refine h.keep ⟨rfl, rfl, rfl, rfl, rfl, rfl, ProgressTask.step_aborted hstep,
      fun hidle => ?_⟩
    rw [hidle.progress] at hstep
    cases act <;> cases hstep
  | fetcher | writeReturns | shutdown =>
    exact h.keep ⟨rfl, rfl, rfl, rfl, rfl, rfl, rfl,
      fun ⟨hover, hprogress, hdraft⟩ => ⟨hover, hprogress, hdraft⟩⟩

theorem Inv.setPhase (h : s.Inv job) {p : LocalPhase} (hpending : s.pending = some p) :
    Inv job { s with
      phase := .set p
      pending := none } ∧
    Moved s a { s with
      phase := .set p
      pending := none } := by
  have hrow := h.row
  have hset : s.phase.get.code ≤ p.code ∧
      Row job { s with
        phase := .set p
        pending := none } s.base.main.stage := by
    cases hst : s.base.main.stage with
    | preflight =>
      rw [hst] at hrow
      obtain ⟨-, -, -, hnone, -⟩ := hrow
      rw [hnone] at hpending
      cases hpending
    | barrier =>
      rw [hst] at hrow
      obtain ⟨⟨hover, hprogress, hdraft⟩, hentered, ⟨hsome, hphase⟩ | ⟨hnone, -⟩⟩ := hrow
      · obtain rfl := Option.some.inj (hsome.symm.trans hpending)
        rw [hphase]
        exact ⟨by decide, ⟨hover, hprogress, hdraft⟩, hentered, .inr ⟨rfl, PhaseTracker.get_set _⟩⟩
      · rw [hnone] at hpending
        cases hpending
    | waitStart =>
      rw [hst] at hrow
      obtain ⟨-, hnone, -⟩ := hrow
      rw [hnone] at hpending
      cases hpending
    | workload =>
      rw [hst] at hrow
      obtain ⟨hnone, -⟩ := hrow
      rw [hnone] at hpending
      cases hpending
    | later =>
      rw [hst] at hrow
      obtain ⟨htasks, hset⟩ := hrow
      refine ⟨(hset p hpending).1, ?_, nofun⟩
      exact htasks.imp_left fun ⟨hover, hprogress, hdraft⟩ => ⟨hover, hprogress, hdraft⟩
  exact ⟨⟨hset.2, h.preflight⟩, .set rfl (by simpa using hset.1)⟩

theorem Inv.enter (h : s.Inv job) (hmain : s.base.main = .waitStart) (hpending : s.pending = none)
    (hentered : s.entered = none) {times : PhaseTimes} :
    Inv job { s with
      phase := .set (firstPhase job)
      entered := some times } ∧
    Moved s a { s with
      phase := .set (firstPhase job)
      entered := some times } := by
  have hrow := h.row
  rw [hmain] at hrow
  obtain ⟨⟨hover, hprogress, hdraft⟩, -, ⟨-, hphase⟩ | ⟨hsome, -⟩⟩ := hrow
  · refine ⟨⟨?_, h.preflight⟩, .set rfl ?_⟩
    · simp only [hmain]
      exact ⟨⟨hover, hprogress, hdraft⟩, hpending, .inr ⟨rfl, PhaseTracker.get_set _⟩⟩
    · rw [hphase, PhaseTracker.get_set]
      unfold firstPhase
      split <;> decide
  · rw [hentered] at hsome
    cases hsome

theorem Inv.advance (h : s.Inv job) {times : PhaseTimes} {advancer : Advancer}
    {phase : PhaseTracker}
    (hstep : s.advancer.step times s.now s.base.cancelled s.phase = some (advancer, phase)) :
    Inv job { s with
      advancer
      phase } ∧
    Moved s .advance { s with
      advancer
      phase } := by
  obtain ⟨haborted, hsets⟩ := Advancer.step_sets hstep
  have hfloor : s.floor ≤ floor { s with
      advancer
      phase } := by
    rcases hsets with ⟨p, hp, rfl, hnone⟩ | ⟨rfl, hnone, hmeasuring, hcleanup⟩
    · simp only [floor, hp, hnone, PhaseTracker.get_set]
      exact Nat.min_le_right _ _
    · simp only [floor, hnone]
      split
      · next q hq =>
        refine Nat.le_min.mpr ⟨Nat.le_refl _, ?_⟩
        unfold Advancer.sets at hq hmeasuring hcleanup
        split at hq
        · next hpc =>
          cases hq
          rw [hmeasuring (by rw [hpc])]
          decide
        · next hpc =>
          cases hq
          rw [hcleanup (by rw [hpc])]
          decide
        · cases hq
      · exact Nat.le_refl _
  have hrow := h.row
  have hover : ¬ s.Idle := by
    intro hidle
    rw [hidle.advancer] at hstep
    cases hstep
  cases hst : s.base.main.stage with
  | preflight | barrier | waitStart =>
    rw [hst] at hrow
    exact absurd hrow.1 hover
  | workload =>
    rw [hst] at hrow
    obtain ⟨hpending, hlive, hadvances⟩ := hrow
    have hmono : s.phase.get.code ≤ phase.get.code :=
      Nat.le_trans (hadvances.floor ▸ hfloor) (floor_le _)
    refine ⟨⟨?_, h.preflight⟩, hfloor, fun hback => absurd hback (Nat.not_lt.mpr hmono)⟩
    rw [hst]
    refine ⟨hpending, hlive, ?_⟩
    rcases hsets with ⟨p, hp, rfl, hnone⟩ | ⟨rfl, hnone, hmeasuring, hcleanup⟩
    · refine ⟨?_, ?_, ?_⟩
      · rw [hnone]
        nofun
      · rw [hnone]
        nofun
      · rw [PhaseTracker.get_set]
        exact Advancer.sets_le hp
    · exact ⟨hmeasuring, hcleanup, hadvances.phase⟩
  | later =>
    rw [hst] at hrow
    obtain ⟨htasks, hset⟩ := hrow
    obtain ⟨hprogress, habort⟩ := htasks.resolve_left hover
    refine ⟨⟨?_, h.preflight⟩, hfloor, fun _ => ⟨rfl, habort⟩⟩
    rw [hst]
    refine ⟨.inr ⟨hprogress, haborted.trans habort⟩, fun q hq => ?_⟩
    obtain ⟨hle, hcleanup⟩ := hset q hq
    refine ⟨?_, hcleanup⟩
    rcases hsets with ⟨p, hp, rfl, -⟩ | ⟨rfl, -⟩
    · rw [PhaseTracker.get_set]
      exact Nat.le_trans (Advancer.sets_le hp) hcleanup
    · exact hle

theorem Inv.setDraft (h : s.Inv job) {who : Reporter} {draft : Draft}
    (hdraft : s.draftOf who ≠ .empty) :
    (s.setDraft who draft).Inv job ∧ Moved s a (s.setDraft who draft) := by
  cases who with
  | preflight =>
    exact h.keep ⟨rfl, rfl, rfl, rfl, rfl, rfl, rfl,
      fun ⟨hover, hprogress, hempty⟩ => ⟨hover, hprogress, hempty⟩⟩
  | workload =>
    exact h.keep ⟨rfl, rfl, rfl, rfl, rfl, rfl, rfl, fun hidle => absurd hidle.draft hdraft⟩

end

end Phased

namespace ProgressTask

def Leaves (t : ProgressTask) : Prop := t.aborted = true → t.pc ≠ .sleep ∧ t.pc ≠ .request

def Spent (t : ProgressTask) : Prop := t.aborted = true ∧ t.pc ≠ .check

def Busy (t : ProgressTask) : Prop := t.pc = .request ∨ t.pc = .finished ∧ t.aborted = true

structure Goes (drafting : Prop) (t t' : ProgressTask) : Prop where
  leaves : t.Leaves → t'.Leaves
  aborted : t.aborted = true → t'.aborted = true
  spent : t.Leaves → t.Spent → t'.Spent
  busy : drafting → t.Busy → t'.Busy

variable {drafting : Prop} {t t' : ProgressTask}

theorem Goes.refl : Goes drafting t t := ⟨id, id, fun _ => id, fun _ => id⟩

theorem Goes.abort : Goes drafting t t.abort := by
  obtain ⟨pc, aborted⟩ := t
  cases pc with
  | sleep => exact ⟨fun _ _ => ⟨nofun, nofun⟩, fun _ => rfl, fun _ _ => ⟨rfl, nofun⟩,
      fun _ hbusy => nomatch hbusy⟩
  | request => exact ⟨fun _ _ => ⟨nofun, nofun⟩, fun _ => rfl, fun _ _ => ⟨rfl, nofun⟩,
      fun _ _ => .inr ⟨rfl, rfl⟩⟩
  | check => exact ⟨fun _ _ => ⟨nofun, nofun⟩, fun _ => rfl, fun _ hspent => absurd rfl hspent.2,
      fun _ hbusy => nomatch hbusy⟩
  | respond | storeCancelled =>
    exact ⟨fun _ _ => ⟨nofun, nofun⟩, fun _ => rfl, fun _ _ => ⟨rfl, nofun⟩,
      fun _ hbusy => nomatch hbusy⟩
  | finished => exact ⟨fun _ _ => ⟨nofun, nofun⟩, fun _ => rfl, fun _ _ => ⟨rfl, nofun⟩,
      fun _ _ => .inr ⟨rfl, rfl⟩⟩

theorem Goes.spawn (haborted : t.aborted = false) (hdrafting : ¬ drafting) :
    Goes drafting t .spawn where
  leaves _ := nofun
  aborted h := by
    rw [haborted] at h
    cases h
  spent _ h := by
    have := h.1
    rw [haborted] at this
    cases this
  busy h := absurd h hdrafting

theorem step_goes {flags flags' : JobFlags} {act : ProgressAct} {o : AssignedOut}
    (h : t.step flags act = some (t', flags', o))
    (hblocks : (∃ res, act = .response res) → ¬ drafting) :
    act = .run ∧ t.begins flags = true ∧ t' = t.await .request ∨
      (act = .run → t.begins flags = false) ∧ Goes drafting t t' := by
  obtain ⟨pc, aborted⟩ := t
  unfold ProgressTask.step at h
  split at h
  · next hpc =>
    cases hpc
    cases h
    refine .inr ⟨nofun, fun hleaves haborted => absurd rfl (hleaves haborted).1, id,
      fun hleaves hspent => absurd rfl (hleaves hspent.1).1, fun _ hbusy => nomatch hbusy⟩
  · next hpc =>
    cases hpc
    by_cases hstop : (flags.cancelled || flags.unknownJob) = true
    · rw [if_pos hstop] at h
      cases h
      exact .inr ⟨fun _ => by simp [begins, hstop], fun _ _ => ⟨nofun, nofun⟩, id,
        fun _ hspent => absurd rfl hspent.2, fun _ hbusy => nomatch hbusy⟩
    · rw [if_neg hstop] at h
      cases h
      exact .inl ⟨rfl, by simp [begins, hstop], rfl⟩
  · next hpc =>
    cases hpc
    cases h
    exact .inr ⟨nofun, fun _ _ => ⟨nofun, nofun⟩, id, fun _ hspent => ⟨hspent.1, nofun⟩,
      fun hdrafting => absurd hdrafting (hblocks ⟨_, rfl⟩)⟩
  · next hpc =>
    cases hpc
    cases h
    refine .inr ⟨nofun, fun hleaves haborted => absurd rfl (hleaves haborted).2, id,
      fun hleaves hspent => absurd rfl (hleaves hspent.1).2,
      fun hdrafting => absurd hdrafting (hblocks ⟨_, rfl⟩)⟩
  · next res hpc =>
    cases hpc
    have hgone : Goes drafting ⟨.respond res, aborted⟩ ⟨.storeCancelled, aborted⟩ ∧
        Goes drafting ⟨.respond res, aborted⟩ ⟨.finished, aborted⟩ ∧
        Goes drafting ⟨.respond res, aborted⟩ (await ⟨.respond res, aborted⟩ .sleep) := by
      cases aborted <;> refine ⟨⟨?_, ?_, ?_, ?_⟩, ⟨?_, ?_, ?_, ?_⟩, ⟨?_, ?_, ?_, ?_⟩⟩ <;>
        simp [Leaves, Spent, Busy, await]
    split at h
    · cases h
      exact .inr ⟨fun _ => rfl, hgone.1⟩
    · split at h
      · cases h
        exact .inr ⟨fun _ => rfl, hgone.2.1⟩
      · cases h
        exact .inr ⟨fun _ => rfl, hgone.2.2⟩
  · next hpc =>
    cases hpc
    cases h
    exact .inr ⟨fun _ => rfl, fun _ _ => ⟨nofun, nofun⟩, id, fun _ hspent => ⟨hspent.1, nofun⟩,
      fun _ hbusy => nomatch hbusy⟩
  · cases h

theorem step_cancelled {flags flags' : JobFlags} {t t' : ProgressTask} {act : ProgressAct}
    {o : AssignedOut} (h : t.step flags act = some (t', flags', o))
    (hcancelled : flags.cancelled = true) : flags'.cancelled = true := by
  unfold step at h
  split at h
  · cases h; exact hcancelled
  · split at h <;> cases h <;> exact hcancelled
  · cases h; exact hcancelled
  · cases h; exact hcancelled
  · split at h
    · cases h; exact hcancelled
    · split at h
      · cases h; rfl
      · cases h; exact hcancelled
  · cases h; rfl
  · cases h

end ProgressTask

theorem FetchPc.step_cancelled {flags flags' : JobFlags} {f f' : FetchPc} {act : FetchAct}
    {o : AssignedOut} (h : f.step flags act = some (f', flags', o))
    (hcancelled : flags.cancelled = true) : flags'.cancelled = true := by
  unfold step at h
  split at h
  · cases h; exact hcancelled
  · split at h <;> cases h <;> exact hcancelled
  · cases h; exact hcancelled
  · cases h; exact hcancelled
  · split at h
    · cases h; exact hcancelled
    · split at h
      · cases h; rfl
      · cases h; exact hcancelled
  · split at h
    · cases h
    · cases h; exact hcancelled
  · cases h; rfl
  · cases h

theorem Assigned.Move.cancelled {job : AssignedJob} {act : AssignedAct}
    {base base' : Assigned} {o : AssignedOut} (h : Move job base act base' o)
    (hcancelled : base.cancelled = true) : base'.cancelled = true := by
  cases h with
  | main _ _ _ hmove =>
    rw [(mainFlow hmove).2]
    exact hcancelled
  | preflightProgress _ _ _ _ hstep | progress _ _ _ _ hstep =>
    exact ProgressTask.step_cancelled hstep hcancelled
  | fetcher _ _ _ _ _ _ _ hstep => exact FetchPc.step_cancelled hstep hcancelled
  | writeReturns => exact hcancelled
  | shutdown => rfl

end CvdBench.Worker
