import CvdBench.Master.Service
import CvdBench.Properties.ClockSync
import CvdBench.Properties.PhaseOrder
import CvdBench.Properties.UnknownJob

/-!
The phases that a worker reports never go back, although the phase itself can: a phase
advancer that is aborted may set it once more.
-/

set_option autoImplicit false

namespace CvdBench.Worker

open Foundation Proto Spec

namespace Phased

def task (s : Phased) : Reporter → ProgressTask
  | .preflight => s.base.preflightProgress
  | .workload => s.base.progress

inductive TaskMove (s s' : Phased) (who : Reporter) : Prop where
  | goes : s'.draftOf who = s.draftOf who →
      (s.task who).Goes (s.draftOf who ≠ .empty) (s'.task who) → TaskMove s s' who
  | begins : (s.task who).begins s.base.flags = true →
      s'.task who = (s.task who).await .request → s'.draftOf who = .begun → TaskMove s s' who

section

variable {job : AssignedJob} {s s' : Phased}

theorem TaskMove.same {who : Reporter} (htask : s'.task who = s.task who)
    (hdraft : s'.draftOf who = s.draftOf who) : TaskMove s s' who := by
  refine .goes hdraft ?_
  rw [htask]
  exact .refl

theorem after_draftOf_main (s : Phased) (act : MainAct) (base : Assigned) (who : Reporter) :
    (s.after (.main act) base).draftOf who = s.draftOf who := by
  cases who with
  | preflight => exact timing_preflightDraft s act
  | workload => exact timing_draft s act

theorem Inv.idle (h : s.Inv job) (hmain : s.base.main = .waitStart) : s.Idle := by
  have hrow := h.row
  rw [hmain] at hrow
  exact hrow.1

theorem Inv.mainTask (h : s.Inv job) {act : MainAct} {base : Assigned} {o : AssignedOut}
    (hmove : s.base.MainMove job act base o) (who : Reporter) :
    TaskMove s (s.after (.main act) base) who := by
  have hdraft := s.after_draftOf_main act base who
  refine .goes hdraft ?_
  obtain ⟨hflow, -⟩ := mainFlow hmove
  cases who with
  | preflight =>
    have hgoes : s.base.preflightProgress.Goes (s.preflightDraft ≠ .empty)
        base.preflightProgress := by
      cases hflow with
      | begins _ _ hpreflight | ends _ _ _ hpreflight =>
        rw [hpreflight]
        exact .refl
      | goes _ hpreflight =>
        rw [hpreflight]
        split
        · exact .abort
        · exact .refl
    exact hgoes
  | workload =>
    have hgoes : s.base.progress.Goes (s.draft ≠ .empty) base.progress := by
      cases hflow with
      | begins hmain _ _ hprogress =>
        have hidle := h.idle hmain
        rw [hprogress]
        exact .spawn (by rw [hidle.progress]; rfl) (fun hne => hne hidle.draft)
      | ends _ _ _ _ hprogress =>
        rw [hprogress]
        exact .abort
      | goes _ _ hprogress =>
        rw [hprogress]
        exact .refl
    exact hgoes

theorem Inv.baseTask (h : s.Inv job) {act : AssignedAct} {base : Assigned} {o : AssignedOut}
    (hblocks : s.blocks act = false) (hmove : Assigned.Move job s.base act base o)
    (who : Reporter) : TaskMove s (s.after act base) who := by
  cases hmove with
  | main _ _ _ hmove => exact h.mainTask hmove who
  | preflightProgress act t flags o hstep =>
    cases who with
    | workload => cases act <;> exact .same rfl rfl
    | preflight =>
      have hfree : (∃ res, act = .response res) → ¬ s.preflightDraft ≠ .empty := by
        rintro ⟨res, rfl⟩
        simpa [blocks] using hblocks
      rcases ProgressTask.step_goes hstep hfree with ⟨rfl, hbegins, rfl⟩ | ⟨hrun, hgoes⟩
      · exact .begins hbegins rfl (if_pos hbegins)
      · cases act with
        | run => exact .goes (if_neg (by simp [hrun rfl])) hgoes
        | wake | response => exact .goes rfl hgoes
  | progress act t flags o hstep =>
    cases who with
    | preflight => cases act <;> exact .same rfl rfl
    | workload =>
      have hfree : (∃ res, act = .response res) → ¬ s.draft ≠ .empty := by
        rintro ⟨res, rfl⟩
        simpa [blocks] using hblocks
      rcases ProgressTask.step_goes hstep hfree with ⟨rfl, hbegins, rfl⟩ | ⟨hrun, hgoes⟩
      · exact .begins hbegins rfl (if_pos hbegins)
      · cases act with
        | run => exact .goes (if_neg (by simp [hrun rfl])) hgoes
        | wake | response => exact .goes rfl hgoes
  | fetcher | writeReturns | shutdown => cases who <;> exact .same rfl rfl

def Bound (floor : Nat) (t : ProgressTask) (shown : List Int) : Draft → Prop
  | .empty => t.Spent ∨ ∀ n ∈ shown, n ≤ (floor : Int) + 1
  | .begun => ∀ n ∈ shown, n ≤ (floor : Int) + 1
  | .phase p | .timed p _ =>
      (∀ n ∈ shown, n ≤ p.toPb.number) ∧ (t.aborted = true ∨ p.code ≤ floor)

structure Shows (who : Reporter) (shown : List Int) (s : Phased) : Prop where
  leaves : (s.task who).Leaves
  busy : s.draftOf who ≠ .empty → (s.task who).Busy
  sorted : shown.Pairwise (· ≤ ·)
  bound : Bound s.floor (s.task who) shown (s.draftOf who)

variable {who : Reporter} {shown : List Int}

theorem Bound.mono {floor floor' : Nat} {t t' : ProgressTask} {draft : Draft}
    (h : Bound floor t shown draft) (hfloor : floor ≤ floor')
    (hspent : t.Spent → t'.Spent) (haborted : t.aborted = true → t'.aborted = true) :
    Bound floor' t' shown draft := by
  have hle : (floor : Int) ≤ floor' := by exact_mod_cast hfloor
  cases draft with
  | empty => exact h.imp hspent fun hall n hn => by have := hall n hn; omega
  | begun => exact fun n hn => by have := h n hn; omega
  | phase | timed => exact h.imp_right fun hp => hp.imp haborted fun hp => hp.trans hfloor

theorem Shows.step (h : s.Shows who shown) (hmove : TaskMove s s' who)
    (hfloor : s.floor ≤ s'.floor) : s'.Shows who shown := by
  cases hmove with
  | goes hdraft hgoes =>
    refine ⟨hgoes.leaves h.leaves, fun hne => ?_, h.sorted, ?_⟩
    · rw [hdraft] at hne
      exact hgoes.busy hne (h.busy hne)
    · rw [hdraft]
      exact h.bound.mono hfloor (hgoes.spent h.leaves) hgoes.aborted
  | begins hbegins htask hdraft =>
    have hcheck : (s.task who).pc = .check := by
      unfold ProgressTask.begins at hbegins
      split at hbegins
      · assumption
      · cases hbegins
    have hempty : s.draftOf who = .empty := by
      by_contra hne
      have hbusy := h.busy hne
      unfold ProgressTask.Busy at hbusy
      rw [hcheck] at hbusy
      rcases hbusy with hbusy | hbusy
      · cases hbusy
      · cases hbusy.1
    have hall := h.bound
    rw [hempty] at hall
    have hall := hall.resolve_left fun hspent => hspent.2 hcheck
    refine ⟨?_, fun _ => ?_, h.sorted, ?_⟩
    · rw [htask]
      intro haborted
      simp only [ProgressTask.await] at haborted ⊢
      rw [if_pos haborted]
      constructor <;> rintro ⟨⟩
    · rw [htask]
      unfold ProgressTask.await ProgressTask.Busy
      cases (s.task who).aborted with
      | true => exact .inr ⟨rfl, rfl⟩
      | false => exact .inl rfl
    · rw [hdraft]
      intro n hn
      have := hall n hn
      omega

theorem Inv.floor_eq (h : s.Inv job) (who : Reporter) :
    (s.task who).aborted = true ∨ s.floor = s.phase.get.code := by
  have hrow := h.row
  cases who with
  | preflight =>
    by_cases hst : s.base.main.stage = .preflight
    · rw [hst] at hrow
      exact .inr hrow.1.floor
    · exact .inl (h.preflight hst)
  | workload =>
    cases hst : s.base.main.stage with
    | preflight | barrier | waitStart =>
      rw [hst] at hrow
      exact .inr hrow.1.floor
    | workload =>
      rw [hst] at hrow
      obtain ⟨-, -, hadvances⟩ := hrow
      exact .inr hadvances.floor
    | later =>
      rw [hst] at hrow
      obtain ⟨hidle | habort, -⟩ := hrow
      · exact .inr hidle.floor
      · exact .inl habort.1

@[simp] theorem draftOf_setDraft (s : Phased) (who : Reporter) (draft : Draft) :
    (s.setDraft who draft).draftOf who = draft := by
  cases who <;> rfl

@[simp] theorem task_setDraft (s : Phased) (who who' : Reporter) (draft : Draft) :
    (s.setDraft who draft).task who' = s.task who' := by
  cases who <;> rfl

@[simp] theorem floor_setDraft (s : Phased) (who : Reporter) (draft : Draft) :
    (s.setDraft who draft).floor = s.floor := by
  cases who <;> rfl

theorem draftOf_setDraft_ne (s : Phased) {who who' : Reporter} (hne : who' ≠ who)
    (draft : Draft) : (s.setDraft who draft).draftOf who' = s.draftOf who' := by
  cases who <;> cases who' <;> first | rfl | exact absurd rfl hne

theorem Shows.readPhase (h : s.Shows who shown) (hinv : s.Inv job)
    (hdraft : s.draftOf who = .begun) :
    (s.setDraft who (.phase s.phase.get)).Shows who shown := by
  have hbound := h.bound
  rw [hdraft] at hbound
  refine ⟨by simpa using h.leaves, fun _ => by simpa using h.busy (by simp [hdraft]), h.sorted, ?_⟩
  rw [draftOf_setDraft, task_setDraft, floor_setDraft]
  refine ⟨fun n hn => ?_, (hinv.floor_eq who).imp_right fun heq => heq.ge⟩
  have hle := hbound n hn
  have hfloor := s.floor_le
  rw [LocalPhase.number_toPb]
  omega

theorem Shows.readClock (h : s.Shows who shown) {p : LocalPhase} {elapsedMs : Int}
    (hdraft : s.draftOf who = .phase p) :
    (s.setDraft who (.timed p elapsedMs)).Shows who shown := by
  have hbound := h.bound
  rw [hdraft] at hbound
  refine ⟨by simpa using h.leaves, fun _ => by simpa using h.busy (by simp [hdraft]), h.sorted, ?_⟩
  rwa [draftOf_setDraft, task_setDraft, floor_setDraft]

theorem Shows.send (h : s.Shows who shown) {p : LocalPhase} {elapsedMs : Int}
    (hdraft : s.draftOf who = .timed p elapsedMs) :
    (s.setDraft who .empty).Shows who (shown ++ [p.toPb.number]) := by
  have hbound := h.bound
  rw [hdraft] at hbound
  obtain ⟨hall, hp⟩ := hbound
  have hbusy := h.busy (by simp [hdraft])
  refine ⟨by simpa using h.leaves, fun hne => absurd (draftOf_setDraft ..) hne, ?_, ?_⟩
  · refine List.pairwise_append.mpr ⟨h.sorted, List.pairwise_singleton _ _, fun n hn m hm => ?_⟩
    rw [List.mem_singleton.mp hm]
    exact hall n hn
  · rw [draftOf_setDraft, task_setDraft, floor_setDraft]
    rcases hp with haborted | hle
    · refine .inl ⟨haborted, fun hcheck => ?_⟩
      rcases hbusy with hpc | ⟨hpc, -⟩ <;> rw [hpc] at hcheck <;> cases hcheck
    · right
      have hnumber := LocalPhase.number_toPb p
      intro n hn
      rcases List.mem_append.mp hn with hn | hn
      · have := hall n hn
        omega
      · rw [List.mem_singleton.mp hn]
        omega

theorem Shows.other (h : s.Shows who shown) {who' : Reporter} (hne : who ≠ who')
    (draft : Draft) : (s.setDraft who' draft).Shows who shown :=
  h.step (.same (task_setDraft ..) (draftOf_setDraft_ne s hne draft)) (floor_setDraft ..).ge

def Started (s : Phased) : Prop :=
  ∃ times, s.entered = some times ∧ times.measureStartLocal ≤ s.now

structure Timed (s : Phased) : Prop where
  told : i64Min ≤ s.startAtMs ∧ s.startAtMs ≤ i64Max
  phase : s.phase.get = .measuring → s.Started ∨ s.base.cancelled = true ∧ s.draft = .empty
  advancer : s.advancer.pc = .readWarmup ∨ s.advancer.pc = .setMeasuring → s.Started
  draft : s.draft = .phase .measuring ∨ (∃ elapsedMs, s.draft = .timed .measuring elapsedMs) →
    s.Started

theorem Started.mono (h : s.Started) (hentered : s'.entered = s.entered)
    (hnow : s.now ≤ s'.now) : s'.Started := by
  obtain ⟨times, htimes, hle⟩ := h
  exact ⟨times, hentered.trans htimes, hle.trans hnow⟩

theorem Timed.keep (h : s.Timed) (htold : i64Min ≤ s'.startAtMs ∧ s'.startAtMs ≤ i64Max)
    (hphase : s'.phase = s.phase) (hentered : s'.entered = s.entered) (hnow : s.now ≤ s'.now)
    (hcancelled : s.base.cancelled = true → s'.base.cancelled = true)
    (hdraft : s'.draft = s.draft ∨ s'.draft = .begun ∧ s.base.cancelled = false)
    (hadvancer : s'.advancer.pc = .readWarmup ∨ s'.advancer.pc = .setMeasuring →
      s'.advancer.pc = s.advancer.pc) : s'.Timed where
  told := htold
  phase hm := by
    rw [hphase] at hm
    rcases h.phase hm with hstarted | ⟨hstop, hempty⟩
    · exact .inl (hstarted.mono hentered hnow)
    · rcases hdraft with hdraft | ⟨-, hgoes⟩
      · exact .inr ⟨hcancelled hstop, hdraft.trans hempty⟩
      · rw [hgoes] at hstop
        cases hstop
  advancer hpc := by
    have hsame := hadvancer hpc
    rw [hsame] at hpc
    exact (h.advancer hpc).mono hentered hnow
  draft hm := by
    rcases hdraft with hdraft | ⟨hbegun, -⟩
    · rw [hdraft] at hm
      exact (h.draft hm).mono hentered hnow
    · rw [hbegun] at hm
      rcases hm with hm | ⟨_, hm⟩ <;> cases hm

theorem advancerAfter_pc (a : Advancer) (m m' : MainPc)
    (h : (advancerAfter a m m').pc = .readWarmup ∨ (advancerAfter a m m').pc = .setMeasuring) :
    (advancerAfter a m m').pc = a.pc := by
  unfold advancerAfter at h ⊢
  split at h
  · rcases h with h | h <;> cases h
  · obtain ⟨pc, aborted⟩ := a
    cases pc <;> first | rfl | (rcases h with h | h <;> cases h)
  · rfl

theorem after_rest (s : Phased) (act : AssignedAct) (base : Assigned) :
    (s.after act base).base = base ∧ (s.after act base).phase = s.phase ∧
      (s.after act base).entered = s.entered ∧ (s.after act base).now = s.now ∧
      ((s.after act base).advancer = s.advancer ∨
        (s.after act base).advancer = advancerAfter s.advancer s.base.main base.main) ∧
      ((s.after act base).startAtMs = s.startAtMs ∨
        ∃ res, act = .main (.ready (.ok res)) ∧ (s.after act base).startAtMs = res.startAtMs) := by
  cases act with
  | main act =>
    refine ⟨rfl, timing_phase s act, timing_entered s act, timing_now s act, .inr rfl, ?_⟩
    simp only [after, timing]
    split
    · exact .inl rfl
    · exact .inr ⟨_, rfl, rfl⟩
    · exact .inl rfl
  | preflightProgress act | progress act =>
    cases act <;> exact ⟨rfl, rfl, rfl, rfl, .inl rfl, .inl rfl⟩
  | fetcher | writeReturns | shutdown => exact ⟨rfl, rfl, rfl, rfl, .inl rfl, .inl rfl⟩

theorem Timed.base (h : s.Timed) (hinv : s.Inv job) {act : AssignedAct} {base : Assigned}
    {o : AssignedOut} (hblocks : s.blocks act = false)
    (hmove : Assigned.Move job s.base act base o)
    (hwire : ∀ res, act = .main (.ready (.ok res)) →
      i64Min ≤ res.startAtMs ∧ res.startAtMs ≤ i64Max) : (s.after act base).Timed := by
  obtain ⟨hbase, hphase, hentered, hnow, hadvancer, htold⟩ := s.after_rest act base
  refine h.keep ?_ hphase hentered hnow.ge ?_ ?_ ?_
  · rcases htold with htold | ⟨res, hact, htold⟩
    · exact htold ▸ h.told
    · exact htold ▸ hwire res hact
  · rw [hbase]
    exact hmove.cancelled
  · cases hinv.baseTask hblocks hmove .workload with
    | goes hdraft => exact .inl hdraft
    | begins hbegins _ hdraft =>
      refine .inr ⟨hdraft, ?_⟩
      unfold ProgressTask.begins at hbegins
      split at hbegins
      · simp only [Bool.not_eq_true', Bool.or_eq_false_iff] at hbegins
        exact hbegins.1
      · cases hbegins
  · intro hpc
    rcases hadvancer with hadvancer | hadvancer
    · rw [hadvancer]
    · rw [hadvancer] at hpc ⊢
      exact advancerAfter_pc _ _ _ hpc

theorem Inv.pending_ne (h : s.Inv job) {p : LocalPhase} (hpending : s.pending = some p) :
    p ≠ .measuring := by
  have hrow := h.row
  cases hst : s.base.main.stage with
  | preflight =>
    rw [hst] at hrow
    obtain ⟨-, -, -, hnone, -⟩ := hrow
    cases hnone.symm.trans hpending
  | barrier =>
    rw [hst] at hrow
    obtain ⟨-, -, ⟨hsome, -⟩ | ⟨hnone, -⟩⟩ := hrow
    · obtain rfl := Option.some.inj (hsome.symm.trans hpending)
      nofun
    · cases hnone.symm.trans hpending
  | waitStart =>
    rw [hst] at hrow
    obtain ⟨-, hnone, -⟩ := hrow
    cases hnone.symm.trans hpending
  | workload =>
    rw [hst] at hrow
    cases hrow.1.symm.trans hpending
  | later =>
    rw [hst] at hrow
    rintro rfl
    exact absurd (hrow.2 _ hpending).2 (by decide)

theorem Timed.setPhase (h : s.Timed) {p : LocalPhase} (hne : p ≠ .measuring) :
    Timed { s with
      phase := .set p
      pending := none } where
  told := h.told
  phase hm := absurd ((PhaseTracker.get_set p).symm.trans hm) hne
  advancer := h.advancer
  draft := h.draft

theorem phaseTimes_noWarmup {clock : MasterClockOffset} {startAtMs : Int} {spec : Spec.BenchSpec}
    {times : PhaseTimes} (h : phaseTimes clock startAtMs spec = some times)
    (hlo : i64Min ≤ startAtMs) (hhi : startAtMs ≤ i64Max) (hwarmup : spec.warmup = 0) :
    times.measureStartLocal = times.startLocal := by
  unfold phaseTimes at h
  obtain ⟨startLocal, hstart, h⟩ := Option.bind_eq_some_iff.mp h
  obtain ⟨measureStartLocal, hmeasure, h⟩ := Option.bind_eq_some_iff.mp h
  obtain ⟨deadlineLocal, -, h⟩ := Option.bind_eq_some_iff.mp h
  cases h
  have hsame : measureStartMs startAtMs spec.warmup = startAtMs := by
    rw [hwarmup]
    exact (congrArg saturatingI64 (Int.add_zero startAtMs)).trans (saturatingI64_of_fits hlo hhi)
  rw [hsame, hstart] at hmeasure
  exact (Option.some.inj hmeasure).symm

theorem Timed.enter (h : s.Timed) (hidle : s.Idle) {times : PhaseTimes}
    (htimes : phaseTimes s.clock s.startAtMs job.spec = some times)
    (hover : times.startLocal ≤ s.now ∨ s.base.cancelled = true) :
    Timed { s with
      phase := .set (firstPhase job)
      entered := some times } := by
  refine ⟨h.told, fun hm => ?_, fun hpc => ?_, fun hm => ?_⟩
  · have hwarmup : job.spec.warmup = 0 := by
      rw [PhaseTracker.get_set] at hm
      unfold firstPhase at hm
      split at hm
      · assumption
      · cases hm
    have hsame := phaseTimes_noWarmup htimes h.told.1 h.told.2 hwarmup
    rcases hover with hle | hstop
    · exact .inl ⟨times, rfl, hsame ▸ hle⟩
    · exact .inr ⟨hstop, hidle.draft⟩
  · simp only [hidle.advancer] at hpc
    rcases hpc with hpc | hpc <;> cases hpc
  · simp only [hidle.draft] at hm
    rcases hm with hm | ⟨_, hm⟩ <;> cases hm

theorem Timed.advance (h : s.Timed) {times : PhaseTimes} (hentered : s.entered = some times)
    {advancer : Advancer} {phase : PhaseTracker}
    (hstep : s.advancer.step times s.now s.base.cancelled s.phase = some (advancer, phase)) :
    Timed { s with
      advancer
      phase } := by
  obtain ⟨hphase, hpc⟩ := Advancer.step_pc hstep
  refine ⟨h.told, fun hm => ?_, fun hnext => ?_, h.draft⟩
  · rcases hphase hm with hm | hset
    · exact h.phase hm
    · exact .inl (h.advancer (.inr hset))
  · rcases hpc hnext with hle | hread
    · exact ⟨times, hentered, hle⟩
    · exact h.advancer (.inl hread)

theorem Timed.draftOf (h : s.Timed) (who : Reporter) {draft : Draft}
    (hne : s.draftOf who ≠ .empty)
    (hdraft : who = .workload →
      draft = .phase .measuring ∨ (∃ elapsedMs, draft = .timed .measuring elapsedMs) →
      s.Started) : (s.setDraft who draft).Timed := by
  cases who with
  | preflight => exact ⟨h.told, h.phase, h.advancer, h.draft⟩
  | workload =>
    refine ⟨h.told, fun hm => ?_, h.advancer, hdraft rfl⟩
    exact (h.phase hm).imp_right fun hstop => absurd hstop.2 hne

inductive Move (job : AssignedJob) (fetched : MasterClockOffset) (s : Phased) :
    PhasedAct → Phased → Option (Reporter × ReportProgressRequest) → Prop where
  | elapse (d : Spec.Duration) : Move job fetched s (.elapse d) { s with now := s.now + d } none
  | base (act : AssignedAct) (base : Assigned) (o : AssignedOut) : s.blocks act = false →
      s.base.step job act = some (base, o) →
      Move job fetched s (.base act) (s.after act base) none
  | setPhase (p : LocalPhase) : s.pending = some p → Move job fetched s .setPhase
      { s with
        phase := .set p
        pending := none } none
  | enter (times : PhaseTimes) : s.base.main = .waitStart → s.pending = none →
      s.entered = none → phaseTimes s.clock s.startAtMs job.spec = some times →
      times.startLocal ≤ s.now ∨ s.base.cancelled = true → Move job fetched s .enter
      { s with
        phase := .set (firstPhase job)
        entered := some times } none
  | advance (times : PhaseTimes) (advancer : Advancer) (phase : PhaseTracker) :
      s.entered = some times →
      s.advancer.step times s.now s.base.cancelled s.phase = some (advancer, phase) →
      Move job fetched s .advance
      { s with
        advancer
        phase } none
  | readPhase (who : Reporter) : s.draftOf who = .begun →
      Move job fetched s (.readPhase who) (s.setDraft who (.phase s.phase.get)) none
  | readClock (who : Reporter) (p : LocalPhase) : s.draftOf who = .phase p →
      Move job fetched s (.readClock who)
      (s.setDraft who (.timed p (s.elapsedFor job fetched who))) none
  | send (who : Reporter) (p : LocalPhase) (elapsedMs : Int)
      (perOp : HashMap String PerformanceMetrics) : s.draftOf who = .timed p elapsedMs →
      Move job fetched s (.send who perOp) (s.setDraft who .empty)
      (some (who, request job who p elapsedMs perOp))

variable {fetched : MasterClockOffset} {a : PhasedAct}
  {o : Option (Reporter × ReportProgressRequest)}

theorem step_move (h : s.step job fetched a = some (s', o)) : Move job fetched s a s' o := by
  cases a with
  | elapse d =>
    cases h
    exact .elapse d
  | base act =>
    simp only [step] at h
    split at h
    · cases h
    · next hblocks =>
      obtain ⟨⟨base, out⟩, hstep, heq⟩ := Option.map_eq_some_iff.mp h
      cases heq
      exact .base act base out (by simpa using hblocks) hstep
  | setPhase =>
    obtain ⟨p, hp, heq⟩ := Option.map_eq_some_iff.mp h
    cases heq
    exact .setPhase p hp
  | enter =>
    obtain ⟨_, henter, heq⟩ := Option.map_eq_some_iff.mp h
    cases heq
    unfold Phased.enter at henter
    split at henter
    · next hcond =>
      obtain ⟨times, htimes, henter⟩ := Option.bind_eq_some_iff.mp henter
      split at henter
      · next hover =>
        cases henter
        exact .enter times (MainPc.isWaitStart_iff.mp hcond.1) hcond.2.1 hcond.2.2 htimes hover
      · cases henter
    · cases henter
  | advance =>
    obtain ⟨times, htimes, h⟩ := Option.bind_eq_some_iff.mp h
    obtain ⟨⟨advancer, phase⟩, hstep, heq⟩ := Option.map_eq_some_iff.mp h
    cases heq
    exact .advance times advancer phase htimes hstep
  | readPhase who =>
    simp only [step] at h
    split at h
    · next hdraft =>
      cases h
      exact .readPhase who hdraft
    · cases h
  | readClock who =>
    simp only [step] at h
    split at h
    · next p hdraft =>
      cases h
      exact .readClock who p hdraft
    · cases h
  | send who perOp =>
    simp only [step] at h
    split at h
    · next p elapsedMs hdraft =>
      cases h
      exact .send who p elapsedMs perOp hdraft
    · cases h

/-- An answer whose start time is an `i64`. -/
def OnWire : PhasedAct → Prop
  | .base (.main (.ready (.ok res))) => i64Min ≤ res.startAtMs ∧ res.startAtMs ≤ i64Max
  | _ => True

def shownBy (who : Reporter) : Option (Reporter × ReportProgressRequest) → Option Int
  | some (who', req) => if who' = who then req.progress.map (·.phase) else none
  | none => none

theorem Move.inv (h : Move job fetched s a s' o) (hinv : s.Inv job) :
    s'.Inv job ∧ Moved s a s' := by
  cases h with
  | elapse d => exact hinv.keep ⟨rfl, rfl, rfl, rfl, rfl, rfl, rfl,
      fun ⟨hover, hprogress, hdraft⟩ => ⟨hover, hprogress, hdraft⟩⟩
  | base act base out hblocks hstep => exact hinv.base hblocks (Assigned.step_move hstep)
  | setPhase p hpending => exact hinv.setPhase hpending
  | enter times hmain hpending hentered => exact hinv.enter hmain hpending hentered
  | advance times advancer phase _ hstep => exact hinv.advance hstep
  | readPhase who hdraft => exact hinv.setDraft (by simp [hdraft])
  | readClock who p hdraft => exact hinv.setDraft (by simp [hdraft])
  | send who p elapsedMs perOp hdraft => exact hinv.setDraft (by simp [hdraft])

theorem Move.timed (h : Move job fetched s a s' o) (hinv : s.Inv job) (htimed : s.Timed)
    (hwire : OnWire a) : s'.Timed := by
  cases h with
  | elapse d =>
    exact htimed.keep htimed.told rfl rfl (Nat.le_add_right _ _) id (.inl rfl) fun _ => rfl
  | base act base out hblocks hstep =>
    refine htimed.base hinv hblocks (Assigned.step_move hstep) ?_
    rintro res rfl
    exact hwire
  | setPhase p hpending => exact htimed.setPhase (hinv.pending_ne hpending)
  | enter times hmain _ _ htimes hover => exact htimed.enter (hinv.idle hmain) htimes hover
  | advance times advancer phase hentered hstep => exact htimed.advance hentered hstep
  | readPhase who hdraft =>
    refine htimed.draftOf who (by simp [hdraft]) ?_
    rintro rfl hm
    rcases hm with hm | ⟨_, hm⟩
    · have hphase := htimed.phase (Draft.phase.inj hm)
      refine hphase.resolve_right fun hstop => ?_
      cases hdraft.symm.trans hstop.2
    · cases hm
  | readClock who p hdraft =>
    refine htimed.draftOf who (by simp [hdraft]) ?_
    rintro rfl hm
    rcases hm with hm | ⟨_, hm⟩
    · cases hm
    · obtain ⟨rfl, -⟩ := Draft.timed.inj hm
      exact htimed.draft (.inl hdraft)
  | send who p elapsedMs perOp hdraft =>
    refine htimed.draftOf who (by simp [hdraft]) ?_
    rintro - (hm | ⟨_, hm⟩) <;> cases hm

theorem Move.shows {shown : Reporter → List Int} (h : Move job fetched s a s' o)
    (hinv : s.Inv job) (hshows : ∀ who, s.Shows who (shown who)) (who : Reporter) :
    s'.Shows who (shown who ++ (shownBy who o).toList) := by
  have hfloor := (h.inv hinv).2.floor
  cases h with
  | base act base out hblocks hstep =>
    rw [shownBy, Option.toList_none, List.append_nil]
    exact (hshows who).step (hinv.baseTask hblocks (Assigned.step_move hstep) who) hfloor
  | elapse | setPhase | enter | advance =>
    rw [shownBy, Option.toList_none, List.append_nil]
    exact (hshows who).step (.same (by cases who <;> rfl) (by cases who <;> rfl)) hfloor
  | readPhase who' hdraft =>
    rw [shownBy, Option.toList_none, List.append_nil]
    by_cases hwho : who = who'
    · subst hwho
      exact (hshows who).readPhase hinv hdraft
    · exact (hshows who).other hwho _
  | readClock who' p hdraft =>
    rw [shownBy, Option.toList_none, List.append_nil]
    by_cases hwho : who = who'
    · subst hwho
      exact (hshows who).readClock hdraft
    · exact (hshows who).other hwho _
  | send who' p elapsedMs perOp hdraft =>
    by_cases hwho : who = who'
    · subst hwho
      simp only [shownBy, request, if_true, Option.map_some, Option.toList_some]
      exact (hshows who).send hdraft
    · rw [shownBy, if_neg (Ne.symm hwho), Option.toList_none, List.append_nil]
      exact (hshows who).other hwho _

end

end Phased

abbrev PhasedTrace := List (Event Phased PhasedAct (Option (Reporter × ReportProgressRequest)))

def phasesOf (who : Reporter) (tr : PhasedTrace) : List Int :=
  tr.filterMap fun e => Phased.shownBy who e.out

def PhasedAct.ofJob : PhasedAct → Option AssignedAct
  | .base a => some a
  | _ => none

/-- Whatever an aborted advancer makes of the phase, the reports of each task go through the
phases in order, and metrics are in the reports of the measurement only. -/
structure PhaseRuns (job : AssignedJob) (tr : PhasedTrace) (s : Phased) : Prop where
  base : ∃ tr', (assigned (.accepted job)).Run (assigned (.accepted job)).init tr' s.base ∧
    tr'.map (·.act) = tr.filterMap (·.act.ofJob)
  sorted : ∀ who, (phasesOf who tr).Pairwise (· ≤ ·)
  back : ∀ e ∈ tr, e.post.phase.get.code < e.pre.phase.get.code →
    e.act = .advance ∧ e.pre.advancer.aborted = true
  reports : ∀ e ∈ tr, ∀ who req, e.out = some (who, req) → ∃ p, req.progress = some p ∧
    Master.admitProgress p = p ∧
    (p.perOp ≠ ∅ → who = .workload ∧ p.phase = WorkerPhase.measuring.number ∧ e.pre.Started)

namespace Phased

structure History (job : AssignedJob) (tr : PhasedTrace) (s : Phased) : Prop where
  runs : PhaseRuns job tr s
  inv : s.Inv job
  timed : s.Timed
  shows : ∀ who, s.Shows who (phasesOf who tr)

section

variable {job : AssignedJob} {s s' : Phased} {fetched : MasterClockOffset} {a : PhasedAct}
  {o : Option (Reporter × ReportProgressRequest)}

theorem init_inv (job : AssignedJob) (fetched : MasterClockOffset) (start : Instant) :
    (phased job fetched start).init.Inv job ∧ (phased job fetched start).init.Timed ∧
      ∀ who, (phased job fetched start).init.Shows who [] := by
  have hzero : i64Min ≤ 0 ∧ (0 : Int) ≤ i64Max := by decide
  refine ⟨⟨⟨⟨rfl, rfl, rfl⟩, rfl, rfl, rfl, rfl⟩, fun h => absurd rfl h⟩, ⟨hzero, ?_, ?_, ?_⟩, ?_⟩
  · nofun
  · rintro (h | h) <;> cases h
  · rintro (h | ⟨_, h⟩) <;> cases h
  · intro who
    cases who <;> exact ⟨nofun, fun h => absurd rfl h, .nil, .inr nofun⟩

theorem Move.reports (h : Move job fetched s a s' o) (htimed : s.Timed) {who : Reporter}
    {req : ReportProgressRequest} (ho : o = some (who, req)) : ∃ p, req.progress = some p ∧
      Master.admitProgress p = p ∧
      (p.perOp ≠ ∅ → who = .workload ∧ p.phase = WorkerPhase.measuring.number ∧ s.Started) := by
  cases h with
  | send who' p elapsedMs perOp hdraft =>
    cases ho
    refine ⟨_, rfl, ?_⟩
    by_cases hmeasuring : who = .workload ∧ p = .measuring
    · obtain ⟨rfl, rfl⟩ := hmeasuring
      exact ⟨rfl, fun _ => ⟨rfl, rfl, htimed.draft (.inr ⟨elapsedMs, hdraft⟩)⟩⟩
    · rw [if_neg hmeasuring]
      refine ⟨?_, fun hne => absurd rfl hne⟩
      unfold Master.admitProgress
      split <;> rfl
  | elapse | base | setPhase | enter | advance | readPhase | readClock => cases ho

theorem Move.baseRun (h : Move job fetched s a s' o) {tr' : AssignedTrace}
    (hrun : (assigned (.accepted job)).Run (assigned (.accepted job)).init tr' s.base) :
    ∃ new, (assigned (.accepted job)).Run (assigned (.accepted job)).init (tr' ++ new) s'.base ∧
      new.map (·.act) = a.ofJob.toList := by
  cases h with
  | base act base out _ hstep =>
    refine ⟨[⟨s.base, act, out, base⟩], ?_, rfl⟩
    rw [(s.after_rest act base).1]
    exact hrun.snoc hstep
  | readPhase who | readClock who | send who =>
    refine ⟨[], ?_, rfl⟩
    rw [List.append_nil]
    cases who <;> exact hrun
  | elapse | setPhase | enter | advance =>
    refine ⟨[], ?_, rfl⟩
    rw [List.append_nil]
    exact hrun

theorem History.step {tr : PhasedTrace} (h : History job tr s)
    (hmove : Move job fetched s a s' o) (hwire : OnWire a) :
    History job (tr ++ [⟨s, a, o, s'⟩]) s' := by
  obtain ⟨hinv, hmoved⟩ := hmove.inv h.inv
  have hphases : ∀ who, phasesOf who (tr ++ [⟨s, a, o, s'⟩]) =
      phasesOf who tr ++ (shownBy who o).toList := by
    intro who
    rw [phasesOf, List.filterMap_append, phasesOf]
    cases hshown : shownBy who o <;> simp [hshown]
  have hshows : ∀ who, s'.Shows who (phasesOf who (tr ++ [⟨s, a, o, s'⟩])) := by
    intro who
    rw [hphases]
    exact hmove.shows h.inv h.shows who
  refine ⟨⟨?_, fun who => (hshows who).sorted, ?_, ?_⟩, hinv,
    hmove.timed h.inv h.timed hwire, hshows⟩
  · obtain ⟨tr', hrun, hacts⟩ := h.runs.base
    obtain ⟨new, hrun', hnew⟩ := hmove.baseRun hrun
    refine ⟨tr' ++ new, hrun', ?_⟩
    rw [List.map_append, List.filterMap_append, hacts, hnew]
    cases hof : a.ofJob <;> simp [hof]
  · intro e he
    rcases List.mem_append.mp he with he | he
    · exact h.runs.back e he
    · rw [List.mem_singleton.mp he]
      exact hmoved.back
  · intro e he
    rcases List.mem_append.mp he with he | he
    · exact h.runs.reports e he
    · rw [List.mem_singleton.mp he]
      exact fun who req => hmove.reports h.timed

end

end Phased

theorem phase_reports {job : AssignedJob} {fetched : MasterClockOffset} {start : Instant}
    {tr : PhasedTrace} {s : Phased}
    (hrun : (phased job fetched start).Run (phased job fetched start).init tr s)
    (hwire : ∀ e ∈ tr, Phased.OnWire e.act) : PhaseRuns job tr s := by
  have history : Phased.History job tr s := by
    refine hrun.historyWhere (fun _ a => Phased.OnWire a) hwire ?_ ?_
    · obtain ⟨hinv, htimed, hshows⟩ := Phased.init_inv job fetched start
      have hbase : (assigned (.accepted job)).Run (assigned (.accepted job)).init []
          (phased job fetched start).init.base := .nil _
      exact ⟨⟨⟨[], hbase, rfl⟩, fun _ => .nil, fun e he => (List.not_mem_nil he).elim,
        fun e he => (List.not_mem_nil he).elim⟩, hinv, htimed, hshows⟩
    · intro tr s a t o _ _ h hwire hstep
      exact h.step (Phased.step_move hstep) hwire
  exact history.runs

namespace Small

def warmedJob : AssignedJob :=
  { cleanedJob with spec := { cleanedJob.spec with warmup := 1000000000 } }

/-- The workload ends when the advancer is about to show the measurement. -/
def setBack : List PhasedAct :=
  [.base (.main (.preflight allWell)), .setPhase, .base (.main .run),
    .base (.main (.ready (.ok { cancelled := false, unknownJob := false, startAtMs := 2000
                                masterNowMs := 1000 }))),
    .elapse 1000000000, .enter, .base (.main .wake), .base (.progress .wake),
    .elapse 1000000000, .advance, .advance, .advance, .base (.progress .run),
    .base (.writeReturns true), .base (.main (.returned .ok)), .setPhase, .advance,
    .readPhase .workload, .readClock .workload, .send .workload ∅]

def warmed : Machine Phased PhasedAct (Option (Reporter × ReportProgressRequest)) :=
  phased warmedJob ⟨0, 1000⟩ 0

end Small

theorem phase_reports_small :
    PhaseRuns Small.warmedJob (Small.warmed.trace Small.warmed.init Small.setBack)
      (Small.warmed.play Small.warmed.init Small.setBack) ∧
    phasesOf .workload (Small.warmed.trace Small.warmed.init Small.setBack) =
      [WorkerPhase.measuring.number] ∧
    ∃ e ∈ Small.warmed.trace Small.warmed.init Small.setBack,
      e.pre.phase.get = .cleanup ∧ e.post.phase.get = .measuring := by
  refine ⟨phase_reports (Small.warmed.run_play _ _) fun e he => ?_, by decide +kernel,
    by decide +kernel⟩
  have hact : ∀ a ∈ Small.setBack, Phased.OnWire a := by
    simp [Small.setBack, Phased.OnWire, i64Min, i64Max]
  exact hact _ (Machine.act_of_mem_trace _ he)

end CvdBench.Worker
