import CvdBench.Properties.EffectiveWindow
import CvdBench.Worker.MeasuredSteps

/-!
What the metrics of a worker count: only operations that were not over before the
measurement began, exactly when no step records one that was.
-/

set_option autoImplicit false

namespace CvdBench.Worker

open Foundation Metrics Proto

section

variable {H : Type} (lib : HdrRecorder H) (fresh : PerOpMetrics H)

abbrev MeasureStep (H : Type) := Event (Measured H) MeasureAct (Option OpRecord)

def recordsOf (tr : List (MeasureStep H)) : List OpRecord := tr.filterMap (·.out)

def recordingsOf (key : String) (records : List OpRecord) : List Recording :=
  (records.filter (·.key == key)).map (·.recording)

/-- The metrics of the result are made of these entries, and each of them is of an operation
that was unfinished when the measurement began, or began later. -/
def MeasuredOnly (measureStart : Nat) (secs : Float) (records : List OpRecord)
    (perOp : HashMap String PerformanceMetrics) : Prop :=
  ∀ key pm, perOp.get? key = some pm →
    pm = ((recordingsOf key records).foldl (PerOpMetrics.record lib) fresh).snapshot lib secs ∧
      ∀ r ∈ records, r.key = key → measureStart ≤ r.ended

/-- An operation that fails here, or an entry that leaves the mount point, is in the
measurement; an item of the stream that is recorded here was made in the measurement. -/
structure TimedTask.OnTime (cfg : MeasureCfg) (now : Nat) (st : TimedTask) (act : TimedAct) :
    Prop where
  failure : act.failed = true ∨ st.escapes cfg = true → cfg.measureStart ≤ now
  item : ∀ t, st.item? act = some t → t.failed = true ∨ cfg.measureStart ≤ now →
    cfg.measureStart ≤ t.ended

def OnTime (cfg : MeasureCfg) (s : Measured H) : MeasureAct → Prop
  | .task i act => ∀ st, s.tasks[i]? = some st → st.OnTime cfg s.now act
  | _ => True

end

variable {cfg : MeasureCfg} {now : Nat}

theorem Yields.onTime_iff {st : TimedTask} {act : TimedAct} {rec : Option OpRecord}
    (h : Yields cfg now st act rec) (hgate : st.gate = true → cfg.measureStart ≤ now) :
    (∀ r, rec = some r → cfg.measureStart ≤ r.ended) ↔ st.OnTime cfg now act := by
  cases h with
  | silent hact hesc hitem =>
    refine iff_of_true (fun r hr => nomatch hr) ⟨fun hfail => ?_, fun t ht => ?_⟩
    · rw [hact, hesc] at hfail
      simp at hfail
    · rw [hitem] at ht
      cases ht
  | failed r hfail hitem hended =>
    constructor
    · intro hwin
      refine ⟨fun _ => hended ▸ hwin r rfl, fun t ht => ?_⟩
      rw [hitem] at ht
      cases ht
    · intro hon r' hr
      cases hr
      rw [hended]
      exact hon.failure hfail
  | gated r hg hact hesc hitem hended =>
    refine iff_of_true ?_ ⟨fun _ => hgate hg, fun t ht => ?_⟩
    · intro r' hr
      cases hr
      rw [hended]
      exact hgate hg
    · rw [hitem] at ht
      cases ht
  | item t hitem hact hesc =>
    have hrec : (∀ r, t.rec? cfg now = some r → cfg.measureStart ≤ r.ended) ↔
        (t.failed = true ∨ cfg.measureStart ≤ now → cfg.measureStart ≤ t.ended) := by
      unfold TimedItem.rec? TimedItem.failed recordIf
      cases t.item with
      | error err => simp
      | ok event =>
        by_cases hin : cfg.measureStart ≤ now
        · simp [MeasureCfg.inMeasure, hin]
        · simp [MeasureCfg.inMeasure, hin]
    rw [hrec]
    constructor
    · intro hwin
      refine ⟨fun hfail => ?_, fun t' ht' => ?_⟩
      · rw [hact, hesc] at hfail
        simp at hfail
      · rw [hitem] at ht'
        cases ht'
        exact hwin
    · intro hon
      exact hon.item t hitem

section

variable {H : Type} {lib : HdrRecorder H} {fresh : PerOpMetrics H}

theorem get?_openOps (metrics : HashMap String (PerOpMetrics H)) (keys : List String)
    (key : String) :
    ((openOps fresh metrics keys).get? key).getD fresh = (metrics.get? key).getD fresh ∧
      ((metrics.get? key).isSome = true →
        ((openOps fresh metrics keys).get? key).isSome = true) := by
  induction keys generalizing metrics with
  | nil => exact ⟨rfl, id⟩
  | cons k keys ih =>
    obtain ⟨hval, hsome⟩ := ih (metrics.put k ((metrics.get? k).getD fresh))
    rw [openOps, List.foldl_cons]
    by_cases hk : key = k
    · subst hk
      rw [HashMap.get?_put_self] at hval hsome
      exact ⟨hval, fun _ => hsome rfl⟩
    · rw [HashMap.get?_put_ne _ _ hk] at hval hsome
      exact ⟨hval, hsome⟩

theorem recordingsOf_append (key : String) (rs : List OpRecord) (rec : Option OpRecord) :
    recordingsOf key (rs ++ rec.toList) = recordingsOf key rs ++ recordingsOf key rec.toList := by
  rw [recordingsOf, List.filter_append, List.map_append, recordingsOf, recordingsOf]

theorem get?_recordOpt (metrics : HashMap String (PerOpMetrics H)) (rec : Option OpRecord)
    (key : String) :
    ((recordOpt lib fresh metrics rec).get? key).getD fresh =
      (recordingsOf key rec.toList).foldl (PerOpMetrics.record lib)
        ((metrics.get? key).getD fresh) ∧
    ((metrics.get? key).isSome = true →
      ((recordOpt lib fresh metrics rec).get? key).isSome = true) := by
  cases rec with
  | none => exact ⟨rfl, id⟩
  | some r =>
    unfold recordOpt recordingsOf
    by_cases hk : key = r.key
    · subst hk
      simp
    · have hne : (r.key == key) = false := by simpa using fun heq : r.key = key => hk heq.symm
      simp [HashMap.get?_put_ne _ _ hk, hne]

theorem isSome_recordOpt (metrics : HashMap String (PerOpMetrics H)) (r : OpRecord) :
    ((recordOpt lib fresh metrics (some r)).get? r.key).isSome = true := by
  simp [recordOpt]

end

section

variable {H : Type} {lib : HdrRecorder H} {fresh : PerOpMetrics H}

theorem Measured.step_cases {s s' : Measured H} {act : MeasureAct} {out : Option OpRecord}
    (h : s.step cfg lib fresh act = some (s', out)) :
    ((∀ i a, act ≠ .task i a) ∧ out = none ∧ s'.tasks = s.tasks ∧ s'.metrics = s.metrics ∧
        s.now ≤ s'.now) ∨
      ∃ i a st stop res, act = .task i a ∧ s.tasks[i]? = some st ∧
        st.step cfg s.now stop a = some res ∧ out = res.rec? ∧ s'.now = s.now ∧
        s'.metrics = recordOpt lib fresh (openOps fresh s.metrics (st.opens cfg)) res.rec? ∧
        s'.tasks = s.tasks.set i (res.next?.getD .finished) := by
  cases act with
  | elapse d =>
    cases h
    exact .inl ⟨fun _ _ => nofun, rfl, rfl, rfl, Nat.le_add_right _ _⟩
  | abort =>
    cases h
    exact .inl ⟨fun _ _ => nofun, rfl, rfl, rfl, le_refl _⟩
  | cancel =>
    cases h
    exact .inl ⟨fun _ _ => nofun, rfl, rfl, rfl, le_refl _⟩
  | task i a =>
    obtain ⟨st, hst, h⟩ := Option.bind_eq_some_iff.mp h
    obtain ⟨res, hres, h⟩ := Option.bind_eq_some_iff.mp h
    refine .inr ⟨i, a, st, _, res, rfl, hst, hres, ?_⟩
    cases res <;> cases h <;> exact ⟨rfl, rfl, rfl, rfl⟩

/-- What is true of the entries of a run and the state that it leads to. -/
structure Books (cfg : MeasureCfg) (lib : HdrRecorder H) (fresh : PerOpMetrics H)
    (tr : List (MeasureStep H)) (s : Measured H) : Prop where
  gate : ∀ st ∈ s.tasks, st.gate = true → cfg.measureStart ≤ s.now
  metrics : ∀ key, (s.metrics.get? key).getD fresh =
    (recordingsOf key (recordsOf tr)).foldl (PerOpMetrics.record lib) fresh
  keys : ∀ r ∈ recordsOf tr, (s.metrics.get? r.key).isSome = true
  onTime : (∀ r ∈ recordsOf tr, cfg.measureStart ≤ r.ended) ↔ ∀ e ∈ tr, OnTime cfg e.pre e.act

theorem recordsOf_append (tr : List (MeasureStep H)) (e : MeasureStep H) :
    recordsOf (tr ++ [e]) = recordsOf tr ++ e.out.toList := by
  rw [recordsOf, List.filterMap_append, recordsOf]
  cases hout : e.out <;> simp [hout]

theorem Books.step {tr : List (MeasureStep H)} {s s' : Measured H} {act : MeasureAct}
    {out : Option OpRecord} (h : Books cfg lib fresh tr s)
    (hstep : s.step cfg lib fresh act = some (s', out)) :
    Books cfg lib fresh (tr ++ [⟨s, act, out, s'⟩]) s' := by
  obtain ⟨hworld, rfl, htasks, hmetrics, hnow⟩ |
    ⟨i, a, st, stop, res, rfl, hst, hres, rfl, hnow, hmetrics, htasks⟩ := Measured.step_cases hstep
  · have hrecords : recordsOf (tr ++ [⟨s, act, none, s'⟩]) = recordsOf tr := by
      rw [recordsOf_append]
      exact List.append_nil _
    have hact : OnTime cfg s act := by
      cases act with
      | task i a => exact absurd rfl (hworld i a)
      | _ => trivial
    constructor
    · intro st hmem hg
      rw [htasks] at hmem
      exact (h.gate st hmem hg).trans hnow
    · rw [hrecords, hmetrics]
      exact h.metrics
    · rw [hrecords, hmetrics]
      exact h.keys
    · rw [hrecords, h.onTime]
      simp [or_imp, forall_and, hact]
  · have hmem : st ∈ s.tasks := List.mem_of_getElem? hst
    have hyields := TimedTask.step_yields hres
    have hone := hyields.onTime_iff (h.gate st hmem)
    have hrecords : recordsOf (tr ++ [⟨s, .task i a, res.rec?, s'⟩]) =
        recordsOf tr ++ res.rec?.toList := recordsOf_append _ _
    have hact : OnTime cfg s (.task i a) ↔ st.OnTime cfg s.now a := by
      simp [OnTime, hst]
    have hopen := @get?_openOps H fresh s.metrics (st.opens cfg)
    have hrec := @get?_recordOpt H lib fresh (openOps fresh s.metrics (st.opens cfg)) res.rec?
    constructor
    · intro st' hmem' hg
      rw [hnow]
      rw [htasks] at hmem'
      rcases List.mem_or_eq_of_mem_set hmem' with hold | hnew
      · exact h.gate st' hold hg
      · cases hnext : res.next? with
        | none =>
          rw [hnew, hnext] at hg
          cases hg
        | some st₁ =>
          rw [hnew, hnext] at hg
          rcases TimedTask.step_gate hres hnext hg with hg | hin
          · exact h.gate st hmem hg
          · exact hin
    · intro key
      rw [hrecords, hmetrics, (hrec key).1, (hopen key).1, h.metrics key, recordingsOf_append,
        List.foldl_append]
    · intro r hr
      rw [hrecords, List.mem_append] at hr
      rw [hmetrics]
      rcases hr with hr | hr
      · exact (hrec r.key).2 ((hopen r.key).2 (h.keys r hr))
      · rw [Option.mem_toList] at hr
        rw [hr]
        exact isSome_recordOpt _ r
    · rw [hrecords]
      simp only [List.mem_append, or_imp, forall_and, List.mem_singleton, forall_eq,
        Option.mem_toList, h.onTime, hone, hact]

theorem books_of_run {start : Nat} {workloads : List Workload} {tr : List (MeasureStep H)}
    {t : Measured H}
    (h : (measuring cfg lib fresh start workloads).Run
      (measuring cfg lib fresh start workloads).init tr t) : Books cfg lib fresh tr t := by
  refine h.history ?_ fun tr s a t o _ hbooks hstep => hbooks.step hstep
  constructor
  · intro st hmem hg
    obtain ⟨w, -, rfl⟩ := List.mem_map.mp hmem
    cases hg
  · intro key
    rfl
  · intro r hr
    cases hr
  · simp [recordsOf]

/-- The metrics of a result count the measurement only, exactly for the runs in which no
operation fails before it, and nothing that was read before it is received in it. -/
theorem measured_only_iff {start : Nat} {workloads : List Workload} {tr : List (MeasureStep H)}
    {t : Measured H} (secs : Float)
    (h : (measuring cfg lib fresh start workloads).Run
      (measuring cfg lib fresh start workloads).init tr t) :
    MeasuredOnly lib fresh cfg.measureStart secs (recordsOf tr) (snapshotPb lib t.metrics secs) ↔
      ∀ e ∈ tr, OnTime cfg e.pre e.act := by
  have hbooks := books_of_run h
  rw [← hbooks.onTime]
  constructor
  · intro hall r hr
    obtain ⟨m, hm⟩ := Option.isSome_iff_exists.mp (hbooks.keys r hr)
    have hsnap : (snapshotPb lib t.metrics secs).get? r.key = some (m.snapshot lib secs) := by
      rw [snapshotPb, HashMap.get?_map, hm]
      rfl
    exact (hall r.key _ hsnap).2 r hr rfl
  · intro hwin key pm hpm
    rw [snapshotPb, HashMap.get?_map] at hpm
    obtain ⟨m, hm, rfl⟩ := Option.map_eq_some_iff.mp hpm
    have hfold := hbooks.metrics key
    rw [hm] at hfold
    refine ⟨?_, fun r hr _ => hwin r hr⟩
    rw [← hfold]
    rfl

end

namespace Small

def recorder : HdrRecorder Unit :=
  { Metrics.Small.hdr with
    newWithMax := fun _ _ => some ()
    high := fun _ => 0
    record := fun _ _ => some () }

def fresh : PerOpMetrics Unit := ⟨0, 0, 0, ()⟩

def minutes : MeasureCfg := ⟨60000000, 120000000, "/mnt", false, false, false⟩

/-- One write task, whose first `create_dir_all` fails a millisecond after the start. -/
def earlyFailure : List MeasureAct :=
  [.task 0 .run, .task 0 (.size 4096), .task 0 .run, .elapse 1000, .task 0 (.mkdir (.error "EIO"))]

abbrev writing : Machine (Measured Unit) MeasureAct (Option OpRecord) :=
  measuring minutes recorder fresh 0 [.write]

end Small

/-- The failure in the warmup is in the metrics. -/
theorem warmup_failure_counted :
    ∃ tr t, Small.writing.Run Small.writing.init tr t ∧
      ¬ MeasuredOnly Small.recorder Small.fresh Small.minutes.measureStart 60 (recordsOf tr)
        (snapshotPb Small.recorder t.metrics 60) := by
  refine ⟨_, _, Small.writing.run_play Small.writing.init Small.earlyFailure, ?_⟩
  intro h
  have hkey : (snapshotPb Small.recorder
      (Small.writing.play Small.writing.init Small.earlyFailure).metrics 60).get? "write" =
        some ((Small.fresh.record Small.recorder .error).snapshot Small.recorder 60) := rfl
  have hwin := (h "write" _ hkey).2 ⟨"write", .error, 0, 1000⟩ (by decide) rfl
  exact absurd hwin (by decide)

theorem warmup_failure_iff :
    MeasuredOnly Small.recorder Small.fresh Small.minutes.measureStart 60
        (recordsOf (Small.writing.trace Small.writing.init Small.earlyFailure))
        (snapshotPb Small.recorder
          (Small.writing.play Small.writing.init Small.earlyFailure).metrics 60) ↔
      ∀ e ∈ Small.writing.trace Small.writing.init Small.earlyFailure,
        OnTime Small.minutes e.pre e.act :=
  measured_only_iff 60 (Small.writing.run_play Small.writing.init Small.earlyFailure)

end CvdBench.Worker
