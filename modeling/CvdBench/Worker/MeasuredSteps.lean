import CvdBench.Worker.Measured

/-!
What a step of a task records: nothing, an operation that fails here, one that began in the
measurement, or an item of the stream that was made some time ago.
-/

set_option autoImplicit false

namespace CvdBench.Worker

open Foundation Metrics Proto

def TimedAct.failed : TimedAct → Bool
  | .mkdir (.error _) | .written (.error _) | .verified (.error _) | .verified (.ok false)
  | .checked (.error _) | .op (some (.error _)) | .stat (.error _) => true
  | _ => false

def TimedTask.escapes (cfg : MeasureCfg) : TimedTask → Bool
  | .read (.resolve entry) | .manifestStat (.acquire entry) =>
      match absPath cfg.mountPoint entry with
      | .error _ => true
      | .ok _ => false
  | _ => false

def TimedTask.item? : TimedTask → TimedAct → Option TimedItem
  | .read (.record _ t), .run => some t
  | _, _ => none

/-- Under way in an operation that is to be recorded. -/
def TimedTask.gate : TimedTask → Bool
  | .write (.write _ inMeasure _) | .write (.verify _ inMeasure _) | .read (.check inMeasure _)
  | .layout (.operate _ inMeasure _) | .manifestStat (.stat inMeasure _) => inMeasure
  | _ => false

def TimedItem.failed (t : TimedItem) : Bool :=
  match t.item with
  | .error _ => true
  | .ok _ => false

variable (cfg : MeasureCfg) (now : Nat)

inductive Yields : TimedTask → TimedAct → Option OpRecord → Prop where
  | silent (st : TimedTask) (act : TimedAct) : act.failed = false → st.escapes cfg = false →
      st.item? act = none → Yields st act none
  | failed (st : TimedTask) (act : TimedAct) (r : OpRecord) :
      act.failed = true ∨ st.escapes cfg = true → st.item? act = none → r.ended = now →
      Yields st act (some r)
  | gated (st : TimedTask) (act : TimedAct) (r : OpRecord) : st.gate = true →
      act.failed = false → st.escapes cfg = false → st.item? act = none → r.ended = now →
      Yields st act (some r)
  | item (st : TimedTask) (act : TimedAct) (t : TimedItem) : st.item? act = some t →
      act.failed = false → st.escapes cfg = false → Yields st act (t.rec? cfg now)

variable {cfg now} {stop : Bool} {act : TimedAct}

theorem Yields.ofGate {st : TimedTask} {r : OpRecord} (hact : act.failed = false)
    (hesc : st.escapes cfg = false) (hitem : st.item? act = none) (hended : r.ended = now) :
    Yields cfg now st act (recordIf st.gate r) := by
  cases hgate : st.gate with
  | false => exact .silent st act hact hesc hitem
  | true => exact .gated st act r hgate hact hesc hitem hended

theorem WritePc.step_yields {pc : WritePc} {res : TimedStep WritePc}
    (h : pc.step cfg now stop act = some res) :
    Yields cfg now (.write pc) act res.rec? := by
  unfold WritePc.step at h
  split at h
  · cases h
    split <;> exact .silent _ _ rfl rfl rfl
  · cases h
    exact .silent _ _ rfl rfl rfl
  · cases h
    exact .failed _ _ _ (.inl rfl) rfl rfl
  · cases h
    exact .silent _ _ rfl rfl rfl
  · cases h
    exact .silent _ _ rfl rfl rfl
  · cases h
    exact .failed _ _ _ (.inl rfl) rfl rfl
  · next n inMeasure began elapsed =>
    cases h
    exact @Yields.ofGate cfg now _ (.write (.write n inMeasure began)) _ rfl rfl rfl rfl
  · cases h
    exact .failed _ _ _ (.inl rfl) rfl rfl
  · cases h
    exact .failed _ _ _ (.inl rfl) rfl rfl
  · next n inMeasure began =>
    cases h
    exact @Yields.ofGate cfg now _ (.write (.verify n inMeasure began)) _ rfl rfl rfl rfl
  · cases h
    exact .silent _ _ rfl rfl rfl
  · cases h

theorem ReadPc.step_yields {pc : ReadPc} {res : TimedStep ReadPc}
    (h : pc.step cfg now stop act = some res) :
    Yields cfg now (.read pc) act res.rec? := by
  unfold ReadPc.step at h
  split at h
  · cases h
    split <;> exact .silent _ _ rfl rfl rfl
  · cases h
    exact .silent _ _ rfl rfl rfl
  · cases h
    exact .silent _ _ rfl rfl rfl
  · next entry file =>
    split at h
    · next path hpath =>
      cases h
      exact .failed _ _ _ (.inr (by simp [TimedTask.escapes, hpath])) rfl rfl
    · next path hpath =>
      cases h
      exact .silent _ _ rfl (by simp [TimedTask.escapes, hpath]) rfl
  · split at h
    · cases h
      exact .silent _ _ rfl rfl rfl
    · split at h
      · cases h
        exact .silent _ _ rfl rfl rfl
      · cases h
  · cases h
    exact .silent _ _ rfl rfl rfl
  · next s t =>
    cases h
    exact .item _ _ t rfl rfl rfl
  · split at h
    · cases h
      split <;> exact .silent _ _ rfl rfl rfl
    · cases h
  · cases h
    split <;> exact .silent _ _ rfl rfl rfl
  · cases h
    exact .silent _ _ rfl rfl rfl
  · next inMeasure began s3Size =>
    cases h
    exact @Yields.ofGate cfg now _ (.read (.check inMeasure began)) _ rfl rfl rfl rfl
  · cases h
    exact .failed _ _ _ (.inl rfl) rfl rfl
  · cases h
    exact .silent _ _ rfl rfl rfl
  · obtain ⟨s, hs, rfl⟩ := Option.map_eq_some_iff.mp h
    cases pc with
    | resolve => cases hs
    | _ => exact .silent _ _ rfl rfl rfl
  · obtain ⟨s, hs, rfl⟩ := Option.map_eq_some_iff.mp h
    cases pc with
    | resolve => cases hs
    | _ => exact .silent _ _ rfl rfl rfl
  · cases h

theorem LayoutPc.step_yields {pc : LayoutPc} {res : TimedStep LayoutPc}
    (h : pc.step cfg now stop act = some res) :
    Yields cfg now (.layout pc) act res.rec? := by
  unfold LayoutPc.step at h
  split at h
  · cases h
    split
    · exact .silent _ _ rfl rfl rfl
    · split <;> exact .silent _ _ rfl rfl rfl
  · cases h
    exact .silent _ _ rfl rfl rfl
  · cases h
    exact .silent _ _ rfl rfl rfl
  · next op inMeasure began =>
    cases h
    exact @Yields.ofGate cfg now _ (.layout (.operate op inMeasure began)) _ rfl rfl rfl rfl
  · cases h
    exact .failed _ _ _ (.inl rfl) rfl rfl
  · cases h
    exact .silent _ _ rfl rfl rfl
  · cases h

theorem StatPc.step_yields {pc : StatPc} {res : TimedStep StatPc}
    (h : pc.step cfg now stop act = some res) :
    Yields cfg now (.manifestStat pc) act res.rec? := by
  unfold StatPc.step at h
  split at h
  · cases h
    split <;> exact .silent _ _ rfl rfl rfl
  · cases h
    exact .silent _ _ rfl rfl rfl
  · cases h
    exact .silent _ _ rfl rfl rfl
  · next entry =>
    split at h
    · next path hpath =>
      cases h
      exact .failed _ _ _ (.inr (by simp [TimedTask.escapes, hpath])) rfl rfl
    · next path hpath =>
      cases h
      exact .silent _ _ rfl (by simp [TimedTask.escapes, hpath]) rfl
  · next inMeasure began =>
    cases h
    exact @Yields.ofGate cfg now _ (.manifestStat (.stat inMeasure began)) _ rfl rfl rfl rfl
  · cases h
    exact .failed _ _ _ (.inl rfl) rfl rfl
  · cases h
    exact .silent _ _ rfl rfl rfl
  · cases h

theorem TimedStep.rec?_map {σ τ : Type} (f : σ → τ) (res : TimedStep σ) :
    (res.map f).rec? = res.rec? := by
  cases res <;> rfl

theorem TimedTask.step_yields {st : TimedTask} {res : TimedStep TimedTask}
    (h : st.step cfg now stop act = some res) : Yields cfg now st act res.rec? := by
  unfold TimedTask.step at h
  split at h
  · cases h
    exact .silent _ _ rfl rfl rfl
  · cases h
  · cases h
  · obtain ⟨res, hres, rfl⟩ := Option.map_eq_some_iff.mp h
    rw [TimedStep.rec?_map]
    exact WritePc.step_yields hres
  · obtain ⟨res, hres, rfl⟩ := Option.map_eq_some_iff.mp h
    rw [TimedStep.rec?_map]
    exact ReadPc.step_yields hres
  · obtain ⟨res, hres, rfl⟩ := Option.map_eq_some_iff.mp h
    rw [TimedStep.rec?_map]
    exact LayoutPc.step_yields hres
  · obtain ⟨res, hres, rfl⟩ := Option.map_eq_some_iff.mp h
    rw [TimedStep.rec?_map]
    exact StatPc.step_yields hres

def TimedStep.next? {σ : Type} : TimedStep σ → Option σ
  | .more st _ => some st
  | _ => none

theorem MeasureCfg.inMeasure_iff : cfg.inMeasure now = true ↔ cfg.measureStart ≤ now :=
  decide_eq_true_iff

theorem WritePc.step_gate {pc pc' : WritePc} {res : TimedStep WritePc}
    (h : pc.step cfg now stop act = some res) (hnext : res.next? = some pc')
    (hgate : (TimedTask.write pc').gate = true) :
    (TimedTask.write pc).gate = true ∨ cfg.measureStart ≤ now := by
  unfold WritePc.step at h
  split at h <;> cases h <;> try cases hnext
  · split at hnext <;> cases hnext
    cases hgate
  · cases hgate
  · cases hgate
  · exact .inr (MeasureCfg.inMeasure_iff.mp hgate)
  · split at hgate
    · exact .inl hgate
    · cases hgate
  · cases hgate
  · cases hgate

theorem ReadPc.setStream_gate (pc : ReadPc) (s : TimedStream) :
    (TimedTask.read (pc.setStream s)).gate = (TimedTask.read pc).gate := by
  cases pc <;> rfl

theorem ReadPc.step_gate {pc pc' : ReadPc} {res : TimedStep ReadPc}
    (h : pc.step cfg now stop act = some res) (hnext : res.next? = some pc')
    (hgate : (TimedTask.read pc').gate = true) :
    (TimedTask.read pc).gate = true ∨ cfg.measureStart ≤ now := by
  unfold ReadPc.step at h
  split at h
  · cases h
    split at hnext <;> cases hnext
    cases hgate
  · cases h
    cases hnext
  · cases h
    cases hnext
    cases hgate
  · split at h <;> cases h <;> cases hnext
    cases hgate
  · split at h
    · cases h
      cases hnext
      cases hgate
    · split at h <;> cases h
      cases hnext
      cases hgate
  · cases h
    cases hnext
    split at hgate <;> cases hgate
  · cases h
    cases hnext
    split at hgate <;> cases hgate
  · split at h
    · cases h
      split at hnext <;> cases hnext
      cases hgate
    · cases h
  · cases h
    split at hnext <;> cases hnext
    split at hgate <;> cases hgate
  · cases h
    cases hnext
    exact .inr (MeasureCfg.inMeasure_iff.mp hgate)
  · cases h
    cases hnext
    cases hgate
  · cases h
    cases hnext
  · cases h
    cases hnext
    cases hgate
  · obtain ⟨s, -, rfl⟩ := Option.map_eq_some_iff.mp h
    cases hnext
    rw [ReadPc.setStream_gate] at hgate
    exact .inl hgate
  · obtain ⟨s, -, rfl⟩ := Option.map_eq_some_iff.mp h
    cases hnext
    rw [ReadPc.setStream_gate] at hgate
    exact .inl hgate
  · cases h

theorem LayoutPc.step_gate {pc pc' : LayoutPc} {res : TimedStep LayoutPc}
    (h : pc.step cfg now stop act = some res) (hnext : res.next? = some pc')
    (hgate : (TimedTask.layout pc').gate = true) :
    (TimedTask.layout pc).gate = true ∨ cfg.measureStart ≤ now := by
  unfold LayoutPc.step at h
  split at h
  · cases h
    split at hnext
    · cases hnext
    · split at hnext <;> cases hnext
      cases hgate
  · cases h
    cases hnext
    exact .inr (MeasureCfg.inMeasure_iff.mp hgate)
  · cases h
    cases hnext
  · cases h
    cases hnext
    cases hgate
  · cases h
    cases hnext
  · cases h
    cases hnext
    cases hgate
  · cases h

theorem StatPc.step_gate {pc pc' : StatPc} {res : TimedStep StatPc}
    (h : pc.step cfg now stop act = some res) (hnext : res.next? = some pc')
    (hgate : (TimedTask.manifestStat pc').gate = true) :
    (TimedTask.manifestStat pc).gate = true ∨ cfg.measureStart ≤ now := by
  unfold StatPc.step at h
  split at h
  · cases h
    split at hnext <;> cases hnext
    cases hgate
  · cases h
    cases hnext
  · cases h
    cases hnext
    cases hgate
  · split at h <;> cases h <;> cases hnext
    exact .inr (MeasureCfg.inMeasure_iff.mp hgate)
  · cases h
    cases hnext
    cases hgate
  · cases h
    cases hnext
  · cases h
    cases hnext
    cases hgate
  · cases h

theorem TimedStep.next?_map {σ τ : Type} {f : σ → τ} {res : TimedStep σ} {st' : τ}
    (h : (res.map f).next? = some st') : ∃ st, res.next? = some st ∧ f st = st' := by
  cases res with
  | more st rec => exact ⟨st, rfl, Option.some.inj h⟩
  | leave => cases h
  | fail rec => cases h

theorem TimedTask.step_gate {st st' : TimedTask} {res : TimedStep TimedTask}
    (h : st.step cfg now stop act = some res) (hnext : res.next? = some st')
    (hgate : st'.gate = true) : st.gate = true ∨ cfg.measureStart ≤ now := by
  unfold TimedTask.step at h
  split at h
  · next w =>
    cases h
    cases hnext
    cases w <;> cases hgate
  · cases h
  · cases h
  · obtain ⟨res, hres, rfl⟩ := Option.map_eq_some_iff.mp h
    obtain ⟨pc', hpc', rfl⟩ := TimedStep.next?_map hnext
    exact WritePc.step_gate hres hpc' hgate
  · obtain ⟨res, hres, rfl⟩ := Option.map_eq_some_iff.mp h
    obtain ⟨pc', hpc', rfl⟩ := TimedStep.next?_map hnext
    exact ReadPc.step_gate hres hpc' hgate
  · obtain ⟨res, hres, rfl⟩ := Option.map_eq_some_iff.mp h
    obtain ⟨pc', hpc', rfl⟩ := TimedStep.next?_map hnext
    exact LayoutPc.step_gate hres hpc' hgate
  · obtain ⟨res, hres, rfl⟩ := Option.map_eq_some_iff.mp h
    obtain ⟨pc', hpc', rfl⟩ := TimedStep.next?_map hnext
    exact StatPc.step_gate hres hpc' hgate

end CvdBench.Worker
