import CvdBench.Master.Replies
import CvdBench.Worker.JobSpec

/-!
A spec that the master accepted is accepted by every worker that fetches it, and read
the same up to the credentials.
-/

set_option autoImplicit false

namespace CvdBench.Master

open Foundation Proto

/-- What the master stores for an accepted spec reads as the accepted spec, with the
three credential fields redacted. -/
theorem storedSpec_readBack {protoSpec : BenchSpec} {business : Spec.BenchSpec}
    (hparse : Spec.BenchSpec.tryFromProto protoSpec = .ok business)
    (hvalid : Spec.validate business {} = .ok ()) :
    Worker.parseAndValidate (some (storedSpec protoSpec)) = .ok business.redact := by
  have hredacted : Spec.BenchSpec.tryFromProto (Spec.redactInPlace protoSpec) =
      .ok business.redact := by
    rw [Spec.tryFromProto_redact, hparse]
    rfl
  have hstored : Spec.BenchSpec.tryFromProto (storedSpec protoSpec) = .ok business.redact := by
    unfold storedSpec
    simp only
    split
    · next hle => rw [Spec.tryFromProto_targetOne hle, hredacted]
    · exact hredacted
  exact Worker.parseAndValidate_ok.mpr ⟨hstored, Spec.validate_redact_of_ok hvalid⟩

section

variable {H : Type} {env : MasterEnv H}

def AcceptedBy (e : Step) (id : JobId) (protoSpec : BenchSpec) (business : Spec.BenchSpec)
    (stored : BenchSpec) : Prop :=
  e.act.act = .createJob (some protoSpec) id ∧
    Spec.BenchSpec.tryFromProto protoSpec = .ok business ∧
    Spec.validate business {} = .ok () ∧ stored = storedSpec protoSpec

def SpecsAccepted (tr : Trace) (s : Sys) : Prop :=
  ∀ id r, s.job id = some r →
    ∃ e ∈ tr, ∃ protoSpec business, AcceptedBy e id protoSpec business r.specRedacted

theorem Move.specsAccepted {s s' : Sys} {c : Choice} {rep : Option Reply} {cur : Option Task}
    {rest spawn : List Task} {tr : Trace} (h : Move env s c s' rep cur rest spawn) (hok : s.Ok)
    (hp : SpecsAccepted tr s) : SpecsAccepted (tr ++ [⟨s, c, rep, s'⟩]) s' := by
  intro id r' hr'
  have hkept : ∀ r, s.job id = some r → r'.specRedacted = r.specRedacted →
      ∃ e ∈ tr ++ [⟨s, c, rep, s'⟩], ∃ protoSpec business,
        AcceptedBy e id protoSpec business r'.specRedacted := by
    intro r hr hspec
    obtain ⟨e, he, protoSpec, business, hacc⟩ := hp id r hr
    exact ⟨e, List.mem_append_left _ he, protoSpec, business, hspec ▸ hacc⟩
  have hjob := h.job hok id
  rw [show s'.master.jobs.get? id = some r' from hr'] at hjob
  generalize hr : s.master.jobs.get? id = o at hjob
  cases hjob with
  | same => exact hkept r' hr rfl
  | stepped hstep => exact hkept _ hr hstep.spec
  | created hact hprep _ =>
    obtain ⟨protoSpec, business, _, _, _, rfl, hparse, hvalid, hnew⟩ := prepareJob_accepted hprep
    refine ⟨_, List.mem_append_right _ List.mem_cons_self, protoSpec, business, hact, hparse,
      hvalid, ?_⟩
    rw [hnew]
    rfl

theorem specsAccepted_run {tr : Trace} {s : Sys}
    (hrun : (machine env).Run (machine env).init tr s) :
    SpecsAccepted tr s := by
  refine hrun.history ?_ ?_
  · intro id r hr
    cases hr
  · intro tr s c s' rep hrun hp hstep
    have hok : s.Ok := Reachable.ok ⟨tr, hrun⟩
    obtain ⟨cur, rest, spawn, hmove⟩ := step_move hok hstep
    exact hmove.specsAccepted hok hp

/-- In every run, whatever FetchJob hands out for a job passes the worker's own parsing and
validation, and gives the spec that CreateJob validated with the credentials redacted. -/
theorem accepted_spec_accepted_by_worker {tr : Trace} {s : Sys}
    (hrun : (machine env).Run (machine env).init tr s) {e : Step} (he : e ∈ tr) {w : WorkerId}
    {resp : FetchJobResponse} (hout : e.out = some (.fetchJob w (.ok resp))) {id : JobId}
    (hid : resp.jobId = some id) :
    ∃ call ∈ tr, ∃ protoSpec business,
      call.act.act = .createJob (some protoSpec) id ∧
        Spec.BenchSpec.tryFromProto protoSpec = .ok business ∧
        Spec.validate business {} = .ok () ∧
        Worker.parseAndValidate resp.spec = .ok business.redact := by
  obtain ⟨tr₁, tr₂, rfl⟩ := List.append_of_mem he
  obtain ⟨hpre, hstep, -⟩ := hrun.split rfl
  have hok : e.pre.Ok := Reachable.ok ⟨tr₁, hpre⟩
  obtain ⟨r, hr, hspec⟩ := fetchJob_spec hok (hout ▸ hstep) hid
  obtain ⟨call, hcall, protoSpec, business, hact, hparse, hvalid, hstored⟩ :=
    specsAccepted_run (hpre.snoc hstep) id r hr
  have hmem : call ∈ tr₁ ++ e :: tr₂ := by
    rcases List.mem_append.mp hcall with hold | hlast
    · exact List.mem_append_left _ hold
    · rw [List.mem_singleton.mp hlast]
      exact List.mem_append_right _ List.mem_cons_self
  refine ⟨call, hmem, protoSpec, business, hact, hparse, hvalid, ?_⟩
  rw [hspec, hstored]
  exact storedSpec_readBack hparse hvalid

end

namespace Small

def checkedSpec : BenchSpec :=
  { spec 0 with
    read := some
      { concurrency := 1, fileManifest := "/data/files.csv", dirManifest := "", thinkTime := ""
        rateLimit := "", loopFiles := false
        s3ConsistencyCheck := some
          { bucketName := "data", bucketUrl := "http://s3", region := "r1", keyPrefix := ""
            accessKey := "A", secretKey := "key", sessionToken := "" } }
    write := none }

def checkedJob : List Action := [.createJob (some checkedSpec) "j", .resume 0]

def fetched : Step :=
  ⟨play checkedJob, ⟨.fetchJob "a", amb 0⟩, some (.fetchJob "a" (.ok
    { jobId := some "j", spec := some (storedSpec checkedSpec), mountPoint := some "/mnt/fs"
      workerIndex := some 0, s3Credentials := some ⟨"A", "key", ""⟩, masterNowMs := 1000 })),
    play (checkedJob ++ [.fetchJob "a"])⟩

theorem fetched_mem : fetched ∈
    (machine env).trace Sys.init (at0 (checkedJob ++ [.fetchJob "a"])) := by
  have hstep : (machine env).step fetched.pre fetched.act = some (fetched.post, fetched.out) := rfl
  exact (machine env).mem_trace Sys.init (at0 checkedJob) [] hstep

end Small

theorem accepted_spec_small :
    ∃ call ∈ (machine Small.env).trace Sys.init (Small.at0 (Small.checkedJob ++ [.fetchJob "a"])),
      ∃ protoSpec business, call.act.act = .createJob (some protoSpec) "j" ∧
        Spec.BenchSpec.tryFromProto protoSpec = .ok business ∧
        Spec.validate business {} = .ok () ∧
        Worker.parseAndValidate (some (storedSpec Small.checkedSpec)) = .ok business.redact :=
  accepted_spec_accepted_by_worker ((machine Small.env).run_play Sys.init _) Small.fetched_mem
    rfl rfl

end CvdBench.Master
