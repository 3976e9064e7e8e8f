import CvdBench.Foundation.Network
import CvdBench.Properties.DaemonJobs
import CvdBench.Properties.StartBarrier

/-!
The whole system: one master and its workers, over a network that may lose, delay, repeat and
reorder the calls of the workers and what the master answers.
-/

set_option autoImplicit false

namespace CvdBench.Cluster

open Foundation Proto Master Worker

def action : Request → Action
  | .fetchJob workerId => .fetchJob workerId
  | .reportReady req => .reportReady req
  | .fetchFileBatch req => .fetchFileBatch req
  | .reportProgress req => .reportProgress req
  | .reportResult req => .reportResult req

/-- What the master does without a worker: the calls of the CLI, its watchers, and the later
sections of a call. -/
def isOwn (c : Choice) : Bool :=
  match c.act with
  | .fetchJob _ | .reportReady _ | .fetchFileBatch _ | .reportProgress _ | .reportResult _ => false
  | _ => true

/-- What reaches a worker; an error does not tell what it was. -/
def response : Option Reply → Option Response
  | some (.fetchJob workerId (.ok res)) => some (.fetchJob workerId res)
  | some (.reportReady req (.ok res)) => some (.reportReady req res)
  | some (.fetchFileBatch req (.ok res)) => some (.fetchFileBatch req res)
  | some (.reportProgress req (.ok res)) => some (.reportProgress req res)
  | some (.reportResult req (.ok res)) => some (.reportResult req res)
  | _ => none

def cluster {H : Type} (env : MasterEnv H) :
    Protocol WorkerId Sys Choice (Option Reply) Daemon DaemonAct Request Response Ambient where
  server := machine env
  call req amb := ⟨action req, amb⟩
  own := isOwn
  response := response
  client := daemon

abbrev ClusterTrace :=
  NetTrace WorkerId Sys Choice (Option Reply) Daemon DaemonAct Request Response Ambient

abbrev ClusterState := Net WorkerId Sys Daemon Request Response

theorem response_ready {rep : Option Reply} {req : ReportReadyRequest} {res : ReportReadyResponse}
    (h : response rep = some (.reportReady req res)) : rep = some (.reportReady req (.ok res)) := by
  unfold response at h
  split at h <;> cases h
  rfl

theorem response_fetchJob {rep : Option Reply} {w : WorkerId} {res : FetchJobResponse}
    (h : response rep = some (.fetchJob w res)) : rep = some (.fetchJob w (.ok res)) := by
  unfold response at h
  split at h <;> cases h
  rfl

section

variable {H : Type} {env : MasterEnv H} {tr : ClusterTrace} {s : ClusterState}

theorem reachable_init : (machine env).Reachable Sys.init := .init

theorem hears_start (h : Projects (cluster env) tr s) {w : WorkerId} {id : JobId}
    {startAtMs : Int} (hears : ∃ e ∈ clientTrace w tr, HearsStart w e id startAtMs) :
    ∃ e ∈ serverTrace tr, ∃ req res, e.out = some (.reportReady req (.ok res)) ∧
      req.jobId = id ∧ req.workerId = w ∧ res.startAtMs = startAtMs := by
  obtain ⟨e, he, req, res, hheard, hid, hw, -, hstart⟩ := hears
  obtain ⟨e', he', hres⟩ := (h.replies _).mp (h.heard w e he _ hheard)
  exact ⟨e', he', req, res, response_ready hres, hid, hw, hstart⟩

theorem assigns_fetched (h : Projects (cluster env) tr s) {w : WorkerId} {id : JobId}
    {a : Assignment} (hassigns : ∃ e ∈ clientTrace w tr, Assigns w e id a) :
    ∃ e ∈ serverTrace tr, ∃ res, e.out = some (.fetchJob w (.ok res)) ∧ res.jobId = some id ∧
      a = assignment w res := by
  obtain ⟨e, he, res, hheard, hid, ha⟩ := hassigns
  obtain ⟨e', he', hres⟩ := (h.replies _).mp (h.heard w e he _ hheard)
  exact ⟨e', he', res, response_fetchJob hres, hid, ha⟩

/-- A request that the master has received goes back to what its sender did before. -/
theorem called_explained (h : Projects (cluster env) tr s) {e : Step}
    (he : e ∈ serverTrace tr) (req : Request) (hact : e.act.act = action req)
    (hown : isOwn e.act = false) :
    ∃ w req', action req' = action req ∧ Explained w (clientTrace w tr) req' := by
  rcases h.called e he with hno | ⟨req', hsent, amb, hcall⟩
  · rw [show (cluster env).own e.act = isOwn e.act from rfl, hown] at hno
    cases hno
  · obtain ⟨w, e', he', hout⟩ := (h.sent req').mp hsent
    refine ⟨w, req', ?_, (daemon_justified (h.client w)).sent e' he' req' hout⟩
    rw [← hact, hcall]
    rfl

theorem ready_explained (h : Projects (cluster env) tr s) {e : Step}
    (he : e ∈ serverTrace tr) {req : ReportReadyRequest} (hact : e.act.act = .reportReady req)
    (herr : req.error = none) : ∃ e' ∈ clientTrace req.workerId tr, Prepares e' req.jobId := by
  have hown : isOwn e.act = false := by rw [isOwn, hact]
  obtain ⟨w, req', hreq', hexpl⟩ :=
    called_explained h he (.reportReady req) (by rw [hact]; rfl) hown
  cases req' with
  | reportReady req'' =>
    cases hreq'
    obtain ⟨hw, hprep⟩ := hexpl
    rw [hw]
    exact hprep herr
  | fetchJob | fetchFileBatch | reportProgress | reportResult => cases hreq'

theorem result_explained (h : Projects (cluster env) tr s) {e : Step}
    (he : e ∈ serverTrace tr) {req : ReportResultRequest} (hact : e.act.act = .reportResult req) :
    ∃ w result, req.result = some result ∧ Account w (clientTrace w tr) req.jobId result := by
  have hown : isOwn e.act = false := by rw [isOwn, hact]
  obtain ⟨w, req', hreq', hexpl⟩ :=
    called_explained h he (.reportResult req) (by rw [hact]; rfl) hown
  cases req' with
  | reportResult req'' =>
    cases hreq'
    obtain ⟨result, hres, haccount⟩ := hexpl
    exact ⟨w, result, hres, haccount⟩
  | fetchJob | reportReady | fetchFileBatch | reportProgress => cases hreq'

end

namespace Small

abbrev Act := NetAct WorkerId Choice DaemonAct Ambient

def amb : Ambient := Master.Small.amb 0

def own (act : Action) : Act := .own ⟨act, amb⟩

def load : Payload :=
  ⟨"", ⟨"", 0, ∅, 0⟩, 70000, HashMap.put ∅ "write" ⟨0, 0, none, 0, 0, 1, 4096, []⟩, []⟩

def calls : PreflightCalls := ⟨.ok (), .ok (), .built, .error ""⟩

def main (w : WorkerId) (act : MainAct) : Act := .client w (.job (.act (.main act)) load) none

def fetch (w : WorkerId) (k n : Nat) : List Act :=
  [.client w .run none, .deliver k amb, .client w .fetched (some n)]

def prepare (w : WorkerId) : List Act := [main w (.preflight calls), main w .run]

/-- Two workers take the small job, and the second to be ready starts it. -/
def started : List Act :=
  [own (.createJob (some (Master.Small.spec 2)) "j"), own (.resume 0)] ++ fetch "a" 0 0 ++
    prepare "a" ++ fetch "b" 2 1 ++ prepare "b" ++ [.deliver 1 amb, .deliver 3 amb,
      .client "b" (.job (.hear .main) load) (some 3)]

def running : List Act :=
  started ++ [main "b" .wake, .client "a" (.job (.hear .main) load) (some 2), main "a" .wake,
    main "a" .run, .deliver 4 amb, .client "a" (.job (.hear .main) load) (some 4), main "a" .wake]

def work (w : WorkerId) : List Act :=
  [.client w (.job (.act (.writeReturns true)) load) none, main w (.returned .ok),
    main w (.cleanup true), main w .run, main w .run, main w .run]

def completed : List Act :=
  running ++ work "a" ++ work "b" ++ [.deliver 5 amb, own (.resume 0), .deliver 6 amb,
    own (.resume 0), own (.resume 0)]

def play (acts : List Act) : ClusterState := (cluster Master.Small.env).net.play
  (cluster Master.Small.env).net.init acts

end Small

end CvdBench.Cluster
