import CvdBench.Foundation.Calls
import CvdBench.Master.System
import CvdBench.Spec.Parse

/-!
The sessions of the command line that follow a job to its end (`cvd-cli create`, `cvd-cli
watch`): the calls they make of the master, the stream that they follow, and the prompt.
-/

set_option autoImplicit false

namespace CvdBench.Cli

open Foundation Proto Master

inductive CtrlCAction where
  | detach | cancel | defaultCancel
  deriving DecidableEq, Repr

/-- `terminal` says whether there is one, and `line` what is read from it, if that succeeds. -/
def promptAction (terminal : Bool) (line : Option String) : CtrlCAction :=
  if !terminal then .defaultCancel
  else match line with
    | none => .defaultCancel
    | some buf =>
        let trimmed := String.ofList ((Spec.trim buf.toList).map Char.toLower)
        if trimmed = "d" ∨ trimmed = "detach" then .detach else .cancel

def isTerminalStatus : JobStatus → Bool
  | .completed | .failed | .cancelled => true
  | _ => false

def queryIsTerminal (query : QueryJobResponse) : Bool :=
  query.job.any fun job => isTerminalStatus job.status

def maxPolls : Nat := 10

def streamEndedText (streamError : Option String) (jobId : JobId) : String :=
  let suffix := match streamError with
    | some e => s!"; last stream error: {e}"
    | none => ""
  s!"WatchJob stream ended before job reached terminal state{suffix}" ++
    s!"; rerun `cvd-cli watch {jobId}` to continue"

inductive Command where
  | create (spec : BenchSpec)
  | watch (jobId : JobId)

inductive Request where
  | createJob (spec : BenchSpec)
  | watchJob (jobId : JobId)
  | queryJob (jobId : JobId)
  | deleteJob (jobId : JobId)

inductive SessionError where
  | start
  | createJob | watchJob | queryJob
  | report
  | streamEnded (text : String)
  deriving DecidableEq, Repr

inductive SessionEnd where
  | detached
  | interrupted
  | reported (query : QueryJobResponse)
  | failed (e : SessionError)

inductive SessionPc where
  | start
  /-- in `create_job` -/
  | creating
  /-- in the first `query_job` of `watch` -/
  | firstQuery
  /-- in `watch_job` -/
  | opening
  | streaming
  | prompting
  /-- in `delete_job` -/
  | cancelling
  /-- in `query_job`, after so many polls -/
  | querying (polls : Nat)
  | sleeping (polls : Nat)
  /-- with the terminal record, which is shown and written -/
  | reporting (query : QueryJobResponse)
  | ended (e : SessionEnd)

structure Session where
  pc : SessionPc
  jobId : JobId
  streamError : Option String

inductive SessionAct where
  | run
  | refuse
  | heard
  | ctrlC
  | choose (terminal : Bool) (line : Option String)
  | streamEnds (err : Option String)
  | wake
  | write (ok : Bool)

namespace Session

def new : Command → Session
  | .create _ => ⟨.start, "", none⟩
  | .watch jobId => ⟨.start, jobId, none⟩

def goes (s : Session) (pc : SessionPc) : Session := { s with pc }

def fail (s : Session) (e : SessionError) : Session × Option Request :=
  (s.goes (.ended (.failed e)), none)

def openStream (s : Session) : Session × Option Request :=
  (s.goes .opening, some (.watchJob s.jobId))

def ask (s : Session) (polls : Nat) : Session × Option Request :=
  (s.goes (.querying polls), some (.queryJob s.jobId))

def queried (s : Session) (polls : Nat) (query : QueryJobResponse) : Session × Option Request :=
  if queryIsTerminal query then (s.goes (.reporting query), none)
  else if polls < maxPolls then (s.goes (.sleeping polls), none)
  else s.fail (.streamEnded (streamEndedText s.streamError s.jobId))

def heard (s : Session) : Heard Reply → Option (Session × Option Request)
  | .nothing => none
  | .failed => match s.pc with
      | .creating => some (s.fail .createJob)
      | .firstQuery => some s.openStream
      | .opening => some (s.fail .watchJob)
      | .cancelling => some (s.goes .streaming, none)
      | .querying _ => some (s.fail .queryJob)
      | _ => none
  | .answer res => match s.pc, res with
      | .creating, .createJob (.ok res) => some { s with jobId := res.jobId }.openStream
      | .creating, .createJob (.error _) => some (s.fail .createJob)
      | .firstQuery, .queryJob _ (.ok query) =>
          if queryIsTerminal query then some (s.goes (.reporting query), none)
          else some s.openStream
      | .firstQuery, .queryJob _ (.error _) => some s.openStream
      | .opening, .watchJob _ (.ok _) => some (s.goes .streaming, none)
      | .opening, .watchJob _ (.error _) => some (s.fail .watchJob)
      | .cancelling, .deleteJob _ _ => some (s.goes .streaming, none)
      | .querying polls, .queryJob _ (.ok query) => some (s.queried polls query)
      | .querying _, .queryJob _ (.error _) => some (s.fail .queryJob)
      | _, _ => none

def step (cmd : Command) (s : Session) :
    SessionAct × Heard Reply → Option (Session × Option Request)
  | (.heard, res) => s.heard res
  | (.run, .nothing) => match s.pc, cmd with
      | .start, .create spec => some (s.goes .creating, some (.createJob spec))
      | .start, .watch _ => some (s.goes .firstQuery, some (.queryJob s.jobId))
      | .reporting query, .watch _ => some (s.goes (.ended (.reported query)), none)
      | _, _ => none
  | (.refuse, .nothing) => match s.pc with
      | .start => some (s.fail .start)
      | _ => none
  | (.ctrlC, .nothing) => match s.pc with
      | .streaming => some (s.goes .prompting, none)
      | .prompting => some (s.goes (.ended .interrupted), none)
      | _ => none
  | (.choose terminal line, .nothing) => match s.pc, promptAction terminal line with
      | .prompting, .detach => some (s.goes (.ended .detached), none)
      | .prompting, _ => some (s.goes .cancelling, some (.deleteJob s.jobId))
      | _, _ => none
  | (.streamEnds err, .nothing) => match s.pc with
      | .streaming => some ({ s with streamError := err }.ask 0)
      | _ => none
  | (.wake, .nothing) => match s.pc with
      | .sleeping polls => some (s.ask (polls + 1))
      | _ => none
  | (.write ok, .nothing) => match s.pc, cmd with
      | .reporting query, .create _ =>
          some (if ok then (s.goes (.ended (.reported query)), none) else s.fail .report)
      | _, _ => none
  | _ => none

end Session

/-- `create::run` and `watch::run` -/
def session (cmd : Command) : Machine Session (SessionAct × Heard Reply) (Option Request) :=
  ⟨.new cmd, Session.step cmd⟩

abbrev SessionHistory := History Session SessionAct Request Reply

namespace Session

inductive Move (cmd : Command) (s : Session) :
    SessionAct × Heard Reply → Session → Option Request → Prop where
  | creates (spec : BenchSpec) : cmd = .create spec → s.pc = .start →
      Move cmd s (.run, .nothing) (s.goes .creating) (some (.createJob spec))
  | looks (jobId : JobId) : cmd = .watch jobId → s.pc = .start →
      Move cmd s (.run, .nothing) (s.goes .firstQuery) (some (.queryJob s.jobId))
  | fails (act : SessionAct) (heard : Heard Reply) (e : SessionError) :
      (∀ text, e ≠ .streamEnded text) → (∀ jobId res, heard ≠ .answer (.deleteJob jobId res)) →
      Move cmd s (act, heard) (s.goes (.ended (.failed e))) none
  | created (res : CreateJobResponse) : s.pc = .creating →
      Move cmd s (.heard, .answer (.createJob (.ok res)))
        { s with
          pc := .opening
          jobId := res.jobId } (some (.watchJob res.jobId))
  | opens (heard : Heard Reply) : s.pc = .firstQuery →
      (∀ jobId res, heard ≠ .answer (.deleteJob jobId res)) →
      Move cmd s (.heard, heard) (s.goes .opening) (some (.watchJob s.jobId))
  | streams (jobId : JobId) (event : JobEvent) : s.pc = .opening →
      Move cmd s (.heard, .answer (.watchJob jobId (.ok event))) (s.goes .streaming) none
  | prompts : s.pc = .streaming → Move cmd s (.ctrlC, .nothing) (s.goes .prompting) none
  | interrupted : s.pc = .prompting →
      Move cmd s (.ctrlC, .nothing) (s.goes (.ended .interrupted)) none
  | detached (terminal : Bool) (line : Option String) : s.pc = .prompting →
      promptAction terminal line = .detach →
      Move cmd s (.choose terminal line, .nothing) (s.goes (.ended .detached)) none
  | cancels (terminal : Bool) (line : Option String) : s.pc = .prompting →
      promptAction terminal line ≠ .detach →
      Move cmd s (.choose terminal line, .nothing) (s.goes .cancelling)
        (some (.deleteJob s.jobId))
  | cancelled (heard : Heard Reply) : s.pc = .cancelling →
      heard = .failed ∨ (∃ jobId res, heard = .answer (.deleteJob jobId res)) →
      Move cmd s (.heard, heard) (s.goes .streaming) none
  | streamEnds (err : Option String) : s.pc = .streaming →
      Move cmd s (.streamEnds err, .nothing)
        { s with
          pc := .querying 0
          streamError := err } (some (.queryJob s.jobId))
  | settled (jobId : JobId) (query : QueryJobResponse) :
      s.pc = .firstQuery ∨ (∃ polls, s.pc = .querying polls) → queryIsTerminal query = true →
      Move cmd s (.heard, .answer (.queryJob jobId (.ok query))) (s.goes (.reporting query)) none
  | waits (polls : Nat) (jobId : JobId) (query : QueryJobResponse) : s.pc = .querying polls →
      queryIsTerminal query = false → polls < maxPolls →
      Move cmd s (.heard, .answer (.queryJob jobId (.ok query))) (s.goes (.sleeping polls)) none
  | gaveUp (jobId : JobId) (query : QueryJobResponse) (text : String) :
      (∃ polls, s.pc = .querying polls) → queryIsTerminal query = false →
      Move cmd s (.heard, .answer (.queryJob jobId (.ok query)))
        (s.goes (.ended (.failed (.streamEnded text)))) none
  | polls (polls : Nat) : s.pc = .sleeping polls →
      Move cmd s (.wake, .nothing) (s.goes (.querying (polls + 1))) (some (.queryJob s.jobId))
  | reported (act : SessionAct) (query : QueryJobResponse) : s.pc = .reporting query →
      Move cmd s (act, .nothing) (s.goes (.ended (.reported query))) none

variable {cmd : Command} {s s' : Session} {out : Option Request}

theorem heard_move {heard : Heard Reply} (h : s.heard heard = some (s', out)) :
    Move cmd s (.heard, heard) s' out := by
  unfold Session.heard at h
  split at h
  · cases h
  · split at h
    · cases h
      exact .fails _ _ _ nofun nofun
    · next hpc =>
      cases h
      exact .opens _ hpc nofun
    · cases h
      exact .fails _ _ _ nofun nofun
    · next hpc =>
      cases h
      exact .cancelled _ hpc (.inl rfl)
    · cases h
      exact .fails _ _ _ nofun nofun
    · cases h
  · split at h
    · next res hpc =>
      cases h
      exact .created _ hpc
    · cases h
      exact .fails _ _ _ nofun nofun
    · next query hpc =>
      split at h
      · next hterm =>
        cases h
        exact .settled _ query (.inl hpc) hterm
      · cases h
        exact .opens _ hpc nofun
    · next hpc =>
      cases h
      exact .opens _ hpc nofun
    · next hpc =>
      cases h
      exact .streams _ _ hpc
    · cases h
      exact .fails _ _ _ nofun nofun
    · next hpc =>
      cases h
      exact .cancelled _ hpc (.inr ⟨_, _, rfl⟩)
    · next polls jobId query hpc =>
      unfold queried at h
      split at h
      · next hterm =>
        cases h
        exact .settled jobId query (.inr ⟨polls, hpc⟩) hterm
      · next hterm =>
        split at h
        · next hmore =>
          cases h
          exact .waits polls jobId query hpc (by simpa using hterm) hmore
        · cases h
          exact .gaveUp jobId query _ ⟨polls, hpc⟩ (by simpa using hterm)
    · cases h
      exact .fails _ _ _ nofun nofun
    · cases h

theorem step_move {act : SessionAct × Heard Reply} (h : s.step cmd act = some (s', out)) :
    Move cmd s act s' out := by
  unfold step at h
  split at h
  · exact heard_move h
  · split at h
    · next hpc =>
      cases h
      exact .creates _ rfl hpc
    · next hpc =>
      cases h
      exact .looks _ rfl hpc
    · next hpc =>
      cases h
      exact .reported _ _ hpc
    · cases h
  · split at h
    · cases h
      exact .fails _ _ _ nofun nofun
    · cases h
  · split at h
    · next hpc =>
      cases h
      exact .prompts hpc
    · next hpc =>
      cases h
      exact .interrupted hpc
    · cases h
  · split at h
    · next hpc haction =>
      cases h
      exact .detached _ _ hpc haction
    · next hpc hne =>
      cases h
      exact .cancels _ _ hpc hne
    · cases h
  · split at h
    · next hpc =>
      cases h
      exact .streamEnds _ hpc
    · cases h
  · split at h
    · next polls hpc =>
      cases h
      exact .polls polls hpc
    · cases h
  · split at h
    · next hpc =>
      split at h
      · cases h
        exact .reported _ _ hpc
      · cases h
        exact .fails _ _ _ nofun nofun
    · cases h
  · cases h

end Session

/-- What the master reads besides a request: the clocks and orders, and the id of a new job. -/
structure Delivery where
  amb : Ambient
  newId : JobId

def Request.action (newId : JobId) : Request → Action
  | .createJob spec => .createJob (some spec) newId
  | .watchJob jobId => .watchJob jobId
  | .queryJob jobId => .queryJob jobId
  | .deleteJob jobId => .deleteJob jobId

/-- What the master does without a session: the calls of the workers, ListJobs, its watchers,
and the later sections of a call. -/
def isOwn (c : Choice) : Bool :=
  match c.act with
  | .createJob .. | .watchJob _ | .queryJob _ | .deleteJob _ => false
  | _ => true

def answersLater : Request → Delivery → Reply → Bool
  | .createJob _, d, .createJob (.ok res) => res.jobId == d.newId
  | .deleteJob jobId, _, .deleteJob jobId' _ => jobId == jobId'
  | _, _, _ => false

def sessions {H ι : Type} (env : MasterEnv H) (commands : ι → Command) :
    Service ι Sys Choice (Option Reply) Session SessionAct Request Reply Delivery where
  server := machine env
  call req d := ⟨req.action d.newId, d.amb⟩
  own := isOwn
  answer := id
  answers := answersLater
  client i := session (commands i)

end CvdBench.Cli
