import CvdBench.Master.Record

/-!
The configuration of the master (`config.rs`), made of what the TOML file says.
-/

set_option autoImplicit false

namespace CvdBench.Master

open Foundation

structure RawScheduler where
  workerStalenessSecs : Option Nat
  jobRetentionSecs : Option Nat
  prepareTimeoutSecs : Option Nat
  startDelayMs : Option Nat
  fileQueueCapacity : Option Nat
  dirQueueCapacity : Option Nat
  dirScanConcurrency : Option Nat

structure RawFilesystem where
  name : String
  mountPoint : String

structure RawConfig where
  serverListen : String
  metricsListen : Option String
  scheduler : RawScheduler
  filesystems : List RawFilesystem

inductive ConfigError where
  | listen (addr : String)
  | metricsListen (addr : String)
  | duplicateFs (name : String)
  | noFilesystems
  | nonAbsoluteMount (name : String)
  | invalidScheduler (field : String) (value : Nat)
  deriving DecidableEq, Repr

/-- What the parser of addresses and the file system say. -/
structure ConfigCalls where
  isAddr : String → Bool
  canonicalize : String → Option String

def fromSecs (secs : Nat) : Duration := secs * 1000000000

def SchedulerConfig.default : SchedulerConfig where
  workerStaleness := fromSecs 60
  jobRetention := fromSecs 259200
  prepareTimeout := fromSecs 600
  startDelay := Spec.Duration.fromMillis 5000
  fileQueueCapacity := 100000
  dirQueueCapacity := 50000
  dirScanConcurrency := 8

/-- A number that is given replaces the one so far, unless it is zero. -/
def positive (field : String) (given : Option Nat) (current : Nat) : Except ConfigError Nat :=
  match given with
  | none => .ok current
  | some v => if v = 0 then .error (.invalidScheduler field v) else .ok v

def applyScheduler (out : SchedulerConfig) (raw : RawScheduler) :
    Except ConfigError SchedulerConfig := do
  let out := { out with
    workerStaleness := (raw.workerStalenessSecs.map fromSecs).getD out.workerStaleness
    jobRetention := (raw.jobRetentionSecs.map fromSecs).getD out.jobRetention
    prepareTimeout := (raw.prepareTimeoutSecs.map fromSecs).getD out.prepareTimeout
    startDelay := (raw.startDelayMs.map Spec.Duration.fromMillis).getD out.startDelay }
  let fileQueueCapacity ←
    positive "file_queue_capacity" raw.fileQueueCapacity out.fileQueueCapacity
  let dirQueueCapacity ← positive "dir_queue_capacity" raw.dirQueueCapacity out.dirQueueCapacity
  let dirScanConcurrency ←
    positive "dir_scan_concurrency" raw.dirScanConcurrency out.dirScanConcurrency
  return { out with fileQueueCapacity, dirQueueCapacity, dirScanConcurrency }

def isAbsolute (path : String) : Bool := path.toList.head? == some '/'

def ConfigCalls.mount (calls : ConfigCalls) (fs : RawFilesystem) : String :=
  (calls.canonicalize fs.mountPoint).getD fs.mountPoint

def addFilesystems (calls : ConfigCalls) (m : HashMap String String) :
    List RawFilesystem → Except ConfigError (HashMap String String)
  | [] => .ok m
  | fs :: rest =>
      if !isAbsolute fs.mountPoint then .error (.nonAbsoluteMount fs.name)
      else if m.containsKey fs.name then .error (.duplicateFs fs.name)
      else addFilesystems calls (m.put fs.name (calls.mount fs)) rest

/-- `parse_str`, after the TOML parser. -/
def parseConfig (calls : ConfigCalls) (raw : RawConfig) : Except ConfigError MasterConfig :=
  if !calls.isAddr raw.serverListen then .error (.listen raw.serverListen)
  else match raw.metricsListen.filter fun addr => !calls.isAddr addr with
    | some addr => .error (.metricsListen addr)
    | none => do
        let scheduler ← applyScheduler .default raw.scheduler
        if raw.filesystems.isEmpty then throw .noFilesystems
        let filesystems ← addFilesystems calls ∅ raw.filesystems
        return { scheduler, filesystems }

/-- File systems that can stand together. -/
structure Mountable (fss : List RawFilesystem) : Prop where
  absolute : ∀ fs ∈ fss, isAbsolute fs.mountPoint = true
  distinct : (fss.map (·.name)).Nodup

def Mounted (calls : ConfigCalls) (fss : List RawFilesystem) (m : HashMap String String) : Prop :=
  ∀ name mount, m.get? name = some mount ↔ ∃ fs ∈ fss, fs.name = name ∧ calls.mount fs = mount

/-- The first one that cannot be added to those before it. -/
inductive FaultyMount (fss : List RawFilesystem) : ConfigError → Prop where
  | nonAbsolute (before after : List RawFilesystem) (fs : RawFilesystem) :
      fss = before ++ fs :: after → Mountable before → isAbsolute fs.mountPoint = false →
      FaultyMount fss (.nonAbsoluteMount fs.name)
  | duplicate (before after : List RawFilesystem) (fs : RawFilesystem) :
      fss = before ++ fs :: after → Mountable before → isAbsolute fs.mountPoint = true →
      fs.name ∈ before.map (·.name) → FaultyMount fss (.duplicateFs fs.name)

theorem FaultyMount.not_mountable {fss : List RawFilesystem} {e : ConfigError}
    (h : FaultyMount fss e) : ¬ Mountable fss := by
  intro hall
  cases h with
  | nonAbsolute before after fs heq _ hrel =>
    have habs := hall.absolute fs (by simp [heq])
    rw [hrel] at habs
    cases habs
  | duplicate before after fs heq _ _ hmem =>
    have hdistinct := hall.distinct
    rw [heq, List.map_append, List.map_cons, List.nodup_append] at hdistinct
    exact hdistinct.2.2 _ hmem _ (List.mem_cons_self ..) rfl

section

variable {calls : ConfigCalls}

theorem Mounted.mem_keys {fss : List RawFilesystem} {m : HashMap String String}
    (h : Mounted calls fss m) (name : String) :
    m.containsKey name = true ↔ name ∈ fss.map (·.name) := by
  rw [HashMap.containsKey_iff, HashMap.mem_keys_iff, List.mem_map]
  constructor
  · rintro ⟨mount, hmount⟩
    obtain ⟨fs, hfs, hname, -⟩ := (h name mount).mp hmount
    exact ⟨fs, hfs, hname⟩
  · rintro ⟨fs, hfs, rfl⟩
    exact ⟨calls.mount fs, (h fs.name _).mpr ⟨fs, hfs, rfl, rfl⟩⟩

theorem Mounted.put {fss : List RawFilesystem} {m : HashMap String String} {fs : RawFilesystem}
    (h : Mounted calls fss m) (hnew : fs.name ∉ fss.map (·.name)) :
    Mounted calls (fss ++ [fs]) (m.put fs.name (calls.mount fs)) := by
  intro name mount
  rw [HashMap.get?_put]
  by_cases hname : name = fs.name
  · subst hname
    rw [if_pos rfl, Option.some.injEq]
    constructor
    · rintro rfl
      exact ⟨fs, by simp, rfl, rfl⟩
    · rintro ⟨fs', hfs', heq, rfl⟩
      rcases List.mem_append.mp hfs' with hold | hlast
      · exact absurd (List.mem_map.mpr ⟨fs', hold, heq⟩) hnew
      · rw [List.mem_singleton.mp hlast]
  · rw [if_neg hname, h name mount]
    constructor
    · rintro ⟨fs', hfs', hrest⟩
      exact ⟨fs', List.mem_append_left _ hfs', hrest⟩
    · rintro ⟨fs', hfs', heq, hmount⟩
      rcases List.mem_append.mp hfs' with hold | hlast
      · exact ⟨fs', hold, heq, hmount⟩
      · rw [List.mem_singleton.mp hlast] at heq
        exact absurd heq.symm hname

theorem Mountable.concat {fss : List RawFilesystem} {fs : RawFilesystem} (h : Mountable fss)
    (habs : isAbsolute fs.mountPoint = true) (hnew : fs.name ∉ fss.map (·.name)) :
    Mountable (fss ++ [fs]) := by
  constructor
  · intro fs' hfs'
    rcases List.mem_append.mp hfs' with hold | hlast
    · exact h.absolute fs' hold
    · rw [List.mem_singleton.mp hlast]
      exact habs
  · rw [List.map_append, List.map_singleton, ← List.concat_eq_append]
    exact h.distinct.concat hnew

theorem addFilesystems_spec (calls : ConfigCalls) (rest : List RawFilesystem) :
    ∀ (done : List RawFilesystem) (m : HashMap String String), Mountable done →
      Mounted calls done m →
      (∀ m', addFilesystems calls m rest = .ok m' →
        Mountable (done ++ rest) ∧ Mounted calls (done ++ rest) m') ∧
      ∀ e, addFilesystems calls m rest = .error e → FaultyMount (done ++ rest) e := by
  induction rest with
  | nil =>
    intro done m hdone hm
    refine ⟨fun m' h => ?_, nofun⟩
    cases h
    rw [List.append_nil]
    exact ⟨hdone, hm⟩
  | cons fs rest ih =>
    intro done m hdone hm
    unfold addFilesystems
    by_cases habs : isAbsolute fs.mountPoint = true
    · by_cases hmem : m.containsKey fs.name = true
      · simp only [habs, hmem, Bool.not_true, Bool.false_eq_true, if_false, if_true]
        refine ⟨nofun, fun e h => ?_⟩
        cases h
        exact .duplicate done rest fs rfl hdone habs ((hm.mem_keys _).mp hmem)
      · have hnew : fs.name ∉ done.map (·.name) := fun h => hmem ((hm.mem_keys _).mpr h)
        simp only [habs, hmem, Bool.not_true, Bool.false_eq_true, if_false]
        have hrest := ih (done ++ [fs]) _ (hdone.concat habs hnew) (hm.put hnew)
        rw [List.append_assoc, List.singleton_append] at hrest
        exact hrest
    · simp only [habs, Bool.not_false, if_true]
      refine ⟨nofun, fun e h => ?_⟩
      cases h
      exact .nonAbsolute done rest fs rfl hdone (by simpa using habs)

end

def RawScheduler.configured (raw : RawScheduler) : SchedulerConfig where
  workerStaleness := (raw.workerStalenessSecs.map fromSecs).getD (fromSecs 60)
  jobRetention := (raw.jobRetentionSecs.map fromSecs).getD (fromSecs 259200)
  prepareTimeout := (raw.prepareTimeoutSecs.map fromSecs).getD (fromSecs 600)
  startDelay := (raw.startDelayMs.map Spec.Duration.fromMillis).getD (Spec.Duration.fromMillis 5000)
  fileQueueCapacity := raw.fileQueueCapacity.getD 100000
  dirQueueCapacity := raw.dirQueueCapacity.getD 50000
  dirScanConcurrency := raw.dirScanConcurrency.getD 8

def RawScheduler.checked (raw : RawScheduler) : List (String × Option Nat) :=
  [("file_queue_capacity", raw.fileQueueCapacity), ("dir_queue_capacity", raw.dirQueueCapacity),
    ("dir_scan_concurrency", raw.dirScanConcurrency)]

theorem positive_cases (field : String) (given : Option Nat) (current : Nat) :
    given = some 0 ∧ positive field given current = .error (.invalidScheduler field 0) ∨
      given ≠ some 0 ∧ positive field given current = .ok (given.getD current) := by
  unfold positive
  cases given with
  | none => exact .inr ⟨nofun, rfl⟩
  | some v =>
    by_cases hv : v = 0
    · subst hv
      exact .inl ⟨rfl, rfl⟩
    · exact .inr ⟨fun h => hv (Option.some.inj h), if_neg hv⟩

theorem applyScheduler_cases (raw : RawScheduler) :
    (∃ before field after, raw.checked = before ++ (field, some 0) :: after ∧
      (∀ p ∈ before, p.2 ≠ some 0) ∧
      applyScheduler .default raw = .error (.invalidScheduler field 0)) ∨
    (∀ p ∈ raw.checked, p.2 ≠ some 0) ∧ applyScheduler .default raw = .ok raw.configured := by
  unfold applyScheduler RawScheduler.checked
  rcases positive_cases "file_queue_capacity" raw.fileQueueCapacity 100000 with
    ⟨hzero, hres⟩ | ⟨hfile, hres⟩
  · refine .inl ⟨[], _, _, by rw [hzero]; rfl, by simp, ?_⟩
    simp only [SchedulerConfig.default, hres]
    rfl
  · rcases positive_cases "dir_queue_capacity" raw.dirQueueCapacity 50000 with
      ⟨hzero, hres'⟩ | ⟨hdir, hres'⟩
    · refine .inl ⟨[_], _, _, by rw [hzero]; rfl, by simpa using hfile, ?_⟩
      simp only [SchedulerConfig.default, hres, hres']
      rfl
    · rcases positive_cases "dir_scan_concurrency" raw.dirScanConcurrency 8 with
        ⟨hzero, hres''⟩ | ⟨hscan, hres''⟩
      · refine .inl ⟨[_, _], _, [], by rw [hzero]; rfl, by simp [hfile, hdir], ?_⟩
        simp only [SchedulerConfig.default, hres, hres', hres'']
        rfl
      · refine .inr ⟨by simp [hfile, hdir, hscan], ?_⟩
        simp only [SchedulerConfig.default, hres, hres', hres'']
        rfl

end CvdBench.Master
