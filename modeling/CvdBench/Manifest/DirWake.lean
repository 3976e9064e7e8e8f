import CvdBench.Manifest.DirRows

/-!
Who sleeps in `DirWorkQueue::pop` and who will wake him. The three facts that carry the
argument: a closed queue and a finished scan leave no sleeper behind, and a directory in
an open queue has somebody who attends to it.
-/

set_option autoImplicit false

namespace CvdBench.Manifest

open Foundation Foundation.Text Proto Master

variable {env : ScanEnv} {cancel : Bool}

namespace Scanner

/-- Between taking a directory and `finish_dir`. -/
def busy : Scanner → Nat
  | .scan _ | .entries .. | .pushFile .. | .pushFileHeld .. | .countFile .. | .pushDir ..
  | .pushDirNotify .. | .finishDir _ => 1
  | _ => 0

/-- Sleeps, or is about to, with no wake-up on its way. -/
def waiting : Scanner → Bool
  | .await false | .parked => true
  | _ => false

def isFinished : Scanner → Bool
  | .finished _ => true
  | _ => false

def alert (s : Scanner) : Bool := !s.waiting && !s.isFinished

def leaves (cancel : Bool) : Scanner → Option (Except DirScanError Unit)
  | .top | .popTop => if cancel then some (.ok ()) else none
  | .finishDir (.error e) | .finishWake (.error e) => some (.error e)
  | _ => none

inductive Woken : Scanner → Scanner → Prop where
  | same (s : Scanner) : Woken s s
  | parked : Woken .parked .popTop
  | await (b : Bool) : Woken (.await b) (.await true)

theorem Woken.busy_eq {s s' : Scanner} (h : Woken s s') : s'.busy = s.busy := by
  cases h <;> rfl

theorem Woken.waiting_of {s s' : Scanner} (h : Woken s s') (hs' : s'.waiting = true) :
    s' = s := by
  cases h with
  | same s => rfl
  | parked => cases hs'
  | await b => cases hs'

theorem Woken.alert_of {s s' : Scanner} (h : Woken s s') (hs : s.alert = true) :
    s'.alert = true := by
  cases h with
  | same s => exact hs
  | parked => cases hs
  | await b => rfl

theorem Woken.eq_of_finished {s s' : Scanner} (h : Woken s s') {res : Except DirScanError Unit} :
    s' = .finished res ↔ s = .finished res := by
  cases h <;> simp

theorem Woken.finishWake {s s' : Scanner} (h : Woken s s') {res : Except DirScanError Unit}
    (hs : s = .finishWake res) : s' = .finishWake res := by
  subst hs
  cases h
  rfl

end Scanner

namespace DirPass

def Awake (p : DirPass) : Prop := ∀ s ∈ p.scanners, s.waiting = false

structure Signalled (p p' : DirPass) : Prop where
  main : p'.main = p.main
  reader : p'.reader = p.reader
  dirs : p'.queue.dirs = p.queue.dirs
  readerDone : p'.queue.readerDone = p.queue.readerDone
  pendingDirs : p'.queue.pendingDirs = p.queue.pendingDirs
  closed : p'.queue.closed = p.queue.closed
  permit : p.queue.permit = true → p'.queue.permit = true
  scanners : ∀ i : Nat, Option.Rel Scanner.Woken p.scanners[i]? p'.scanners[i]?
  total : Pool.total Scanner.busy p'.scanners = Pool.total Scanner.busy p.scanners
  length : p'.scanners.length = p.scanners.length

theorem Signalled.refl (p : DirPass) : p.Signalled p where
  main := rfl
  reader := rfl
  dirs := rfl
  readerDone := rfl
  pendingDirs := rfl
  closed := rfl
  permit := fun h => h
  scanners := fun i => by
    cases p.scanners[i]? with
    | none => exact .none
    | some s => exact .some (.same s)
  total := rfl
  length := rfl

theorem wakeUp_woken (s : Scanner) : s.Woken (wakeUp s) := by
  cases s with
  | parked => exact .parked
  | await b => exact .await b
  | _ => exact .same _

theorem notifyWaiters_signalled (p : DirPass) : p.Signalled p.notifyWaiters where
  main := rfl
  reader := rfl
  dirs := rfl
  readerDone := rfl
  pendingDirs := rfl
  closed := rfl
  permit := fun h => h
  scanners := fun i => by
    simp only [notifyWaiters, List.getElem?_map]
    cases p.scanners[i]? with
    | none => exact .none
    | some s => exact .some (wakeUp_woken s)
  total := by
    simp only [notifyWaiters]
    induction p.scanners with
    | nil => rfl
    | cons s l ih => simp [(wakeUp_woken s).busy_eq, ih]
  length := by simp [notifyWaiters]

theorem notifyWaiters_awake (p : DirPass) : p.notifyWaiters.Awake := by
  intro s hs
  obtain ⟨t, _, rfl⟩ := List.mem_map.mp hs
  cases t <;> rfl

theorem notifyOne_signalled {p p' : DirPass} {pick : Nat} (h : p.notifyOne pick = some p') :
    p.Signalled p' := by
  unfold notifyOne at h
  split at h
  · split at h
    · next hpick =>
      cases h
      refine { Signalled.refl p with scanners := ?_, total := ?_, length := ?_ }
      · intro i
        simp only
        rw [Pool.getElem?_set _ hpick]
        by_cases hi : i = pick
        · subst hi
          rw [if_pos rfl, hpick]
          exact .some .parked
        · rw [if_neg hi]
          exact (Signalled.refl p).scanners i
      · exact Pool.total_set_eq _ hpick rfl
      · simp
    · cases h
  · cases h
    exact { Signalled.refl p with permit := fun _ => rfl }

theorem notifyOne_effect {p p' : DirPass} {pick : Nat} (h : p.notifyOne pick = some p') :
    (∃ s ∈ p'.scanners, s.alert = true) ∨
      p'.queue.permit = true ∧ ∀ s ∈ p'.scanners, s ≠ .parked := by
  unfold notifyOne at h
  split at h
  · split at h
    · next hpick =>
      cases h
      exact .inl ⟨.popTop, List.mem_of_getElem? (Pool.getElem?_set_self .popTop hpick), rfl⟩
    · cases h
  · next hparked =>
    cases h
    refine .inr ⟨rfl, fun s hs heq => hparked ?_⟩
    subst heq
    exact List.any_eq_true.mpr ⟨_, hs, rfl⟩

theorem signal_signalled {p p' : DirPass} {pick : Nat} {sig : Signal}
    (h : p.signal pick sig = some p') : p.Signalled p' := by
  cases sig with
  | silent =>
    cases h
    exact .refl p
  | one => exact notifyOne_signalled h
  | all =>
    cases h
    exact notifyWaiters_signalled p

namespace Signalled

variable {p p' : DirPass} (h : p.Signalled p')

include h

theorem get {i : Nat} {s : Scanner} (hs : p.scanners[i]? = some s) :
    ∃ s', p'.scanners[i]? = some s' ∧ s.Woken s' := by
  have hrel := h.scanners i
  rw [hs] at hrel
  cases hp' : p'.scanners[i]? with
  | none =>
    rw [hp'] at hrel
    cases hrel
  | some s' =>
    rw [hp'] at hrel
    cases hrel with
    | some hw => exact ⟨s', rfl, hw⟩

theorem get' {i : Nat} {s' : Scanner} (hs : p'.scanners[i]? = some s') :
    ∃ s, p.scanners[i]? = some s ∧ s.Woken s' := by
  have hrel := h.scanners i
  rw [hs] at hrel
  cases hp : p.scanners[i]? with
  | none =>
    rw [hp] at hrel
    cases hrel
  | some s =>
    rw [hp] at hrel
    cases hrel with
    | some hw => exact ⟨s, rfl, hw⟩

theorem mem {s : Scanner} (hs : s ∈ p.scanners) : ∃ s' ∈ p'.scanners, s.Woken s' := by
  obtain ⟨i, hi⟩ := List.mem_iff_getElem?.mp hs
  obtain ⟨s', hs', hw⟩ := h.get hi
  exact ⟨s', List.mem_of_getElem? hs', hw⟩

theorem mem' {s' : Scanner} (hs : s' ∈ p'.scanners) : ∃ s ∈ p.scanners, s.Woken s' := by
  obtain ⟨i, hi⟩ := List.mem_iff_getElem?.mp hs
  obtain ⟨s, hs, hw⟩ := h.get' hi
  exact ⟨s, List.mem_of_getElem? hs, hw⟩

theorem finished_iff {i : Nat} {res : Except DirScanError Unit} :
    p'.scanners[i]? = some (.finished res) ↔ p.scanners[i]? = some (.finished res) := by
  constructor
  · intro hs'
    obtain ⟨s, hs, hw⟩ := h.get' hs'
    rw [hs, hw.eq_of_finished.mp rfl]
  · intro hs
    obtain ⟨s', hs', hw⟩ := h.get hs
    rw [hs', hw.eq_of_finished.mpr rfl]

theorem awake (hp : p.Awake) : p'.Awake := by
  intro s' hs'
  obtain ⟨s, hs, hw⟩ := h.mem' hs'
  cases hwait : s'.waiting with
  | false => rfl
  | true =>
    have heq := hw.waiting_of hwait
    rw [heq, hp s hs] at hwait
    cases hwait

end Signalled

end DirPass

theorem DirPass.Move.length_eq {p p' : DirPass} {act : PassAct} {c : CellStep}
    (h : p.Move env cancel act p' c) : p'.scanners.length = p.scanners.length := by
  cases h with
  | reader _ _ _ hsig => exact (DirPass.signal_signalled hsig).length
  | scanner _ _ hsig => rw [(DirPass.signal_signalled hsig).length, List.length_set]
  | main hmove =>
    cases hmove with
    | closeWake => exact (DirPass.notifyWaiters_signalled _).length
    | _ => rfl

end CvdBench.Manifest
