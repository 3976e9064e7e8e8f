import CvdBench.Master.Announce
import CvdBench.Master.Replies
import CvdBench.Master.Queue

/-!
The life of a job over whole runs: the transitions of its status, the coherence of its
record, and the end of all change once it is terminal.
-/

set_option autoImplicit false

namespace CvdBench.Master

open Foundation Proto

variable {H : Type} {env : MasterEnv H}

/-- The wall clock is positive, and the start delay can be added to it. -/
def ClockFits (env : MasterEnv H) (c : Choice) : Prop :=
  ∀ k, 0 < c.amb.nowMs k ∧ c.amb.nowMs k + startDelayMs env.config ≤ i64Max

def Sys.Timed (s : Sys) : Prop := ∀ id r, s.job id = some r →
  r.status = .running ∨ r.status = .completed → 0 < r.startAtMs

theorem startDelayMs_nonneg (config : MasterConfig) : 0 ≤ startDelayMs config := by
  unfold startDelayMs i64TryFrom
  split
  · exact Int.natCast_nonneg _
  · decide

theorem ClockFits.startAt_pos {c : Choice} (h : ClockFits env c) :
    0 < wrapI64 (c.amb.nowMs 0 + startDelayMs env.config) := by
  obtain ⟨hpos, hfits⟩ := h 0
  have hdelay := startDelayMs_nonneg env.config
  have hlow : i64Min ≤ c.amb.nowMs 0 + startDelayMs env.config := by
    unfold i64Min
    omega
  rw [wrapI64_of_fits hlow hfits]
  omega

section

variable {s s' : Sys} {c : Choice} {rep : Option Reply} {cur : Option Task}
  {rest spawn : List Task}

theorem Move.timed (h : Move env s c s' rep cur rest spawn) (hok : s.Ok)
    (hclock : ClockFits env c) (ht : s.Timed) : s'.Timed := by
  intro id r' hr' hs'
  cases h.origin hok hr' with
  | created _ _ _ _ _ hnew => simp [hnew, JobRecord.new] at hs'
  | old r hr hold =>
    rcases hold with rfl | hstep
    · exact ht id r' hr hs'
    by_cases hs : r.status = .running ∨ r.status = .completed
    · have hbegun : r.begun := by
        rcases hs with hs | hs <;> simp [JobRecord.begun, hs]
      rw [hstep.le.start hbegun]
      exact ht id r hr hs
    · -- only the barrier leads into RUNNING, and only RUNNING into COMPLETED
      have hchange : r'.status ≠ r.status := fun heq => hs (heq ▸ hs')
      cases h.change hok hr hr' with
      | kept _ _ _ heq => exact absurd heq hchange
      | readied _ _ _ _ _ _ _ _ hout =>
        rcases hout with ⟨heq, _⟩ | ⟨_, _, hstart⟩
        · exact absurd heq hchange
        · rw [hstart]
          exact hclock.startAt_pos
      | slot _ _ _ _ _ _ hout =>
        rcases hout with ⟨hs'', _⟩ | ⟨hs'', _⟩ <;> simp [hs''] at hs'
      | result _ _ _ _ _ htakes => exact absurd (.inl htakes.running) hs
      | closed _ _ _ hterm =>
        rcases hstep.edge with heq | hedge
        · exact absurd heq hchange
        · generalize r.status = st at hedge hs
          rcases hs' with hs' | hs'
          · simp [hs'] at hterm
          · rw [hs'] at hedge
            cases hedge
            simp at hs

end

/-- On every run, every status change of a job is a transition of the state machine, a
job appears as PENDING and disappears only when terminal, and every record is coherent. -/
theorem job_state_machine {s : Sys} {tr : Trace}
    (h : (machine env).Run Sys.init tr s) (hclock : ∀ e ∈ tr, ClockFits env e.act) :
    (∀ e ∈ tr, ∀ id,
      (∀ r r', e.pre.job id = some r → e.post.job id = some r' →
        r'.status = r.status ∨ Edge r.status r'.status) ∧
      (∀ r', e.pre.job id = none → e.post.job id = some r' → r'.status = .pending) ∧
      (∀ r, e.pre.job id = some r → e.post.job id = none → r.isTerminal = true)) ∧
    ∀ id r, s.job id = some r → r.Coherent ∧
      (r.status = .running ∨ r.status = .completed → 0 < r.startAtMs) := by
  have hinit : (machine env).Reachable Sys.init := .init
  have htimed : s.Timed := by
    refine h.invariantWhere (fun _ c => ClockFits env c) hclock hinit ?_ ?_
    · intro id r hr
      simp [Sys.init, MasterState.new, Sys.job] at hr
    · intro s c s' rep hs ht hc hstep
      obtain ⟨cur, rest, spawn, hmove⟩ := Reachable.move hs hstep
      exact hmove.timed (Reachable.ok hs) hc ht
  refine ⟨fun e he id => ?_, fun id r hr => ⟨?_, htimed id r hr⟩⟩
  · obtain ⟨hstep, hpre⟩ := h.event he
    obtain ⟨cur, rest, spawn, hmove⟩ := Reachable.move (hpre hinit) hstep
    have hok := Reachable.ok (hpre hinit)
    refine ⟨fun r r' hr hr' => ?_, fun r' hr hr' => ?_, fun r hr hr' => ?_⟩
    · rcases hmove.fate hok hr with ⟨hnone, _⟩ | ⟨r₁, hr₁, hstay⟩
      · rw [hr'] at hnone
        cases hnone
      · obtain rfl := Option.some.inj (hr'.symm.trans hr₁)
        rcases hstay with rfl | hs
        · exact .inl rfl
        · exact hs.edge
    · cases hmove.origin hok hr' with
      | created _ _ _ _ _ hnew => rw [hnew]; rfl
      | old r₀ hr₀ =>
        rw [hr] at hr₀
        cases hr₀
    · rcases hmove.fate hok hr with ⟨_, hterm⟩ | ⟨r₁, hr₁, _⟩
      · exact hterm
      · rw [hr'] at hr₁
        cases hr₁
  · exact (Reachable.ok (h.reachable hinit)).coherent id r hr

theorem job_state_machine_small : ∃ r, (Small.play Small.running).job "j" = some r ∧
    r.status = .running ∧ r.Coherent ∧ 0 < r.startAtMs := by
  have hstatus : ((Small.play Small.running).job "j").map (·.status) = some .running := by decide
  obtain ⟨r, hr, hs⟩ := Option.map_eq_some_iff.mp hstatus
  have hclock : ∀ e ∈ (machine Small.env).trace Sys.init (Small.at0 Small.running),
      ClockFits Small.env e.act := by
    intro e he
    obtain ⟨act, _, heq⟩ := List.mem_map.mp ((machine Small.env).act_of_mem_trace he)
    intro k
    have hnow : e.act.amb.nowMs k = 1000 := by rw [← heq]; rfl
    rw [hnow]
    decide
  have hall := job_state_machine ((machine Small.env).run_play Sys.init (Small.at0 Small.running))
    hclock
  obtain ⟨hco, hstart⟩ := hall.2 "j" r hr
  exact ⟨r, hr, hs, hco, hstart (.inl hs)⟩

theorem fetchJob_not_dead {s s' : Sys} {c : Choice} (hok : s.Ok) {id : JobId}
    (hdead : Dead s.issued s.master.jobs id) {w : WorkerId} {resp : FetchJobResponse}
    (h : s.step env c = some (s', some (.fetchJob w (.ok resp)))) : resp.jobId ≠ some id := by
  intro hid
  obtain ⟨_, hhands⟩ := fetchJob_hands hok h hid
  rcases hhands with ⟨r, a, hrep⟩ | ⟨_, skipped, rest, r, _, _, hr, hs⟩
  · obtain ⟨_, hr, hterm, _⟩ := replay_eq_some.mp hrep
    rw [hdead.2 r hr] at hterm
    cases hterm
  · exact hdead.not_pending ⟨r, hr, hs⟩

/-- From a state where the job is terminal on: as long as the record is there its
published part stays, nothing is broadcast about the job, and no worker gets it. -/
theorem terminal_jobs_frozen {s t : Sys} {tr : Trace}
    (hs : (machine env).Reachable s) (h : (machine env).Run s tr t) {id : JobId}
    {r : JobRecord} (hr : s.job id = some r) (hterm : r.isTerminal = true) :
    (∀ e ∈ tr, ∀ r', e.post.job id = some r' → r.Frozen r') ∧
      (∃ calls, t.master.subscribers = s.master.subscribers ++ calls ∧
        ∀ event, RegistryCall.broadcast id event ∉ calls) ∧
      ∀ e ∈ tr, ∀ w resp, e.out = some (.fetchJob w (.ok resp)) → resp.jobId ≠ some id := by
  have hdead := Reachable.dead hs hr hterm
  have hlater : ∀ e ∈ tr, s.Later e.pre ∧ s.Later e.post := by
    intro e he
    obtain ⟨tr₁, tr₂, rfl⟩ := List.append_of_mem he
    obtain ⟨h₁, hstep, _⟩ := h.split rfl
    exact ⟨Run.later h₁ hs, Run.later (h₁.append (.single hstep)) hs⟩
  refine ⟨fun e he r' hr' => ?_, ?_, fun e he w resp hout => ?_⟩
  · obtain ⟨r₀, hr₀, hle⟩ := (hlater e he).2.jobs id hdead.1 r' hr'
    obtain rfl := Option.some.inj (hr.symm.trans hr₀)
    exact hle.frozen hterm
  · have htells : Tells s.master t.master fun j => j ≠ id := by
      induction h with
      | nil => exact .of_eq rfl
      | @snoc u v tr₀ c rep hrun hstep ih =>
        have hpre : ∀ e ∈ tr₀, s.Later e.pre ∧ s.Later e.post :=
          fun e he => hlater e (by simp [he])
        obtain ⟨cur, rest, spawn, hmove⟩ := Reachable.move (hrun.reachable hs) hstep
        exact (ih hpre).trans (hmove.silent ((Run.later hrun hs).dead hdead))
    obtain ⟨calls, hcalls, hall⟩ := htells
    exact ⟨calls, hcalls, fun event hmem => hall id event hmem rfl⟩
  · obtain ⟨hstep, hpre⟩ := h.event he
    rw [hout] at hstep
    exact fetchJob_not_dead (Reachable.ok (hpre hs)) ((hlater e he).1.dead hdead) hstep

theorem terminal_jobs_frozen_small :
    ∃ r, (Small.play (Small.running ++ [.deleteJob "j"])).job "j" = some r ∧
      r.status = .cancelled ∧
      ∀ e ∈ (machine Small.env).trace (Small.play (Small.running ++ [.deleteJob "j"]))
          (Small.at0 [.reportResult ⟨"j", some (Small.result "a" true)⟩, .fetchJob "b"]),
        ∀ r', e.post.job "j" = some r' → r.Frozen r' := by
  have hstatus : ((Small.play (Small.running ++ [.deleteJob "j"])).job "j").map (·.status) =
      some .cancelled := by decide
  obtain ⟨r, hr, hs⟩ := Option.map_eq_some_iff.mp hstatus
  refine ⟨r, hr, hs, ?_⟩
  exact (terminal_jobs_frozen ((machine Small.env).reachable_play _)
    ((machine Small.env).run_play _ _) hr (by simp [hs])).1

end CvdBench.Master
