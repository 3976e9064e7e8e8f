import CvdBench.Master.Config

/-!
The master starts exactly with a configuration in which every check holds; otherwise it names
the first one that does not.
-/

set_option autoImplicit false

namespace CvdBench.Master

open Foundation

structure RawConfig.Accepted (calls : ConfigCalls) (raw : RawConfig) : Prop where
  listen : calls.isAddr raw.serverListen = true
  metricsListen : ∀ addr, raw.metricsListen = some addr → calls.isAddr addr = true
  numbers : ∀ p ∈ raw.scheduler.checked, p.2 ≠ some 0
  nonempty : raw.filesystems ≠ []
  mountable : Mountable raw.filesystems

/-- The checks before the one that the error names have all gone well. -/
inductive RawConfig.Refused (calls : ConfigCalls) (raw : RawConfig) : ConfigError → Prop where
  | listen : calls.isAddr raw.serverListen = false → Refused calls raw (.listen raw.serverListen)
  | metricsListen (addr : String) : calls.isAddr raw.serverListen = true →
      raw.metricsListen = some addr → calls.isAddr addr = false →
      Refused calls raw (.metricsListen addr)
  | scheduler (before after : List (String × Option Nat)) (field : String) :
      calls.isAddr raw.serverListen = true →
      (∀ addr, raw.metricsListen = some addr → calls.isAddr addr = true) →
      raw.scheduler.checked = before ++ (field, some 0) :: after →
      (∀ p ∈ before, p.2 ≠ some 0) → Refused calls raw (.invalidScheduler field 0)
  | noFilesystems : calls.isAddr raw.serverListen = true →
      (∀ addr, raw.metricsListen = some addr → calls.isAddr addr = true) →
      (∀ p ∈ raw.scheduler.checked, p.2 ≠ some 0) → raw.filesystems = [] →
      Refused calls raw .noFilesystems
  | filesystems (e : ConfigError) : calls.isAddr raw.serverListen = true →
      (∀ addr, raw.metricsListen = some addr → calls.isAddr addr = true) →
      (∀ p ∈ raw.scheduler.checked, p.2 ≠ some 0) → FaultyMount raw.filesystems e →
      Refused calls raw e

variable {calls : ConfigCalls} {raw : RawConfig}

theorem RawConfig.Refused.not_accepted {e : ConfigError} (h : raw.Refused calls e) :
    ¬ raw.Accepted calls := by
  intro hall
  cases h with
  | listen hbad =>
    have hgood := hall.listen
    rw [hbad] at hgood
    cases hgood
  | metricsListen addr _ hmetrics hbad =>
    have hgood := hall.metricsListen addr hmetrics
    rw [hbad] at hgood
    cases hgood
  | scheduler before after field _ _ hchecked =>
    exact hall.numbers (field, some 0) (by simp [hchecked]) rfl
  | noFilesystems _ _ _ hnil => exact hall.nonempty hnil
  | filesystems _ _ _ _ hfaulty => exact hfaulty.not_mountable hall.mountable

theorem parseConfig_cases (calls : ConfigCalls) (raw : RawConfig) :
    (raw.Accepted calls ∧ ∃ filesystems,
      parseConfig calls raw = .ok ⟨raw.scheduler.configured, filesystems⟩ ∧
        Mounted calls raw.filesystems filesystems) ∨
    ∃ e, parseConfig calls raw = .error e ∧ raw.Refused calls e := by
  unfold parseConfig
  cases hlisten : calls.isAddr raw.serverListen with
  | false => exact .inr ⟨_, rfl, .listen hlisten⟩
  | true =>
    simp only [Bool.not_true, Bool.false_eq_true, if_false]
    cases hfilter : raw.metricsListen.filter fun addr => !calls.isAddr addr with
    | some addr =>
      obtain ⟨hmetrics, hbad⟩ := Option.filter_eq_some_iff.mp hfilter
      exact .inr ⟨_, rfl, .metricsListen addr hlisten hmetrics (by simpa using hbad)⟩
    | none =>
      have hmetrics : ∀ addr, raw.metricsListen = some addr → calls.isAddr addr = true := by
        intro addr haddr
        have hgood := Option.filter_eq_none_iff.mp hfilter addr haddr
        simpa using hgood
      rcases applyScheduler_cases raw.scheduler with
        ⟨before, field, after, hchecked, hbefore, hres⟩ | ⟨hnumbers, hres⟩
      · rw [hres]
        exact .inr ⟨_, rfl, .scheduler before after field hlisten hmetrics hchecked hbefore⟩
      · rw [hres]
        by_cases hnil : raw.filesystems = []
        · rw [hnil]
          exact .inr ⟨_, rfl, .noFilesystems hlisten hmetrics hnumbers hnil⟩
        · have hempty : raw.filesystems.isEmpty = false := by simpa using hnil
          obtain ⟨hok, herror⟩ := addFilesystems_spec calls raw.filesystems [] ∅
            ⟨by simp, by simp⟩ (fun name mount => by simp)
          rw [hempty]
          cases hadd : addFilesystems calls ∅ raw.filesystems with
          | ok filesystems =>
            obtain ⟨hmountable, hmounted⟩ := hok filesystems hadd
            exact .inl ⟨⟨hlisten, hmetrics, hnumbers, hnil, hmountable⟩, filesystems, rfl, hmounted⟩
          | error e =>
            exact .inr ⟨e, rfl, .filesystems e hlisten hmetrics hnumbers (herror e hadd)⟩

theorem RawScheduler.configured_positive {raw : RawScheduler}
    (h : ∀ p ∈ raw.checked, p.2 ≠ some 0) :
    0 < raw.configured.fileQueueCapacity ∧ 0 < raw.configured.dirQueueCapacity ∧
      0 < raw.configured.dirScanConcurrency := by
  have hpositive : ∀ (given : Option Nat) (current : Nat), given ≠ some 0 → 0 < current →
      0 < given.getD current := by
    intro given current hgiven hcurrent
    cases given with
    | none => exact hcurrent
    | some v => exact Nat.pos_of_ne_zero fun hv => hgiven (congrArg some hv)
  simp only [RawScheduler.checked, List.forall_mem_cons] at h
  obtain ⟨hfile, hdir, hscan, -⟩ := h
  exact ⟨hpositive _ _ hfile (by decide), hpositive _ _ hdir (by decide),
    hpositive _ _ hscan (by decide)⟩

/-- The master starts exactly if every check of its configuration holds. Then its numbers are
those of the file or the defaults, every queue has room and every scan a scanner, and its file
systems are those of the file; otherwise it names the first check that fails. -/
theorem config_checked (calls : ConfigCalls) (raw : RawConfig) :
    (raw.Accepted calls ↔ ∃ config, parseConfig calls raw = .ok config) ∧
    (∀ config, parseConfig calls raw = .ok config →
      config.scheduler = raw.scheduler.configured ∧ 0 < config.scheduler.fileQueueCapacity ∧
        0 < config.scheduler.dirQueueCapacity ∧ 0 < config.scheduler.dirScanConcurrency ∧
          Mounted calls raw.filesystems config.filesystems) ∧
    ∀ e, parseConfig calls raw = .error e → raw.Refused calls e := by
  rcases parseConfig_cases calls raw with ⟨haccepted, filesystems, hres, hmounted⟩ | ⟨e, hres, href⟩
  · rw [hres]
    refine ⟨⟨fun _ => ⟨_, rfl⟩, fun _ => haccepted⟩, fun config h => ?_, nofun⟩
    cases h
    obtain ⟨hfile, hdir, hscan⟩ := RawScheduler.configured_positive haccepted.numbers
    exact ⟨rfl, hfile, hdir, hscan, hmounted⟩
  · rw [hres]
    refine ⟨⟨fun h => absurd h href.not_accepted, nofun⟩, nofun, fun e' h => ?_⟩
    cases h
    exact href

end CvdBench.Master
