import CvdBench.Cli.Report
import CvdBench.Properties.EffectiveWindow

/-!
The window that the command line recomputes against the window that the master
divided by.
-/

set_option autoImplicit false

namespace CvdBench.Cli

open Foundation Proto Metrics

/-- The times of a result are values of an `i64`. -/
structure FitsI64 (w : WorkerResult) : Prop where
  start : i64Min ≤ w.measureStartMs ∧ w.measureStartMs ≤ i64Max
  stop : i64Min ≤ w.measureEndMs ∧ w.measureEndMs ≤ i64Max
  duration : i64Min ≤ w.effectiveDurationMs ∧ w.effectiveDurationMs ≤ i64Max

theorem overlap_lt {ws : List WorkerResult} (hfits : ∀ w ∈ ws, FitsI64 w) {d : Int}
    (hd : Overlap ws d) : d < 2^64 := by
  cases ws with
  | nil => exact absurd rfl hd.ne_nil
  | cons w ws =>
    obtain ⟨-, heq⟩ := (overlap_cons w ws d).mp hd
    rw [maxStart_cons, minEnd_cons] at heq
    obtain ⟨⟨u, hu, hmax⟩, -⟩ := isGreatest_foldl_max WorkerResult.measureStartMs w ws
    obtain ⟨⟨v, hv, hmin⟩, -⟩ := isLeast_foldl_min WorkerResult.measureEndMs w ws
    have hlo := (hfits u hu).start.1
    have hhi := (hfits v hv).stop.2
    rw [hmax] at hlo
    rw [hmin] at hhi
    unfold i64Min at hlo
    unfold i64Max at hhi
    omega

theorem wrapI64_of_pos {d : Int} (hpos : 0 < d) (hlt : d < 2^64) :
    wrapI64 d = d ∧ d ≤ i64Max ∨ wrapI64 d = d - 2^64 ∧ wrapI64 d < 0 := by
  rcases Int.lt_or_le i64Max d with hbig | hfits
  · right
    unfold i64Max at hbig
    have hshift : wrapI64 d = wrapI64 (d - 2^64) := by
      unfold wrapI64
      exact (Int.sub_bmod_right d (2^64)).symm
    rw [hshift, wrapI64_of_fits (by unfold i64Min; omega) (by unfold i64Max; omega)]
    omega
  · left
    exact ⟨wrapI64_of_fits (by unfold i64Min; omega) hfits, hfits⟩

/-- How long the only contributor measured, its own count where its two stamps say nothing. -/
def alone (w : WorkerResult) : Int :=
  if 0 < wrapI64 (w.measureEndMs - w.measureStartMs) then
    wrapI64 (w.measureEndMs - w.measureStartMs)
  else max w.effectiveDurationMs 0

theorem window_alone (w : WorkerResult) : computeEffectiveWindowMs [w] = (alone w, false) := by
  by_cases hspan : 0 < wrapI64 (w.measureEndMs - w.measureStartMs)
  · have hmax : max (wrapI64 (w.measureEndMs - w.measureStartMs)) 0 =
        wrapI64 (w.measureEndMs - w.measureStartMs) := by omega
    simp only [computeEffectiveWindowMs, alone, hmax, hspan, if_true]
  · have hmax : max (wrapI64 (w.measureEndMs - w.measureStartMs)) 0 = 0 := by omega
    simp only [computeEffectiveWindowMs, alone, hmax, hspan, gt_iff_lt, lt_self_iff_false,
      if_false]

theorem alone_fits {w : WorkerResult} (hfits : FitsI64 w) : 0 ≤ alone w ∧ alone w ≤ i64Max := by
  have hwrap := wrapI64_fits (w.measureEndMs - w.measureStartMs)
  have hdur := hfits.duration
  have hmax : (0 : Int) ≤ i64Max := by decide
  unfold alone
  split <;> omega

/-- Nobody succeeded and nothing was measured; or the successful workers overlap by the
length that the contributors measured; or neither group overlaps, with one least duration. -/
def AgreeWhen (succ contrib : List WorkerResult) : Prop :=
  (succ = [] ∧ (contrib = [] ∨ ∃ v, contrib = [v] ∧ alone v = 0)) ∨
    (∃ d, Overlap succ d ∧
      ((∃ v, contrib = [v] ∧ alone v = d) ∨ (2 ≤ contrib.length ∧ Overlap contrib d))) ∨
    (2 ≤ succ.length ∧ 2 ≤ contrib.length ∧ (¬ ∃ d, Overlap succ d) ∧
      (¬ ∃ d, Overlap contrib d) ∧ minEffective succ = minEffective contrib)

theorem aligned_cases {contrib : List WorkerResult}
    (h : (computeEffectiveWindowMs contrib).2 = false) :
    contrib = [] ∨ (∃ v, contrib = [v]) ∨ (2 ≤ contrib.length ∧ ∃ d, Overlap contrib d) := by
  match contrib, h with
  | [], _ => exact Or.inl rfl
  | [v], _ => exact Or.inr (Or.inl ⟨v, rfl⟩)
  | u :: v :: ws, h =>
    have htwo : 2 ≤ (u :: v :: ws).length := by simp
    right; right
    refine ⟨htwo, ?_⟩
    by_contra hnone
    rw [window_of_disjoint htwo hnone] at h
    exact absurd h (by simp)

theorem idle_of_window {contrib : List WorkerResult} (hfits : ∀ w ∈ contrib, FitsI64 w)
    (h : computeEffectiveWindowMs contrib = (0, false)) :
    contrib = [] ∨ ∃ v, contrib = [v] ∧ alone v = 0 := by
  rcases aligned_cases (congrArg Prod.snd h) with hnil | ⟨v, rfl⟩ | ⟨htwo, d, hd⟩
  · exact Or.inl hnil
  · rw [window_alone] at h
    exact Or.inr ⟨v, rfl, congrArg Prod.fst h⟩
  · rw [window_of_overlap htwo hd] at h
    have hzero : wrapI64 d = 0 := congrArg Prod.fst h
    have hwrap := wrapI64_of_pos hd.1 (overlap_lt hfits hd)
    have hpos := hd.1
    omega

theorem together_of_window {contrib : List WorkerResult} (hfits : ∀ w ∈ contrib, FitsI64 w)
    {d : Int} (hpos : 0 < d) (hlt : d < 2^64)
    (h : computeEffectiveWindowMs contrib = (wrapI64 d, false)) :
    (∃ v, contrib = [v] ∧ alone v = d) ∨ (2 ≤ contrib.length ∧ Overlap contrib d) := by
  have hwrap := wrapI64_of_pos hpos hlt
  rcases aligned_cases (congrArg Prod.snd h) with rfl | ⟨v, rfl⟩ | ⟨htwo, d', hd'⟩
  · have hzero : 0 = wrapI64 d := congrArg Prod.fst h
    omega
  · rw [window_alone] at h
    have hsame : alone v = wrapI64 d := congrArg Prod.fst h
    have hv := alone_fits (hfits v List.mem_cons_self)
    exact Or.inl ⟨v, rfl, by omega⟩
  · rw [window_of_overlap htwo hd'] at h
    have hsame : wrapI64 d' = wrapI64 d := congrArg Prod.fst h
    have hpos' := hd'.1
    have hlt' := overlap_lt hfits hd'
    have hwrap' := wrapI64_of_pos hpos' hlt'
    have heq : d' = d := by omega
    exact Or.inr ⟨htwo, heq ▸ hd'⟩

theorem apart_of_window {contrib : List WorkerResult} {m : Int}
    (h : computeEffectiveWindowMs contrib = (m, true)) :
    2 ≤ contrib.length ∧ (¬ ∃ d, Overlap contrib d) ∧ m = minEffective contrib := by
  match contrib, h with
  | [v], h => exact absurd (congrArg Prod.snd h) (by simp [window_alone])
  | u :: v :: ws, h =>
    have htwo : 2 ≤ (u :: v :: ws).length := by simp
    have hnone : ¬ ∃ d, Overlap (u :: v :: ws) d := by
      rintro ⟨d, hd⟩
      rw [window_of_overlap htwo hd] at h
      exact absurd (congrArg Prod.snd h) (by simp)
    rw [window_of_disjoint htwo hnone] at h
    exact ⟨htwo, hnone, (congrArg Prod.fst h).symm⟩

section

variable {H : Type} (lib : HdrLib H) (order order' : HashOrder String)

structure WindowsAgree (workers : List WorkerResult) : Prop where
  window : (effectiveWindowMs workers).1 = (aggregate lib order workers).effectiveWindowMs
  misaligned : (computeEffectiveWindow workers).2 =
    (aggregate lib order workers).windowMisaligned
  summary : (computeDiagnostics order' workers).1 =
    (aggregate lib order workers).windowMisaligned

theorem WindowsAgree.seconds {workers : List WorkerResult}
    (h : WindowsAgree lib order order' workers) :
    computeEffectiveWindow workers =
      (Float.ofInt (aggregate lib order workers).effectiveWindowMs / 1000,
        (aggregate lib order workers).windowMisaligned) := by
  rw [← h.window, ← h.misaligned]
  rfl

theorem windowsAgree_iff (workers : List WorkerResult) :
    WindowsAgree lib order order' workers ↔
      effectiveWindowMs workers = computeEffectiveWindowMs (contributors order workers) ∧
        (computeDiagnostics order' workers).1 =
          (computeEffectiveWindowMs (contributors order workers)).2 := by
  constructor
  · intro h
    exact ⟨Prod.ext h.window h.misaligned, h.summary⟩
  · rintro ⟨hpair, hflag⟩
    exact ⟨congrArg Prod.fst hpair, congrArg Prod.snd hpair, hflag⟩

theorem agreeWhen_of_agree {workers : List WorkerResult} (hfits : ∀ w ∈ workers, FitsI64 w)
    (h : WindowsAgree lib order order' workers) :
    AgreeWhen (successful workers) (contributors order workers) := by
  obtain ⟨hpair, hflag⟩ := (windowsAgree_iff lib order order' workers).mp h
  have hsfits : ∀ w ∈ successful workers, FitsI64 w := fun w hw =>
    hfits w (List.mem_filter.mp hw).1
  have hcfits : ∀ w ∈ contributors order workers, FitsI64 w := fun w hw =>
    hfits w (List.mem_filter.mp hw).1
  by_cases hnone : successful workers = []
  · rw [effectiveWindowMs_of_none hnone] at hpair
    exact Or.inl ⟨hnone, idle_of_window hcfits hpair.symm⟩
  · by_cases hover : ∃ d, Overlap (successful workers) d
    · obtain ⟨d, hd⟩ := hover
      rw [effectiveWindowMs_of_overlap hd] at hpair
      have htogether := together_of_window hcfits hd.1 (overlap_lt hsfits hd) hpair.symm
      exact Or.inr (Or.inl ⟨d, hd, htogether⟩)
    · rw [effectiveWindowMs_of_disjoint hnone hover] at hpair
      obtain ⟨htwo, hover', hmin⟩ := apart_of_window hpair.symm
      rw [← hpair, computeDiagnostics_misaligned] at hflag
      exact Or.inr (Or.inr ⟨hflag.1, htwo, hover, hover', hmin⟩)

theorem agree_of_agreeWhen {workers : List WorkerResult} (hfits : ∀ w ∈ workers, FitsI64 w)
    (h : AgreeWhen (successful workers) (contributors order workers)) :
    WindowsAgree lib order order' workers := by
  rw [windowsAgree_iff]
  have hflag : ∀ b, ((computeDiagnostics order' workers).1 = true ↔ b = true) →
      (computeDiagnostics order' workers).1 = b := fun b hb => Bool.eq_iff_iff.mpr hb
  rcases h with ⟨hnone, hidle⟩ | ⟨d, hd, htogether⟩ | ⟨hs, hc, hnone, hnone', hmin⟩
  · have hsummary : (computeDiagnostics order' workers).1 = false := by
      refine hflag false ?_
      rw [computeDiagnostics_misaligned, hnone]
      simp
    rw [effectiveWindowMs_of_none hnone, hsummary]
    rcases hidle with hc | ⟨v, hc, hv⟩
    · rw [hc]
      exact ⟨rfl, rfl⟩
    · rw [hc, window_alone, hv]
      exact ⟨rfl, rfl⟩
  · have hsummary : (computeDiagnostics order' workers).1 = false := by
      refine hflag false ?_
      rw [computeDiagnostics_misaligned]
      simp only [Bool.false_eq_true, iff_false, not_and, not_not]
      exact fun _ => ⟨d, hd⟩
    rw [effectiveWindowMs_of_overlap hd, hsummary]
    rcases htogether with ⟨v, hc, hv⟩ | ⟨htwo, hd'⟩
    · have hmem : v ∈ contributors order workers := by rw [hc]; exact List.mem_cons_self
      have hvfits := alone_fits (hfits v (List.mem_filter.mp hmem).1)
      have hpos := hd.1
      rw [hc, window_alone, wrapI64_of_fits (by unfold i64Min; omega) (by omega), hv]
      exact ⟨rfl, rfl⟩
    · rw [window_of_overlap htwo hd']
      exact ⟨rfl, rfl⟩
  · have hne : successful workers ≠ [] := List.ne_nil_of_length_pos (by omega)
    have hsummary : (computeDiagnostics order' workers).1 = true := by
      rw [computeDiagnostics_misaligned]
      exact ⟨hs, hnone⟩
    rw [effectiveWindowMs_of_disjoint hne hnone, window_of_disjoint hc hnone', hsummary, hmin]
    exact ⟨rfl, rfl⟩

theorem windows_agree_iff (workers : List WorkerResult) (hfits : ∀ w ∈ workers, FitsI64 w) :
    WindowsAgree lib order order' workers ↔
      AgreeWhen (successful workers) (contributors order workers) :=
  ⟨agreeWhen_of_agree lib order order' hfits, agree_of_agreeWhen lib order order' hfits⟩

end

namespace Small

def aligned : List WorkerResult :=
  [Metrics.Small.result "a" (Metrics.Small.counted 60 0) true 0 60000 60000,
    Metrics.Small.result "b" (Metrics.Small.counted 40 0) true 1000 61000 60000]

end Small

/-- Two successful workers that both counted and measured over the same minute. -/
theorem windows_agree_small :
    WindowsAgree Metrics.Small.hdr (.ascending String) (.ascending String) Small.aligned :=
  (windows_agree_iff Metrics.Small.hdr (.ascending String) (.ascending String) Small.aligned
    (by
      intro w hw
      rcases List.mem_cons.mp hw with rfl | hw
      · exact ⟨by decide, by decide, by decide⟩
      · rw [List.mem_singleton.mp hw]
        exact ⟨by decide, by decide, by decide⟩)).mpr
    (by
      have hover : Overlap Small.aligned 59000 :=
        (overlap_cons _ _ _).mpr ⟨by decide, by decide⟩
      have hcontrib : contributors (.ascending String) Small.aligned = Small.aligned := rfl
      rw [hcontrib]
      exact Or.inr (Or.inl ⟨59000, hover, Or.inr ⟨by decide, hover⟩⟩))

/-- The failed worker widens nothing for the command line and empties the master's window. -/
theorem report_differs_from_rates : ¬ WindowsAgree Metrics.Small.hdr (.ascending String)
    (.ascending String) Metrics.Small.mixed := by
  intro h
  have hreport : (effectiveWindowMs Metrics.Small.mixed).1 = 60000 := by decide
  have hmaster : (aggregate Metrics.Small.hdr (.ascending String)
      Metrics.Small.mixed).effectiveWindowMs = 0 := by decide
  have hsame := h.window
  omega

end CvdBench.Cli
