import CvdBench.Foundation.Machine
import Mathlib.Algebra.GroupWithZero.Nat
import Mathlib.Data.List.Perm.Basic

/-!
Batches of calls, one batch after the other. Within a batch so many calls run at the same
time, and they take effect and end in any order; the first error ends everything.
-/

set_option autoImplicit false

namespace CvdBench.Foundation

/-- A call that has taken effect waits until its result is collected. -/
structure Batches (σ α ε : Type) where
  world : σ
  waiting : List α
  running : List α
  performed : List (α × Option ε)
  rest : List (List α)
  outcome : Option (Except (α × ε) Unit)

inductive BatchAct where
  | start
  | perform (i : Nat)
  | collect (i : Nat)
  | next
  deriving DecidableEq, Repr

namespace Batches

variable {σ α ε : Type}

section

variable (call : α → σ → Except ε σ) (limit : Nat)

/-- What has started runs to its end, also when the rest is given up. -/
def step (s : Batches σ α ε) : BatchAct → Option (Batches σ α ε)
  | .start => match s.outcome, s.waiting with
      | none, a :: waiting =>
          if s.running.length + s.performed.length < limit then
            some { s with
              waiting := waiting
              running := s.running ++ [a] }
          else none
      | _, _ => none
  | .perform i => match s.running[i]? with
      | none => none
      | some a => match call a s.world with
          | .ok world =>
              some { s with
                world := world
                running := s.running.eraseIdx i
                performed := s.performed ++ [(a, none)] }
          | .error e =>
              some { s with
                running := s.running.eraseIdx i
                performed := s.performed ++ [(a, some e)] }
  | .collect i => match s.outcome, s.performed[i]? with
      | none, some (_, none) =>
          some { s with
            performed := s.performed.eraseIdx i }
      | none, some (a, some e) =>
          some { s with
            performed := s.performed.eraseIdx i
            outcome := some (.error (a, e)) }
      | _, _ => none
  | .next => match s.outcome, s.waiting, s.running, s.performed with
      | none, [], [], [] => match s.rest with
          | [] =>
              some { s with
                outcome := some (.ok ()) }
          | batch :: rest =>
              some { s with
                waiting := batch
                rest := rest }
      | _, _, _, _ => none

def start (world : σ) (batches : List (List α)) : Batches σ α ε :=
  ⟨world, [], [], [], batches, none⟩

def machine (world : σ) (batches : List (List α)) : Machine (Batches σ α ε) BatchAct Unit where
  init := start world batches
  step s a := (step call limit s a).map fun s' => (s', ())

end

variable {call : α → σ → Except ε σ} {limit : Nat} {s s' : Batches σ α ε} {a : BatchAct}

theorem step_cases (h : step call limit s a = some s') :
    (∃ b waiting, s.outcome = none ∧ s.waiting = b :: waiting ∧
      s' = { s with
        waiting := waiting
        running := s.running ++ [b] }) ∨
    (∃ i b, s.running[i]? = some b ∧ ((∃ world, call b s.world = .ok world ∧
      s' = { s with
        world := world
        running := s.running.eraseIdx i
        performed := s.performed ++ [(b, none)] }) ∨ ∃ e, call b s.world = .error e ∧
      s' = { s with
        running := s.running.eraseIdx i
        performed := s.performed ++ [(b, some e)] })) ∨
    (∃ i b res, s.outcome = none ∧ s.performed[i]? = some (b, res) ∧
      s' = { s with
        performed := s.performed.eraseIdx i
        outcome := res.map fun e => .error (b, e) }) ∨
    (s.outcome = none ∧ s.waiting = [] ∧ s.running = [] ∧ s.performed = [] ∧
      ((s.rest = [] ∧ s' = { s with outcome := some (.ok ()) }) ∨
        ∃ batch rest, s.rest = batch :: rest ∧ s' = { s with
          waiting := batch
          rest := rest })) := by
  cases a with
  | start =>
    simp only [step] at h
    split at h
    · next b waiting hout hwait =>
      split at h
      · exact .inl ⟨b, waiting, hout, hwait, (Option.some.inj h).symm⟩
      · cases h
    · cases h
  | perform i =>
    simp only [step] at h
    split at h
    · cases h
    · next b hb =>
      refine .inr (.inl ⟨i, b, hb, ?_⟩)
      split at h
      · next world hworld => exact .inl ⟨world, hworld, (Option.some.inj h).symm⟩
      · next e he => exact .inr ⟨e, he, (Option.some.inj h).symm⟩
  | collect i =>
    simp only [step] at h
    split at h
    · next b hout hb =>
      refine .inr (.inr (.inl ⟨i, b, none, hout, hb, ?_⟩))
      rw [← Option.some.inj h, Option.map_none, ← hout]
    · next b e hout hb =>
      exact .inr (.inr (.inl ⟨i, b, some e, hout, hb, (Option.some.inj h).symm⟩))
    · cases h
  | next =>
    simp only [step] at h
    split at h
    · next hout hwait hrun hperf =>
      refine .inr (.inr (.inr ⟨hout, hwait, hrun, hperf, ?_⟩))
      split at h
      · next hrest => exact .inl ⟨hrest, (Option.some.inj h).symm⟩
      · next batch rest hrest => exact .inr ⟨batch, rest, hrest, (Option.some.inj h).symm⟩
    · cases h

/-- A condition under which every call that is left goes well, and keeps it. It speaks of
the world, of what is left of the batch, and of the batches that follow. -/
structure Steady (call : α → σ → Except ε σ) (I : σ → List α → List (List α) → Prop) :
    Prop where
  perm : ∀ {world batch batch' rest}, batch.Perm batch' → I world batch rest →
    I world batch' rest
  call : ∀ {world a batch rest}, I world (a :: batch) rest →
    ∃ world', call a world = .ok world' ∧ I world' batch rest
  next : ∀ {world batch rest}, I world [] (batch :: rest) → I world batch rest

structure Smooth (I : σ → List α → List (List α) → Prop) (s : Batches σ α ε) : Prop where
  keeps : I s.world (s.running ++ s.waiting) s.rest
  performed : ∀ p ∈ s.performed, p.2 = none
  outcome : ∀ res, s.outcome = some res →
    res = .ok () ∧ s.waiting = [] ∧ s.running = [] ∧ s.performed = [] ∧ s.rest = []

theorem smooth_start {I : σ → List α → List (List α) → Prop} {world : σ}
    {batches : List (List α)} (h : I world [] batches) :
    Smooth I (start world batches : Batches σ α ε) where
  keeps := h
  performed := by simp [start]
  outcome := by simp [start]

theorem perm_eraseIdx {l : List α} {i : Nat} {b : α} (h : l[i]? = some b) :
    l.Perm (b :: l.eraseIdx i) := by
  obtain ⟨hlt, rfl⟩ := List.getElem?_eq_some_iff.mp h
  exact (List.getElem_cons_eraseIdx_perm hlt).symm

theorem Smooth.step {I : σ → List α → List (List α) → Prop} (hsteady : Steady call I)
    (hs : Smooth I s) (h : step call limit s a = some s') : Smooth I s' := by
  rcases step_cases h with ⟨b, waiting, hout, hwait, rfl⟩ | ⟨i, b, hb, hcalled⟩ |
    ⟨i, b, res, hout, hb, rfl⟩ | ⟨hout, hwait, hrun, hperf, hnext⟩
  · refine ⟨?_, hs.performed, fun res hres => ?_⟩
    · have hkeeps := hs.keeps
      rw [hwait] at hkeeps
      simpa using hkeeps
    · rw [hout] at hres
      cases hres
  · have hperm : (s.running ++ s.waiting).Perm (b :: (s.running.eraseIdx i ++ s.waiting)) :=
      (perm_eraseIdx hb).append_right _
    obtain ⟨world, hworld, hkeeps⟩ := hsteady.call (hsteady.perm hperm hs.keeps)
    rcases hcalled with ⟨world', hworld', rfl⟩ | ⟨e, he, rfl⟩
    · rw [hworld, Except.ok.injEq] at hworld'
      subst hworld'
      refine ⟨hkeeps, fun p hp => ?_, fun res hres => ?_⟩
      · rcases List.mem_append.mp hp with hp | hp
        · exact hs.performed p hp
        · rw [List.mem_singleton.mp hp]
      · have hrun := (hs.outcome res hres).2.2.1
        rw [hrun] at hb
        cases hb
    · rw [hworld] at he
      cases he
  · have hnone : res = none := hs.performed _ (List.mem_of_getElem? hb)
    subst hnone
    refine ⟨hs.keeps, fun p hp => hs.performed p (List.mem_of_mem_eraseIdx hp), fun res hres => ?_⟩
    cases hres
  · rcases hnext with ⟨hrest, rfl⟩ | ⟨batch, rest, hrest, rfl⟩
    · refine ⟨hs.keeps, hs.performed, fun res hres => ?_⟩
      exact ⟨(Option.some.inj hres).symm, hwait, hrun, hperf, hrest⟩
    · refine ⟨?_, hs.performed, fun res hres => ?_⟩
      · have hkeeps := hs.keeps
        rw [hwait, hrun, hrest] at hkeeps
        simp only [hrun]
        exact hsteady.next hkeeps
      · rw [hout] at hres
        cases hres

theorem smooth_run {I : σ → List α → List (List α) → Prop} (hsteady : Steady call I)
    {world : σ} {batches : List (List α)} (h0 : I world [] batches)
    (h : (machine call limit world batches).Reachable s) : Smooth I s :=
  h.invariant (smooth_start h0) fun s a t o _ hs hstep => by
    obtain ⟨t', ht', heq⟩ := Option.map_eq_some_iff.mp hstep
    obtain rfl : t' = t := congrArg Prod.fst heq
    exact hs.step hsteady ht'

def remaining (s : Batches σ α ε) : Nat :=
  3 * s.waiting.length + 2 * s.running.length + s.performed.length +
    (s.rest.map fun batch => 3 * batch.length + 1).sum + if s.outcome.isNone then 1 else 0

theorem remaining_step (h : step call limit s a = some s') : s'.remaining < s.remaining := by
  rcases step_cases h with ⟨b, waiting, hout, hwait, rfl⟩ | ⟨i, b, hb, hcalled⟩ |
    ⟨i, b, res, hout, hb, rfl⟩ | ⟨hout, hwait, hrun, hperf, hnext⟩
  · simp only [remaining, hwait, List.length_append, List.length_cons, List.length_nil]
    omega
  · obtain ⟨hlt, -⟩ := List.getElem?_eq_some_iff.mp hb
    have hlen := List.length_eraseIdx_of_lt hlt
    rcases hcalled with ⟨world', -, rfl⟩ | ⟨e, -, rfl⟩ <;>
    · simp only [remaining, List.length_append, List.length_singleton, hlen]
      omega
  · obtain ⟨hlt, -⟩ := List.getElem?_eq_some_iff.mp hb
    have hlen := List.length_eraseIdx_of_lt hlt
    have hleave : (if (res.map fun e => (.error (b, e) : Except (α × ε) Unit)).isNone then 1
        else 0) ≤ 1 := by
      split
      · exact Nat.le_refl 1
      · exact Nat.zero_le 1
    simp only [remaining, hlen, hout, Option.isNone_none, if_true]
    omega
  · rcases hnext with ⟨hrest, rfl⟩ | ⟨batch, rest, hrest, rfl⟩
    · simp [remaining, hout]
    · simp only [remaining, hwait, hrest, List.map_cons, List.sum_cons, List.length_nil]
      omega

theorem run_length {world : σ} {batches : List (List α)}
    {tr : List (Event (Batches σ α ε) BatchAct Unit)}
    (h : (machine call limit world batches).Run (start world batches) tr s) :
    tr.length + s.remaining ≤ (batches.map fun batch => 3 * batch.length + 1).sum + 1 := by
  have hbounded := h.bounded (fun _ => true) remaining (P := fun _ => True) trivial
    fun s a t o _ hstep => by
      obtain ⟨t', ht', heq⟩ := Option.map_eq_some_iff.mp hstep
      obtain rfl : t' = t := congrArg Prod.fst heq
      have hlt := remaining_step ht'
      rw [if_pos rfl]
      exact ⟨trivial, hlt⟩
  have hstart : (start world batches : Batches σ α ε).remaining =
      (batches.map fun batch => 3 * batch.length + 1).sum + 1 := by
    simp [remaining, start]
  rw [hstart] at hbounded
  simpa using hbounded.2

theorem exists_step (hlimit : 0 < limit) (hout : s.outcome = none) :
    ∃ a s', step call limit s a = some s' := by
  by_cases hperf : s.performed = []
  · by_cases hrun : s.running = []
    · cases hwait : s.waiting with
      | nil =>
        refine ⟨.next, Option.isSome_iff_exists.mp ?_⟩
        cases hrest : s.rest with
        | nil => simp [step, hout, hwait, hrun, hperf, hrest]
        | cons batch rest => simp [step, hout, hwait, hrun, hperf, hrest]
      | cons b waiting =>
        refine ⟨.start, Option.isSome_iff_exists.mp ?_⟩
        simp [step, hout, hwait, hrun, hperf, hlimit]
    · obtain ⟨b, running, hb⟩ := List.exists_cons_of_ne_nil hrun
      have hget : s.running[0]? = some b := by rw [hb, List.getElem?_cons_zero]
      refine ⟨.perform 0, Option.isSome_iff_exists.mp ?_⟩
      cases hcall : call b s.world with
      | ok world => simp only [step, hget, hcall, Option.isSome_some]
      | error e => simp only [step, hget, hcall, Option.isSome_some]
  · obtain ⟨⟨b, res⟩, performed, hp⟩ := List.exists_cons_of_ne_nil hperf
    have hget : s.performed[0]? = some (b, res) := by rw [hp, List.getElem?_cons_zero]
    refine ⟨.collect 0, Option.isSome_iff_exists.mp ?_⟩
    cases res with
    | none => simp only [step, hout, hget, Option.isSome_some]
    | some e => simp only [step, hout, hget, Option.isSome_some]

end Batches

end CvdBench.Foundation
