import Mathlib.Data.List.Basic

/-!
Machines driven by a scheduler. A run is kept as the list of its events, so a
property of a whole history (what happened before, what can still happen) is a
property of that list.
-/

set_option autoImplicit false

namespace CvdBench.Foundation

/-- The scheduler chooses an action; state and action determine the next state
and the output. `none` means that the action is not enabled. -/
structure Machine (σ α ο : Type) where
  init : σ
  step : σ → α → Option (σ × ο)

structure Event (σ α ο : Type) where
  pre : σ
  act : α
  out : ο
  post : σ

variable {σ α ο : Type} (M : Machine σ α ο)

/-- `M.Run s tr t`: the events `tr`, oldest first, lead from `s` to `t`. -/
inductive Machine.Run : σ → List (Event σ α ο) → σ → Prop where
  | nil (s : σ) : Run s [] s
  | snoc {s t u : σ} {tr : List (Event σ α ο)} {a : α} {o : ο} :
      Run s tr t → M.step t a = some (u, o) → Run s (tr ++ [⟨t, a, o, u⟩]) u

def Machine.Reachable (s : σ) : Prop := ∃ tr, M.Run M.init tr s

variable {M}

theorem Machine.Run.single {s t : σ} {a : α} {o : ο} (h : M.step s a = some (t, o)) :
    M.Run s [⟨s, a, o, t⟩] t := .snoc (.nil s) h

theorem Machine.Run.append {s t u : σ} {tr tr' : List (Event σ α ο)}
    (h : M.Run s tr t) (h' : M.Run t tr' u) : M.Run s (tr ++ tr') u := by
  induction h' with
  | nil => simpa using h
  | snoc _ hs ih => rw [← List.append_assoc]; exact .snoc ih hs

theorem Machine.Run.reachable {s t : σ} {tr : List (Event σ α ο)}
    (h : M.Run s tr t) (hs : M.Reachable s) : M.Reachable t := by
  obtain ⟨tr', h'⟩ := hs
  exact ⟨tr' ++ tr, h'.append h⟩

theorem Machine.Reachable.init : M.Reachable M.init := ⟨[], .nil _⟩

theorem Machine.Reachable.step {s t : σ} {a : α} {o : ο} (hs : M.Reachable s)
    (h : M.step s a = some (t, o)) : M.Reachable t := (Machine.Run.single h).reachable hs

/-- The invariant rule. The step lemma may use that the state is reachable. -/
theorem Machine.Reachable.invariant {P : σ → Prop} (h0 : P M.init)
    (hstep : ∀ s a t o, M.Reachable s → P s → M.step s a = some (t, o) → P t)
    {s : σ} (hs : M.Reachable s) : P s := by
  obtain ⟨tr, h⟩ := hs
  have key : ∀ {s₀ tr t}, M.Run s₀ tr t → s₀ = M.init → M.Reachable t ∧ P t := by
    intro s₀ tr t h
    induction h with
    | nil => intro he; subst he; exact ⟨.init, h0⟩
    | snoc _ hs ih =>
      intro he
      obtain ⟨hr, hp⟩ := ih he
      exact ⟨hr.step hs, hstep _ _ _ _ hr hp hs⟩
  exact (key h rfl).2

/-- The invariant rule for histories: what relates the past of a run to its state. -/
theorem Machine.Run.history {P : List (Event σ α ο) → σ → Prop} {tr : List (Event σ α ο)}
    {t : σ} (h : M.Run M.init tr t) (h0 : P [] M.init)
    (hstep : ∀ tr s a t o, M.Run M.init tr s → P tr s → M.step s a = some (t, o) →
      P (tr ++ [⟨s, a, o, t⟩]) t) : P tr t := by
  have key : ∀ {s₀ tr t}, M.Run s₀ tr t → s₀ = M.init → P tr t := by
    intro s₀ tr t h
    induction h with
    | nil => intro he; subst he; exact h0
    | snoc hr hs ih =>
      intro he
      subst he
      exact hstep _ _ _ _ _ hr (ih rfl) hs
  exact key h rfl

theorem Machine.Run.historyWhere (C : σ → α → Prop) {P : List (Event σ α ο) → σ → Prop}
    {tr : List (Event σ α ο)} {t : σ} (h : M.Run M.init tr t)
    (hC : ∀ e ∈ tr, C e.pre e.act) (h0 : P [] M.init)
    (hstep : ∀ tr s a t o, M.Run M.init tr s → (∀ e ∈ tr, C e.pre e.act) → P tr s → C s a →
      M.step s a = some (t, o) → P (tr ++ [⟨s, a, o, t⟩]) t) : P tr t := by
  let Q : List (Event σ α ο) → σ → Prop := fun tr t => (∀ e ∈ tr, C e.pre e.act) → P tr t
  have hQ : Q tr t := by
    refine h.history (fun _ => h0) fun tr s a t o hr hp hs hC => ?_
    have hC' : ∀ e ∈ tr, C e.pre e.act := fun e he => hC e (List.mem_append_left _ he)
    exact hstep _ _ _ _ _ hr hC' (hp hC') (hC ⟨s, a, o, t⟩ (by simp)) hs
  exact hQ hC

theorem Machine.Run.invariantWhere (C : σ → α → Prop) {P : σ → Prop} {s t : σ}
    {tr : List (Event σ α ο)} (h : M.Run s tr t) (hC : ∀ e ∈ tr, C e.pre e.act)
    (h0 : M.Reachable s) (hP : P s)
    (hstep : ∀ s a t o, M.Reachable s → P s → C s a → M.step s a = some (t, o) → P t) :
    P t := by
  induction h with
  | nil => exact hP
  | @snoc t u tr a o hr hs ih =>
    have hC' : ∀ e ∈ tr, C e.pre e.act := fun e he => hC e (by simp [he])
    exact hstep _ _ _ _ (hr.reachable h0) (ih hC') (hC ⟨t, a, o, u⟩ (by simp)) hs

/-- A reflexive and transitive relation that every step keeps relates the two
ends of every run. -/
theorem Machine.Run.relates {R : σ → σ → Prop} (hrefl : ∀ s, R s s)
    (htrans : ∀ s t u, R s t → R t u → R s u) {s t : σ} {tr : List (Event σ α ο)}
    (h : M.Run s tr t) (h0 : M.Reachable s)
    (hstep : ∀ s a t o, M.Reachable s → M.step s a = some (t, o) → R s t) : R s t := by
  induction h with
  | nil => exact hrefl _
  | snoc hr hs ih => exact htrans _ _ _ ih (hstep _ _ _ _ (hr.reachable h0) hs)

/-- A measure that no step raises, and that every step in `W` lowers, bounds how many
steps in `W` a run can have. -/
theorem Machine.Run.bounded (W : α → Bool) (μ : σ → Nat) {P : σ → Prop} {s t : σ}
    {tr : List (Event σ α ο)} (h : M.Run s tr t) (hP : P s)
    (hstep : ∀ s a t o, P s → M.step s a = some (t, o) →
      P t ∧ μ t + (if W a then 1 else 0) ≤ μ s) :
    P t ∧ tr.countP (fun e => W e.act) + μ t ≤ μ s := by
  induction h with
  | nil => exact ⟨hP, by simp⟩
  | @snoc t u tr a o hr hs ih =>
    obtain ⟨hPt, hle⟩ := ih
    obtain ⟨hPu, hlt⟩ := hstep _ _ _ _ hPt hs
    refine ⟨hPu, ?_⟩
    rw [List.countP_append, List.countP_singleton]
    simp only at hlt ⊢
    omega

/-- Every event of a run is a step, taken after the events before it. -/
theorem Machine.Run.split {s t : σ} {tr : List (Event σ α ο)} (h : M.Run s tr t) :
    ∀ {tr₁ : List (Event σ α ο)} {e : Event σ α ο} {tr₂ : List (Event σ α ο)},
      tr = tr₁ ++ e :: tr₂ →
        M.Run s tr₁ e.pre ∧ M.step e.pre e.act = some (e.post, e.out) ∧
          M.Run e.post tr₂ t := by
  induction h with
  | nil => intro tr₁ e tr₂ he; simp at he
  | @snoc t u tr a o hr hs ih =>
    intro tr₁ e tr₂ he
    rcases List.eq_nil_or_concat tr₂ with rfl | ⟨tr₃, f, rfl⟩
    · obtain ⟨rfl, hlast⟩ := List.append_inj' he rfl
      obtain rfl := (List.cons.inj hlast).1
      exact ⟨hr, hs, .nil _⟩
    · rw [List.concat_eq_append, ← List.cons_append, ← List.append_assoc] at he
      obtain ⟨hinit, hlast⟩ := List.append_inj' he rfl
      obtain rfl := (List.cons.inj hlast).1
      obtain ⟨h₁, h₂, h₃⟩ := ih hinit
      exact ⟨h₁, h₂, by simpa using h₃.snoc hs⟩

theorem Machine.Run.ordered {R : σ → σ → Prop} (hrefl : ∀ s, R s s)
    (htrans : ∀ s t u, R s t → R t u → R s u) {s t : σ} {tr : List (Event σ α ο)}
    (h : M.Run s tr t) (h0 : M.Reachable s)
    (hstep : ∀ s a t o, M.Reachable s → M.step s a = some (t, o) → R s t)
    {e e' : Event σ α ο} (he : e ∈ tr) (he' : e' ∈ tr) : R e.post e'.post ∨ R e'.post e.post := by
  induction h with
  | nil => cases he
  | @snoc t u tr a o hr hs ih =>
    have hlast : ∀ f ∈ tr, R f.post u := by
      intro f hf
      obtain ⟨tr₁, tr₂, rfl⟩ := List.append_of_mem hf
      obtain ⟨h₁, hf, h₂⟩ := hr.split rfl
      exact (h₂.snoc hs).relates hrefl htrans ((h₁.reachable h0).step hf) hstep
    rcases List.mem_append.mp he with he | he <;> rcases List.mem_append.mp he' with he' | he'
    · exact ih he he'
    · rw [List.mem_singleton.mp he']
      exact .inl (hlast e he)
    · rw [List.mem_singleton.mp he]
      exact .inr (hlast e' he')
    · rw [List.mem_singleton.mp he, List.mem_singleton.mp he']
      exact .inl (hrefl u)

theorem Machine.Run.event {s t : σ} {tr : List (Event σ α ο)} (h : M.Run s tr t)
    {e : Event σ α ο} (he : e ∈ tr) :
    M.step e.pre e.act = some (e.post, e.out) ∧ (M.Reachable s → M.Reachable e.pre) := by
  obtain ⟨tr₁, tr₂, rfl⟩ := List.append_of_mem he
  obtain ⟨h₁, h₂, _⟩ := h.split rfl
  exact ⟨h₂, fun hs => h₁.reachable hs⟩

theorem Machine.Run.eq_of_nil {s t : σ} (h : M.Run s [] t) : t = s := by
  generalize hnil : ([] : List (Event σ α ο)) = tr at h
  cases h with
  | nil => rfl
  | snoc => simp at hnil

theorem Machine.Run.last {s t : σ} {tr : List (Event σ α ο)} (h : M.Run s tr t) :
    tr = [] ∧ t = s ∨ ∃ e ∈ tr, e.post = t := by
  cases h with
  | nil => exact .inl ⟨rfl, rfl⟩
  | snoc => exact .inr ⟨_, List.mem_append_right _ (List.mem_singleton_self _), rfl⟩

theorem Machine.Run.first {s t : σ} {e : Event σ α ο} {tr : List (Event σ α ο)}
    (h : M.Run s (e :: tr) t) :
    e.pre = s ∧ M.step e.pre e.act = some (e.post, e.out) ∧ M.Run e.post tr t := by
  obtain ⟨hnil, hstep, hrest⟩ := h.split (List.nil_append _).symm
  exact ⟨hnil.eq_of_nil, hstep, hrest⟩

/-- Two runs side by side: if actions related by `A` lead from states related by `R` to
states related by `R`, then the runs stay related, event by event. -/
theorem Machine.Run.unwinding {A : α → α → Prop} {R : σ → σ → Prop}
    {E : Event σ α ο → Event σ α ο → Prop}
    (hstep : ∀ s s' a a' t t' o o', R s s' → A a a' → M.step s a = some (t, o) →
      M.step s' a' = some (t', o') → R t t' ∧ E ⟨s, a, o, t⟩ ⟨s', a', o', t'⟩)
    {s s' t t' : σ} {tr tr' : List (Event σ α ο)} (h : M.Run s tr t) (h' : M.Run s' tr' t')
    (hs : R s s') (hacts : List.Forall₂ (fun e e' => A e.act e'.act) tr tr') :
    R t t' ∧ List.Forall₂ E tr tr' := by
  induction hacts generalizing s s' with
  | nil =>
    rw [h.eq_of_nil, h'.eq_of_nil]
    exact ⟨hs, .nil⟩
  | @cons e e' tr tr' hact _ ih =>
    obtain ⟨rfl, he, hrest⟩ := h.first
    obtain ⟨rfl, he', hrest'⟩ := h'.first
    obtain ⟨hpost, hevent⟩ := hstep _ _ _ _ _ _ _ _ hs hact he he'
    obtain ⟨ht, hall⟩ := ih hrest hrest' hpost
    exact ⟨ht, .cons hevent hall⟩

section

variable (M)

def Machine.play : σ → List α → σ
  | s, [] => s
  | s, a :: as => match M.step s a with
    | some (t, _) => play t as
    | none => play s as

def Machine.trace : σ → List α → List (Event σ α ο)
  | _, [] => []
  | s, a :: as => match M.step s a with
    | some (t, o) => ⟨s, a, o, t⟩ :: trace t as
    | none => trace s as

theorem Machine.run_play (s : σ) (as : List α) : M.Run s (M.trace s as) (M.play s as) := by
  induction as generalizing s with
  | nil => exact .nil s
  | cons a as ih =>
    unfold Machine.play Machine.trace
    cases h : M.step s a with
    | none => exact ih s
    | some res => exact (Machine.Run.single h).append (ih res.1)

theorem Machine.act_of_mem_trace {s : σ} {as : List α} {e : Event σ α ο}
    (he : e ∈ M.trace s as) : e.act ∈ as := by
  induction as generalizing s with
  | nil => cases he
  | cons a as ih =>
    unfold Machine.trace at he
    cases h : M.step s a with
    | none =>
      rw [h] at he
      exact List.mem_cons_of_mem _ (ih he)
    | some res =>
      rw [h] at he
      rcases List.mem_cons.mp he with rfl | he
      · exact List.mem_cons_self ..
      · exact List.mem_cons_of_mem _ (ih he)

theorem Machine.trace_append (s : σ) (as bs : List α) :
    M.trace s (as ++ bs) = M.trace s as ++ M.trace (M.play s as) bs := by
  induction as generalizing s with
  | nil => rfl
  | cons a as ih =>
    rw [List.cons_append, Machine.trace, Machine.trace, Machine.play]
    cases M.step s a with
    | none => exact ih s
    | some res => rw [List.cons_append, ← ih res.1]

theorem Machine.mem_trace (s : σ) (as bs : List α) {t : σ} {o : ο} {a : α}
    (h : M.step (M.play s as) a = some (t, o)) :
    ⟨M.play s as, a, o, t⟩ ∈ M.trace s (as ++ a :: bs) := by
  rw [Machine.trace_append, Machine.trace, h]
  exact List.mem_append_right _ (List.mem_cons_self ..)

theorem Machine.reachable_play (as : List α) : M.Reachable (M.play M.init as) :=
  ⟨_, M.run_play M.init as⟩

end

end CvdBench.Foundation
