import Mathlib.Algebra.BigOperators.Group.List.Basic
import Mathlib.Tactic.Abel

/-!
A pool of tasks that keep their numbers for good: a list that grows at its end and
changes by `List.set`. What the tasks hold together is a sum over the pool, in any
commutative monoid.
-/

set_option autoImplicit false

namespace CvdBench.Foundation.Pool

variable {τ : Type} {M : Type} [AddCommMonoid M]

def total (f : τ → M) (pool : List τ) : M := (pool.map f).sum

@[simp] theorem total_nil (f : τ → M) : total f [] = 0 := rfl

@[simp] theorem total_cons (f : τ → M) (t : τ) (pool : List τ) :
    total f (t :: pool) = f t + total f pool := by
  simp [total]

@[simp] theorem total_concat (f : τ → M) (pool : List τ) (t : τ) :
    total f (pool ++ [t]) = total f pool + f t := by
  simp [total]

theorem total_split (f : τ → M) {pool : List τ} {i : Nat} {t : τ} (h : pool[i]? = some t) :
    ∃ rest, total f pool = f t + rest ∧ ∀ u, total f (pool.set i u) = f u + rest := by
  induction pool generalizing i with
  | nil => simp at h
  | cons hd tl ih =>
    cases i with
    | zero =>
      simp only [List.getElem?_cons_zero, Option.some.injEq] at h
      subst h
      exact ⟨total f tl, total_cons f _ tl, fun u => by rw [List.set_cons_zero, total_cons]⟩
    | succ i =>
      simp only [List.getElem?_cons_succ] at h
      obtain ⟨rest, heq, hset⟩ := ih h
      refine ⟨f hd + rest, ?_, fun u => ?_⟩
      · rw [total_cons, heq]
        abel
      · rw [List.set_cons_succ, total_cons, hset]
        abel

theorem total_set (f : τ → M) {pool : List τ} {i : Nat} {t : τ} (u : τ)
    (h : pool[i]? = some t) : total f (pool.set i u) + f t = total f pool + f u := by
  obtain ⟨rest, heq, hset⟩ := total_split f h
  rw [hset, heq]
  abel

theorem total_set_eq (f : τ → M) {pool : List τ} {i : Nat} {t u : τ}
    (h : pool[i]? = some t) (hf : f u = f t) : total f (pool.set i u) = total f pool := by
  obtain ⟨rest, heq, hset⟩ := total_split f h
  rw [hset, heq, hf]

theorem total_rel {R : τ → τ → Prop} {f : τ → M} (hf : ∀ t u, R t u → f u = f t)
    {pool pool' : List τ} (h : ∀ i : Nat, Option.Rel R pool[i]? pool'[i]?) :
    total f pool' = total f pool := by
  induction pool generalizing pool' with
  | nil =>
    cases pool' with
    | nil => rfl
    | cons hd' tl' =>
      have h0 := h 0
      simp only [List.getElem?_nil, List.getElem?_cons_zero] at h0
      cases h0
  | cons hd tl ih =>
    have h0 := h 0
    cases pool' with
    | nil =>
      simp only [List.getElem?_nil, List.getElem?_cons_zero] at h0
      cases h0
    | cons hd' tl' =>
      simp only [List.getElem?_cons_zero] at h0
      cases h0 with
      | some hR =>
        have htl := ih fun i => by simpa using h (i + 1)
        rw [total_cons, total_cons, hf _ _ hR, htl]

theorem total_eq_zero {f : τ → M} {pool : List τ} (h : ∀ t ∈ pool, f t = 0) :
    total f pool = 0 := by
  induction pool with
  | nil => rfl
  | cons hd tl ih =>
    have htl : ∀ t ∈ tl, f t = 0 := fun t ht => h t (List.mem_cons_of_mem _ ht)
    rw [total_cons, h hd (List.mem_cons_self ..), ih htl, add_zero]

theorem le_total {f : τ → Nat} {pool : List τ} {t : τ} (h : t ∈ pool) : f t ≤ total f pool := by
  induction pool with
  | nil => cases h
  | cons hd tl ih =>
    rw [total_cons]
    cases List.mem_cons.mp h with
    | inl heq =>
      subst heq
      omega
    | inr htl =>
      have hle := ih htl
      omega

theorem getElem?_set_self {pool : List τ} {i : Nat} {t : τ} (u : τ) (h : pool[i]? = some t) :
    (pool.set i u)[i]? = some u := by
  have hlt := (List.getElem?_eq_some_iff.mp h).1
  simp [hlt]

theorem getElem?_set {pool : List τ} {i : Nat} {t : τ} (u : τ) (h : pool[i]? = some t) (j : Nat) :
    (pool.set i u)[j]? = if j = i then some u else pool[j]? := by
  by_cases hj : j = i
  · subst hj
    rw [if_pos rfl]
    exact getElem?_set_self u h
  · rw [if_neg hj, List.getElem?_set_ne (Ne.symm hj)]

theorem getElem?_concat_iff {pool : List τ} {t u : τ} (hne : t ≠ u) (i : Nat) :
    (pool ++ [t])[i]? = some u ↔ pool[i]? = some u := by
  by_cases hi : i < pool.length
  · rw [List.getElem?_append_left hi]
  · rw [List.getElem?_append_right (by omega), List.getElem?_eq_none (l := pool) (by omega)]
    cases hk : i - pool.length with
    | zero => simp [hne]
    | succ k => simp

theorem forall_set {P : τ → Prop} {pool : List τ} {i : Nat} {u : τ} (h : ∀ t ∈ pool, P t)
    (hu : P u) : ∀ t ∈ pool.set i u, P t := by
  intro t ht
  cases List.mem_or_eq_of_mem_set ht with
  | inl hmem => exact h t hmem
  | inr heq =>
    rw [heq]
    exact hu

end CvdBench.Foundation.Pool
