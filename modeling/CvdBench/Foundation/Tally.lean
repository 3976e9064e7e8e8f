import CvdBench.Foundation.HashMap
import CvdBench.Foundation.Int64
import Mathlib.Algebra.BigOperators.Group.Finset.Basic
import Mathlib.Algebra.Order.BigOperators.Group.List
import Mathlib.Algebra.Order.Group.Int
import Mathlib.Algebra.Order.Monoid.Unbundled.MinMax

/-!
Sums of non-negative numbers under a cap, and values kept by key in a hash map that a
loop walks in its own order.
-/

set_option autoImplicit false

namespace CvdBench.Foundation

section Capped

variable {α : Type} [AddCommMonoid α] [LinearOrder α] [IsOrderedAddMonoid α]

theorem min_min_add (cap a : α) {b : α} (hb : 0 ≤ b) :
    min cap (min cap a + b) = min cap (a + b) := by
  rcases le_total a cap with h | h
  · rw [min_eq_right h]
  · have hcap : cap ≤ cap + b := le_add_of_nonneg_right hb
    have hsum : cap ≤ a + b := h.trans (le_add_of_nonneg_right hb)
    rw [min_eq_left h, min_eq_left hcap, min_eq_left hsum]

theorem min_add_min (cap b : α) {a : α} (ha : 0 ≤ a) :
    min cap (a + min cap b) = min cap (a + b) := by
  rw [add_comm, min_min_add cap b ha, add_comm]

theorem min_sum_map_min {ι : Type} (cap : α) (f : ι → α) (xs : List ι) (hcap : 0 ≤ cap)
    (hf : ∀ x ∈ xs, 0 ≤ f x) :
    min cap (xs.map fun x => min cap (f x)).sum = min cap (xs.map f).sum := by
  induction xs with
  | nil => simp
  | cons x xs ih =>
    have hx : 0 ≤ f x := hf x List.mem_cons_self
    have hxs : ∀ y ∈ xs, 0 ≤ f y := fun y hy => hf y (List.mem_cons_of_mem x hy)
    have hrest : 0 ≤ (xs.map fun y => min cap (f y)).sum := by
      refine List.sum_nonneg fun a ha => ?_
      obtain ⟨y, hy, rfl⟩ := List.mem_map.mp ha
      exact le_min hcap (hxs y hy)
    rw [List.map_cons, List.sum_cons, min_min_add cap (f x) hrest, ← min_add_min cap _ hx, ih hxs,
      min_add_min cap _ hx, List.map_cons, List.sum_cons]

end Capped

theorem saturatingI64_of_nonneg {n : Int} (h : 0 ≤ n) : saturatingI64 n = min i64Max n := by
  have hlo : i64Min ≤ min i64Max n := by
    unfold i64Min i64Max
    omega
  exact max_eq_right hlo

theorem min_i64Max_add {a b : Int} (ha : 0 ≤ a) (hb : 0 ≤ b) :
    min i64Max (a + b) = saturatingI64 (min i64Max a + min i64Max b) := by
  have hcap : 0 ≤ i64Max := by decide
  have hb' : 0 ≤ min i64Max b := le_min hcap hb
  rw [saturatingI64_of_nonneg (add_nonneg (le_min hcap ha) hb'), min_min_add _ _ hb',
    min_add_min _ _ ha]

namespace HashOrder

variable {κ α β : Type} [DecidableEq κ] (o : HashOrder κ)

theorem get?_foldl_put (upd : Option α → β → α) (ks : List κ) (m : HashMap κ β)
    (hks : ks.Nodup) (acc : HashMap κ α) (k : κ) :
    ((ks.filterMap fun k => (m.get? k).map fun v => (k, v)).foldl
        (fun acc e => acc.put e.1 (upd (acc.get? e.1) e.2)) acc).get? k =
      if k ∈ ks then ((m.get? k).map fun v => upd (acc.get? k) v).or (acc.get? k)
      else acc.get? k := by
  induction ks generalizing acc with
  | nil => simp
  | cons k' ks ih =>
    obtain ⟨hk', hks⟩ := List.nodup_cons.mp hks
    cases hv : m.get? k' with
    | none =>
      rw [List.filterMap_cons_none (by simp [hv]), ih hks acc]
      by_cases hk : k = k'
      · subst hk
        simp [hk', hv]
      · simp [hk]
    | some v =>
      rw [List.filterMap_cons_some (by simp [hv]; rfl), List.foldl_cons, ih hks]
      by_cases hk : k = k'
      · subst hk
        simp [hk', hv]
      · simp [hk, HashMap.get?_put_ne]

theorem get?_foldl_entries (upd : Option α → β → α) (m : HashMap κ β) (acc : HashMap κ α) (k : κ) :
    ((o.entries m).foldl (fun acc e => acc.put e.1 (upd (acc.get? e.1) e.2)) acc).get? k =
      ((m.get? k).map fun v => upd (acc.get? k) v).or (acc.get? k) := by
  have hfold := get?_foldl_put upd (o.keys m) m (o.nodup_keys m) acc k
  rw [entries, hfold]
  cases hv : m.get? k with
  | none => simp
  | some v => simp [HashMap.mem_keys_of_get? hv]

theorem mem_values {m : HashMap κ α} {v : α} :
    v ∈ o.values m ↔ ∃ k, m.get? k = some v := by
  rw [values, List.mem_filterMap]
  constructor
  · rintro ⟨k, -, hk⟩
    exact ⟨k, hk⟩
  · rintro ⟨k, hk⟩
    exact ⟨k, mem_keys.mpr (HashMap.mem_keys_of_get? hk), hk⟩

theorem length_values (m : HashMap κ α) : (o.values m).length = m.len := by
  have hall : ∀ k ∈ o.keys m, (m.get? k).isSome = true := by
    intro k hk
    obtain ⟨x, hx⟩ := HashMap.mem_keys_iff.mp (mem_keys.mp hk)
    rw [hx]
    rfl
  have hset : (o.keys m).toFinset = Finmap.keys m := by
    ext k
    rw [List.mem_toFinset, mem_keys]
  rw [values, List.filterMap_length_eq_length.mpr hall, HashMap.len, ← hset,
    List.toFinset_card_of_nodup (o.nodup_keys m)]

@[simp] theorem mem_entries {m : HashMap κ α} {e : κ × α} :
    e ∈ o.entries m ↔ m.get? e.1 = some e.2 := by
  obtain ⟨k, v⟩ := e
  rw [entries, List.mem_filterMap]
  constructor
  · rintro ⟨k', -, hk'⟩
    obtain ⟨v', hv', heq⟩ := Option.map_eq_some_iff.mp hk'
    cases heq
    exact hv'
  · intro hv
    exact ⟨k, mem_keys.mpr (HashMap.mem_keys_of_get? hv), by rw [hv]; rfl⟩

theorem values_perm (o' : HashOrder κ) (m : HashMap κ α) : (o.values m).Perm (o'.values m) := by
  have hkeys : (o.keys m).Perm (o'.keys m) := by
    rw [List.perm_ext_iff_of_nodup (o.nodup_keys m) (o'.nodup_keys m)]
    intro k
    rw [mem_keys, mem_keys]
  exact hkeys.filterMap _

theorem sum_values [AddCommMonoid β] (f : α → β) (m : HashMap κ α) :
    ((o.values m).map f).sum = ∑ k ∈ Finmap.keys m, ((m.get? k).map f).getD 0 := by
  have hlist : ∀ ks : List κ, ((ks.filterMap m.get?).map f).sum =
      (ks.map fun k => ((m.get? k).map f).getD 0).sum := by
    intro ks
    induction ks with
    | nil => rfl
    | cons k ks ih =>
      cases hv : m.get? k with
      | none => simp [hv, ih]
      | some v => simp [hv, ih]
  have hkeys : (o.keys m).toFinset = Finmap.keys m := by
    ext k
    rw [List.mem_toFinset, mem_keys]
  rw [values, hlist, ← hkeys, List.sum_toFinset _ (o.nodup_keys m)]

end HashOrder

end CvdBench.Foundation
