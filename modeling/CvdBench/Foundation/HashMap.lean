import Mathlib.Data.Finmap
import Mathlib.Data.Finset.Card
import Mathlib.Data.List.NodupEquivFin
import Mathlib.Data.List.Sort

/-!
Finite maps as hash maps: lookup, insertion and removal by key, size, and the
iteration order, which the map does not determine.
-/

set_option autoImplicit false

namespace CvdBench.Foundation

abbrev HashMap (κ α : Type) := Finmap fun _ : κ => α

namespace HashMap

variable {κ α : Type}

def len (m : HashMap κ α) : Nat := (Finmap.keys m).card

@[simp] theorem len_empty : len (∅ : HashMap κ α) = 0 := by simp [len]

variable [DecidableEq κ]

def get? (m : HashMap κ α) (k : κ) : Option α := m.lookup k

def put (m : HashMap κ α) (k : κ) (v : α) : HashMap κ α := Finmap.insert k v m

def remove (m : HashMap κ α) (k : κ) : HashMap κ α := Finmap.erase k m

def containsKey (m : HashMap κ α) (k : κ) : Bool := (m.get? k).isSome

@[simp] theorem get?_empty (k : κ) : get? (∅ : HashMap κ α) k = none := Finmap.lookup_empty k

theorem get?_put (m : HashMap κ α) (k k' : κ) (v : α) :
    (m.put k v).get? k' = if k' = k then some v else m.get? k' := by
  by_cases h : k' = k
  · subst h; simp [get?, put, Finmap.lookup_insert]
  · simp [get?, put, h, Finmap.lookup_insert_of_ne _ h]

@[simp] theorem get?_put_self (m : HashMap κ α) (k : κ) (v : α) :
    (m.put k v).get? k = some v := by simp [get?_put]

theorem get?_put_ne (m : HashMap κ α) {k k' : κ} (v : α) (h : k' ≠ k) :
    (m.put k v).get? k' = m.get? k' := by simp [get?_put, h]

theorem get?_remove (m : HashMap κ α) (k k' : κ) :
    (m.remove k).get? k' = if k' = k then none else m.get? k' := by
  by_cases h : k' = k
  · subst h; simp [get?, remove]
  · simp [get?, remove, h, Finmap.lookup_erase_ne h]

@[simp] theorem get?_remove_self (m : HashMap κ α) (k : κ) : (m.remove k).get? k = none := by
  simp [get?_remove]

theorem mem_keys_iff {m : HashMap κ α} {k : κ} : k ∈ Finmap.keys m ↔ ∃ v, m.get? k = some v := by
  rw [Finmap.mem_keys, Finmap.mem_iff]; rfl

theorem mem_keys_of_get? {m : HashMap κ α} {k : κ} {v : α} (h : m.get? k = some v) :
    k ∈ Finmap.keys m := mem_keys_iff.mpr ⟨v, h⟩

@[simp] theorem containsKey_iff {m : HashMap κ α} {k : κ} :
    m.containsKey k = true ↔ k ∈ Finmap.keys m := by
  rw [mem_keys_iff, containsKey, Option.isSome_iff_exists]

@[simp] theorem keys_put (m : HashMap κ α) (k : κ) (v : α) :
    Finmap.keys (m.put k v) = insert k (Finmap.keys m) := by
  ext k'
  rw [Finset.mem_insert, mem_keys_iff, mem_keys_iff, get?_put]
  by_cases h : k' = k <;> simp [h]

theorem put_put (m : HashMap κ α) (k : κ) (v v' : α) : (m.put k v).put k v' = m.put k v' :=
  Finmap.insert_insert m

theorem len_put_of_mem {m : HashMap κ α} {k : κ} (v : α) (h : k ∈ Finmap.keys m) :
    (m.put k v).len = m.len := by
  simp [len, Finset.insert_eq_of_mem h]

theorem len_put_of_notMem {m : HashMap κ α} {k : κ} (v : α) (h : k ∉ Finmap.keys m) :
    (m.put k v).len = m.len + 1 := by
  simp [len, Finset.card_insert_of_notMem h]

theorem exists_of_lt_len {m : HashMap κ α} (f : α → Nat)
    (hlt : ∀ k v, m.get? k = some v → f v < m.len)
    (hinj : ∀ k k' v v', m.get? k = some v → m.get? k' = some v' → f v = f v' → k = k')
    {i : Nat} (hi : i < m.len) : ∃ k v, m.get? k = some v ∧ f v = i := by
  let g : κ → Nat := fun k => ((m.get? k).map f).getD 0
  have hg : ∀ {k v}, m.get? k = some v → g k = f v := by
    intro k v hk
    simp [g, hk]
  have hsub : (Finmap.keys m).image g ⊆ Finset.range m.len := by
    intro j hj
    obtain ⟨k, hk, rfl⟩ := Finset.mem_image.mp hj
    obtain ⟨v, hv⟩ := mem_keys_iff.mp hk
    rw [hg hv]
    exact Finset.mem_range.mpr (hlt k v hv)
  have hcard : ((Finmap.keys m).image g).card = m.len := by
    refine Finset.card_image_of_injOn fun k hk k' hk' heq => ?_
    obtain ⟨v, hv⟩ := mem_keys_iff.mp hk
    obtain ⟨v', hv'⟩ := mem_keys_iff.mp hk'
    rw [hg hv, hg hv'] at heq
    exact hinj k k' v v' hv hv' heq
  have hall : (Finmap.keys m).image g = Finset.range m.len :=
    Finset.eq_of_subset_of_card_le hsub (by rw [hcard, Finset.card_range])
  have himage : i ∈ (Finmap.keys m).image g := by
    rw [hall]
    exact Finset.mem_range.mpr hi
  obtain ⟨k, hk, rfl⟩ := Finset.mem_image.mp himage
  obtain ⟨v, hv⟩ := mem_keys_iff.mp hk
  exact ⟨k, v, hv, (hg hv).symm⟩

def removeAll (m : HashMap κ α) : List κ → HashMap κ α
  | [] => m
  | k :: ks => removeAll (m.remove k) ks

theorem get?_removeAll (m : HashMap κ α) (ks : List κ) (k : κ) :
    (m.removeAll ks).get? k = if k ∈ ks then none else m.get? k := by
  induction ks generalizing m with
  | nil => simp [removeAll]
  | cons k' ks ih =>
    rw [removeAll, ih, get?_remove]
    by_cases h : k = k' <;> by_cases h' : k ∈ ks <;> simp [h, h']

/-- Drops the listed keys that are bound to the value `v` and keeps the others. -/
def removeBound [DecidableEq α] (m : HashMap κ α) (v : α) : List κ → HashMap κ α
  | [] => m
  | k :: ks => removeBound (if m.get? k = some v then m.remove k else m) v ks

theorem get?_removeBound [DecidableEq α] (m : HashMap κ α) (v : α) (ks : List κ) (k : κ) :
    (m.removeBound v ks).get? k =
      if k ∈ ks ∧ m.get? k = some v then none else m.get? k := by
  induction ks generalizing m with
  | nil => simp [removeBound]
  | cons k' ks ih =>
    rw [removeBound, ih]
    by_cases hk : k = k'
    · subst hk
      by_cases hv : m.get? k = some v <;> simp [hv]
    · have hne : (if m.get? k' = some v then m.remove k' else m).get? k = m.get? k := by
        split
        · rw [get?_remove, if_neg hk]
        · rfl
      simp [hne, hk]

section

variable {β : Type}

omit [DecidableEq κ] in
def map (f : α → β) (m : HashMap κ α) : HashMap κ β where
  entries := m.entries.map fun p => ⟨p.1, f p.2⟩
  nodupKeys := by
    obtain ⟨entries, hnodup⟩ := m
    induction entries using Quot.inductionOn with
    | h l =>
      show (List.map Sigma.fst (l.map fun p => (⟨p.1, f p.2⟩ : Σ _ : κ, β))).Nodup
      rw [List.map_map]
      exact hnodup

@[simp] theorem get?_map (f : α → β) (m : HashMap κ α) (k : κ) :
    (m.map f).get? k = (m.get? k).map f := by
  obtain ⟨entries, hnodup⟩ := m
  induction entries using Quot.inductionOn with
  | h l =>
    have hmap : List.dlookup k (l.map fun p => (⟨p.1, f p.2⟩ : Σ _ : κ, β)) =
        (List.dlookup k l).map f := by
      clear hnodup
      induction l with
      | nil => rfl
      | cons p l ih =>
        obtain ⟨k', v⟩ := p
        by_cases hk : k = k'
        · subst hk
          simp
        · simp [hk, ih]
    exact hmap

theorem ext_get? {m m' : HashMap κ α} (h : ∀ k, m.get? k = m'.get? k) : m = m' :=
  Finmap.ext_lookup h

theorem map_put (f : α → β) (m : HashMap κ α) (k : κ) (v : α) :
    (m.put k v).map f = (m.map f).put k (f v) := by
  refine ext_get? fun k' => ?_
  rw [get?_map, get?_put, get?_put, get?_map]
  split <;> rfl

theorem map_removeAll (f : α → β) (m : HashMap κ α) (ks : List κ) :
    (m.removeAll ks).map f = (m.map f).removeAll ks := by
  refine ext_get? fun k' => ?_
  rw [get?_map, get?_removeAll, get?_removeAll, get?_map]
  split <;> rfl

@[simp] theorem keys_map (f : α → β) (m : HashMap κ α) : Finmap.keys (m.map f) = Finmap.keys m := by
  ext k
  simp [mem_keys_iff]

end

end HashMap

/-- One iteration order of the hash containers over `κ`: it lists each element
once, in an order that nothing else is known about. -/
structure HashOrder (κ : Type) where
  iter : Finset κ → List κ
  mem_iter : ∀ s k, k ∈ iter s ↔ k ∈ s
  nodup_iter : ∀ s, (iter s).Nodup

namespace HashOrder

variable {κ α : Type}

def keys (o : HashOrder κ) (m : HashMap κ α) : List κ := o.iter (Finmap.keys m)

@[simp] theorem mem_keys {o : HashOrder κ} {m : HashMap κ α} {k : κ} :
    k ∈ o.keys m ↔ k ∈ Finmap.keys m := o.mem_iter _ k

theorem nodup_keys (o : HashOrder κ) (m : HashMap κ α) : (o.keys m).Nodup := o.nodup_iter _

variable [DecidableEq κ]

def values (o : HashOrder κ) (m : HashMap κ α) : List α := (o.keys m).filterMap m.get?

def entries (o : HashOrder κ) (m : HashMap κ α) : List (κ × α) :=
  (o.keys m).filterMap fun k => (m.get? k).map fun v => (k, v)

section

variable {β : Type}

@[simp] theorem keys_map (o : HashOrder κ) (f : α → β) (m : HashMap κ α) :
    o.keys (m.map f) = o.keys m := by
  rw [keys, HashMap.keys_map, keys]

@[simp] theorem values_map (o : HashOrder κ) (f : α → β) (m : HashMap κ α) :
    o.values (m.map f) = (o.values m).map f := by
  rw [values, keys_map, values, List.map_filterMap]
  exact congrArg (List.filterMap · _) (funext fun k => HashMap.get?_map f m k)

theorem entries_map (o : HashOrder κ) (f : α → β) (m : HashMap κ α) :
    o.entries (m.map f) = (o.entries m).map fun entry => (entry.1, f entry.2) := by
  rw [entries, keys_map, entries, List.map_filterMap]
  refine congrArg (List.filterMap · _) (funext fun k => ?_)
  rw [HashMap.get?_map, Option.map_map, Option.map_map]
  rfl

end

end HashOrder

theorem insertionSort_eq_of_perm {κ : Type} [LinearOrder κ] {l l' : List κ}
    (h : l.Perm l') : l.insertionSort (· ≤ ·) = l'.insertionSort (· ≤ ·) := by
  have hsort : ∀ l : List κ, (l.insertionSort (· ≤ ·)).Perm l := List.perm_insertionSort _
  exact ((hsort l).trans (h.trans (hsort l').symm)).eq_of_pairwise'
    (List.pairwise_insertionSort _ l) (List.pairwise_insertionSort _ l')

def HashOrder.ascending (κ : Type) [LinearOrder κ] : HashOrder κ where
  iter s := s.val.liftOn (List.insertionSort (· ≤ ·)) fun _ _ h => insertionSort_eq_of_perm h
  mem_iter s k := by
    obtain ⟨v, _⟩ := s
    induction v using Quot.inductionOn with
    | h l => exact List.mem_insertionSort _
  nodup_iter s := by
    obtain ⟨v, hv⟩ := s
    induction v using Quot.inductionOn with
    | h l => exact ((List.perm_insertionSort _ l).nodup_iff).mpr hv

end CvdBench.Foundation
