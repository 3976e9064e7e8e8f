import CvdBench.Foundation.FileTree
import Mathlib.Data.List.Count

/-!
Depth-first tours through a file tree: a stack of directories still to open, and the
directory whose names are being met. Every place below the start has one share in the
tour: it has been met, or it waits below a directory of the stack or behind a name.
-/

set_option autoImplicit false

namespace CvdBench.Foundation

/-- The places are relative to the directory where the tour starts. -/
structure Tour (κ : Type) where
  seen : List (List κ)
  stack : List (List κ)
  listing : Option (List κ × List κ)

namespace Tour

variable {κ : Type} [DecidableEq κ]

/-- A move of a tour below `base`. A tour may give up when it meets a name. -/
inductive Move (t : FileTree κ) (base : List κ) : Tour κ → Tour κ → Prop where
  | opens {seen : List (List κ)} {d : List κ} {stack : List (List κ)} {names : List κ} :
      names.Nodup → (∀ c, c ∈ names ↔ ∃ n, t.get? (base ++ d ++ [c]) = some n) →
      Move t base ⟨seen, d :: stack, none⟩ ⟨seen, stack, some (d, names)⟩
  | closes {seen : List (List κ)} {d : List κ} {stack : List (List κ)} :
      Move t base ⟨seen, stack, some (d, [])⟩ ⟨seen, stack, none⟩
  | enters {seen : List (List κ)} {d : List κ} {c : κ} {names : List κ} {stack : List (List κ)} :
      t.get? (base ++ (d ++ [c])) = some .dir →
      Move t base ⟨seen, stack, some (d, c :: names)⟩
        ⟨seen ++ [d ++ [c]], (d ++ [c]) :: stack, some (d, names)⟩
  | passes {seen : List (List κ)} {d : List κ} {c : κ} {names : List κ} {stack : List (List κ)}
      {n : Node κ} : t.get? (base ++ (d ++ [c])) = some n → n ≠ .dir →
      Move t base ⟨seen, stack, some (d, c :: names)⟩ ⟨seen ++ [d ++ [c]], stack, some (d, names)⟩
  | stops {seen : List (List κ)} {d : List κ} {c : κ} {names : List κ} {stack : List (List κ)}
      {n : Node κ} : t.get? (base ++ (d ++ [c])) = some n →
      Move t base ⟨seen, stack, some (d, c :: names)⟩ ⟨seen ++ [d ++ [c]], [], none⟩

def above (l d : List κ) : Bool := decide (d <+: l ∧ d ≠ l)

def behind (l : List κ) : Option (List κ × List κ) → Nat
  | none => 0
  | some (d, names) => names.countP fun c => decide (d ++ [c] <+: l)

def share (a : Tour κ) (l : List κ) : Nat :=
  a.seen.count l + a.stack.countP (above l) + behind l a.listing

variable {t : FileTree κ} {base : List κ} {a a' : Tour κ} {l : List κ} {n : Node κ}

theorem prefix_concat_iff {d l : List κ} {c : κ} : d ++ [c] <+: l ↔ l = d ++ [c] ∨
    above l (d ++ [c]) = true := by
  unfold above
  rw [decide_eq_true_eq]
  constructor
  · intro h
    by_cases heq : d ++ [c] = l
    · exact .inl heq.symm
    · exact .inr ⟨h, heq⟩
  · rintro (rfl | h)
    · exact List.prefix_refl _
    · exact h.1

@[simp] theorem above_self (d : List κ) : above d d = false := by
  simp [above]

theorem countP_names {d : List κ} {names : List κ} (hnodup : names.Nodup)
    (hnames : ∀ c, c ∈ names ↔ ∃ n, t.get? (base ++ d ++ [c]) = some n)
    (hl : t.get? (base ++ l) = some n) :
    names.countP (fun c => decide (d ++ [c] <+: l)) = if above l d then 1 else 0 := by
  by_cases hd : d <+: l
  · obtain ⟨rest, rfl⟩ := hd
    cases rest with
    | nil =>
      have hzero : names.countP (fun c => decide (d ++ [c] <+: d ++ [])) = 0 := by
        rw [List.countP_eq_zero]
        intro c _
        rw [List.append_nil, decide_eq_true_eq]
        exact FileTree.not_concat_prefix d c
      rw [hzero, List.append_nil, above_self]
      rfl
    | cons c rest =>
      have hmem : c ∈ names := by
        rw [hnames]
        cases rest with
        | nil => exact ⟨n, by simpa using hl⟩
        | cons c' rest =>
          have hsplit : base ++ (d ++ c :: c' :: rest) = (base ++ d ++ [c]) ++ (c' :: rest) := by
            simp
          rw [hsplit] at hl
          exact ⟨.dir, FileTree.get?_above _ (by simp) hl⟩
      have hcount : names.countP (fun c' => decide (d ++ [c'] <+: d ++ c :: rest)) =
          names.count c := by
        rw [List.count]
        refine List.countP_congr fun c' _ => ?_
        rw [decide_eq_true_eq, List.prefix_append_right_inj, List.cons_prefix_cons]
        simp
      have habove : above (d ++ c :: rest) d = true := by simp [above]
      rw [hcount, habove, if_pos rfl, List.count_eq_one_of_mem hnodup hmem]
  · have hzero : names.countP (fun c => decide (d ++ [c] <+: l)) = 0 := by
      rw [List.countP_eq_zero]
      intro c _
      rw [decide_eq_true_eq]
      exact fun hp => hd ((List.prefix_append _ _).trans hp)
    have habove : above l d = false := by simp [above, hd]
    rw [hzero, habove]
    rfl

theorem countP_head (d : List κ) (c : κ) (names : List κ) (l : List κ) :
    (c :: names).countP (fun c => decide (d ++ [c] <+: l)) =
      names.countP (fun c => decide (d ++ [c] <+: l)) +
        ((if l = d ++ [c] then 1 else 0) + if above l (d ++ [c]) then 1 else 0) := by
  rw [List.countP_cons]
  congr 1
  by_cases hl : l = d ++ [c]
  · subst hl
    simp
  · by_cases habove : above l (d ++ [c]) = true
    · simp [prefix_concat_iff, hl, habove]
    · simp [prefix_concat_iff, hl, habove]

theorem count_snoc (seen : List (List κ)) (l l' : List κ) :
    (seen ++ [l']).count l = seen.count l + if l = l' then 1 else 0 := by
  rw [List.count_append, List.count_singleton]
  by_cases h : l = l'
  · simp [h]
  · simp [h, Ne.symm h]

theorem Move.share_le (h : Move t base a a') (hl : t.get? (base ++ l) = some n) :
    a'.share l ≤ a.share l := by
  cases h with
  | opens hnodup hnames =>
    have hcount := countP_names hnodup hnames hl
    simp only [share, behind, List.countP_cons]
    omega
  | closes => simp [share, behind]
  | @enters seen d c names stack hdir =>
    simp only [share, behind, countP_head, count_snoc, List.countP_cons (p := above l)]
    omega
  | @passes seen d c names stack n' hn' hnotdir =>
    simp only [share, behind, countP_head, count_snoc]
    omega
  | @stops seen d c names stack n' hn' =>
    simp only [share, behind, countP_head, count_snoc, List.countP_nil]
    omega

theorem not_above_leaf {d : List κ} {n' : Node κ} (hd : t.get? (base ++ d) = some n')
    (hnotdir : n' ≠ .dir) (hl : t.get? (base ++ l) = some n) : above l d = false := by
  unfold above
  rw [decide_eq_false_iff_not]
  rintro ⟨⟨rest, rfl⟩, hne⟩
  rw [← List.append_assoc] at hl
  have hdir := FileTree.get?_above rest (by rintro rfl; simp at hne) hl
  rw [hd, Option.some.injEq] at hdir
  exact hnotdir hdir

def due (l : List κ) : Nat := if l = [] then 0 else 1

/-- A tour that speaks of places below the base, and of none of them twice. -/
structure Fair (t : FileTree κ) (base : List κ) (a : Tour κ) : Prop where
  once : ∀ l n, t.get? (base ++ l) = some n → a.share l ≤ due l
  seen : ∀ l ∈ a.seen, ∃ n, t.get? (base ++ l) = some n
  stack : ∀ d ∈ a.stack, t.get? (base ++ d) = some .dir
  listing : ∀ d names, a.listing = some (d, names) → t.get? (base ++ d) = some .dir ∧
    ∀ c ∈ names, ∃ n, t.get? (base ++ (d ++ [c])) = some n

def Complete (t : FileTree κ) (base : List κ) (a : Tour κ) : Prop :=
  ∀ l n, t.get? (base ++ l) = some n → a.share l = due l

def start : Tour κ := ⟨[], [[]], none⟩

theorem share_start (l : List κ) : start.share l = due l := by
  cases l with
  | nil => simp [start, share, behind, due]
  | cons c l => simp [start, share, behind, due, above]

theorem fair_start (hbase : t.get? base = some .dir) : Fair t base start where
  once := fun l _ _ => (share_start l).le
  seen := by simp [start]
  stack := by
    intro d hd
    rw [start, List.mem_singleton] at hd
    rw [hd, List.append_nil, hbase]
  listing := by simp [start]

theorem complete_start : Complete t base (start : Tour κ) := fun l _ _ => share_start l

theorem Move.fair (h : Move t base a a') (ha : Fair t base a) : Fair t base a' where
  once := fun l n hl => (h.share_le hl).trans (ha.once l n hl)
  seen := by
    cases h with
    | opens | closes => exact ha.seen
    | enters hdir =>
      intro l hl
      rcases List.mem_append.mp hl with hl | hl
      · exact ha.seen l hl
      · exact ⟨.dir, List.mem_singleton.mp hl ▸ hdir⟩
    | passes hn | stops hn =>
      intro l hl
      rcases List.mem_append.mp hl with hl | hl
      · exact ha.seen l hl
      · exact ⟨_, List.mem_singleton.mp hl ▸ hn⟩
  stack := by
    cases h with
    | opens => exact fun d hd => ha.stack d (List.mem_cons_of_mem _ hd)
    | closes | passes => exact ha.stack
    | enters hdir =>
      intro d hd
      rcases List.mem_cons.mp hd with rfl | hd
      · exact hdir
      · exact ha.stack d hd
    | stops => exact fun d hd => absurd hd List.not_mem_nil
  listing := by
    cases h with
    | @opens seen d stack names hnodup hnames =>
      intro d' names' heq
      cases heq
      refine ⟨ha.stack d List.mem_cons_self, fun c hc => ?_⟩
      rw [← List.append_assoc]
      exact (hnames c).mp hc
    | closes | stops => exact fun d names heq => nomatch heq
    | enters | passes =>
      intro d' names' heq
      cases heq
      obtain ⟨hdir, hrest⟩ := ha.listing _ _ rfl
      exact ⟨hdir, fun c hc => hrest c (List.mem_cons_of_mem _ hc)⟩

theorem Move.complete (h : Move t base a a')
    (hgoes : ∀ d c names, a.listing = some (d, c :: names) → a'.listing ≠ none)
    (ha : Complete t base a) : Complete t base a' := by
  intro l n hl
  rw [← ha l n hl]
  cases h with
  | opens hnodup hnames =>
    have hcount := countP_names hnodup hnames hl
    simp only [share, behind, List.countP_cons]
    omega
  | closes => simp [share, behind]
  | @enters seen d c names stack hdir =>
    simp only [share, behind, countP_head, count_snoc, List.countP_cons (p := above l)]
    omega
  | @passes seen d c names stack n' hn' hnotdir =>
    have habove := not_above_leaf hn' hnotdir hl
    simp only [share, behind, countP_head, count_snoc, habove]
    simp
    omega
  | stops => exact absurd rfl (hgoes _ _ _ rfl)

theorem Complete.mem_seen (ha : Complete t base a) (hstack : a.stack = [])
    (hlisting : a.listing = none) (hl : t.get? (base ++ l) = some n) (hne : l ≠ []) :
    l ∈ a.seen := by
  have hshare := ha l n hl
  rw [share, hstack, hlisting, List.countP_nil, behind, due, if_neg hne] at hshare
  exact List.count_pos_iff.mp (by omega)

theorem Fair.seen_nodup (ha : Fair t base a) : a.seen.Nodup := by
  rw [List.nodup_iff_count_le_one]
  intro l
  by_cases hl : l ∈ a.seen
  · obtain ⟨n, hn⟩ := ha.seen l hl
    have hshare := ha.once l n hn
    unfold share due at hshare
    split at hshare
    · omega
    · omega
  · rw [List.count_eq_zero_of_not_mem hl]
    omega

theorem Fair.seen_ne_nil (ha : Fair t base a) {l : List κ} (hl : l ∈ a.seen) : l ≠ [] := by
  rintro rfl
  obtain ⟨n, hn⟩ := ha.seen _ hl
  have hshare := ha.once _ n hn
  have hcount := List.count_pos_iff.mpr hl
  rw [share, due, if_pos rfl] at hshare
  omega

theorem Fair.seen_le (ha : Fair t base a) : a.seen.length ≤ (Finmap.keys t.nodes).card := by
  have hsub : (a.seen.map (base ++ ·)).toFinset ⊆ Finmap.keys t.nodes := by
    intro l hl
    rw [List.mem_toFinset, List.mem_map] at hl
    obtain ⟨l', hl', rfl⟩ := hl
    obtain ⟨n, hn⟩ := ha.seen l' hl'
    exact HashMap.mem_keys_of_get? hn
  have hnodup : (a.seen.map (base ++ ·)).Nodup :=
    ha.seen_nodup.map (List.append_right_injective base)
  have hcard := Finset.card_le_card hsub
  rw [List.toFinset_card_of_nodup hnodup, List.length_map] at hcard
  exact hcard

def remaining (t : FileTree κ) (a : Tour κ) : Nat :=
  3 * ((Finmap.keys t.nodes).card - a.seen.length) + 2 * a.stack.length +
    if a.listing.isSome then 1 else 0

theorem Move.remaining_lt (h : Move t base a a') (ha : Fair t base a) :
    a'.remaining t < a.remaining t := by
  have hle := (h.fair ha).seen_le
  cases h with
  | opens =>
    simp only [remaining, List.length_cons, Option.isSome_none, Option.isSome_some, if_true]
    simp
    omega
  | closes => simp [remaining]
  | enters | passes | stops =>
    rw [List.length_append, List.length_singleton] at hle
    simp only [remaining, List.length_append, List.length_cons, List.length_nil,
      Option.isSome_none, Option.isSome_some]
    simp
    omega

end Tour

end CvdBench.Foundation
