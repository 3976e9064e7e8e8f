import CvdBench.Foundation.Csv

/-!
The lines on which the records of a comma-separated text begin, and how they are related to
the numbers of the records.
-/

set_option autoImplicit false

namespace CvdBench.Foundation.Csv

namespace Reader

def begins (r : Reader) (c : Char) : Bool := r.atStart && !(r.step c).1.atStart

def begun : Reader → List Char → Nat
  | _, [] => 0
  | r, c :: cs => (r.begins c).toNat + (r.step c).1.begun cs

def pending (r : Reader) : Nat := (!r.atStart).toNat

theorem begun_append (r : Reader) (cs cs' : List Char) :
    r.begun (cs ++ cs') = r.begun cs + (r.run cs).1.begun cs' := by
  induction cs generalizing r with
  | nil => simp [begun]
  | cons c cs ih =>
    rw [List.cons_append, begun, begun, run_cons, ih, Nat.add_assoc]

theorem fieldChar_balance (record : Record) (field : List Char) (c : Char) :
    (fieldChar record field c).2.length + (fieldChar record field c).1.pending = 1 := by
  unfold fieldChar
  split
  · rfl
  · split <;> rfl

theorem fieldStart_balance (record : Record) (c : Char) :
    (fieldStart record c).2.length + (fieldStart record c).1.pending = 1 := by
  unfold fieldStart
  split
  · rfl
  · exact fieldChar_balance record [] c

theorem fieldChar_none {c : Char} (hc : isTerm c = false) (record : Record)
    (field : List Char) : (fieldChar record field c).2 = [] := by
  unfold fieldChar
  split
  · rfl
  · rw [if_neg (by simp [hc])]

theorem fieldStart_none {c : Char} (hc : isTerm c = false) (record : Record) :
    (fieldStart record c).2 = [] := by
  unfold fieldStart
  split
  · rfl
  · exact fieldChar_none hc record []

theorem recordStart_none (c : Char) : (recordStart c).2 = [] := by
  unfold recordStart
  cases hc : isTerm c with
  | true => rfl
  | false => exact fieldStart_none hc []

theorem step_none {r : Reader} (hr : r.atStart = true) (c : Char) : (r.step c).2 = [] := by
  cases r with
  | bof =>
    unfold step
    simp only
    split
    · rfl
    · exact recordStart_none c
  | startRecord => exact recordStart_none c
  | _ => cases hr

theorem step_one {r : Reader} (hr : r.atStart = false) (c : Char) :
    (r.step c).2.length + (r.step c).1.pending = 1 := by
  cases r with
  | startField record => exact fieldStart_balance record c
  | inField record field => exact fieldChar_balance record field c
  | inQuoted record field =>
    unfold step
    simp only
    split <;> rfl
  | quoteInQuoted record field =>
    unfold step
    simp only
    split
    · rfl
    · exact fieldChar_balance record field c
  | _ => cases hr

theorem step_balance (r : Reader) (c : Char) :
    (r.step c).2.length + (r.step c).1.pending = (r.begins c).toNat + r.pending := by
  cases hr : r.atStart with
  | true => simp [step_none hr, begins, pending, hr]
  | false =>
    rw [step_one hr]
    simp [begins, pending, hr]

theorem run_balance (r : Reader) (cs : List Char) :
    (r.run cs).2.length + (r.run cs).1.pending = r.begun cs + r.pending := by
  induction cs generalizing r with
  | nil => simp [begun]
  | cons c cs ih =>
    have hstep := step_balance r c
    have hrest := ih (r.step c).1
    rw [run_cons, begun, List.length_append]
    simp only
    omega

theorem flush_length (r : Reader) : r.flush.length = r.pending := by cases r <;> rfl

theorem finish_length (r : Reader) (cs : List Char) :
    (r.finish cs).length = r.begun cs + r.pending := by
  rw [finish, List.length_append, flush_length, run_balance]

theorem begins_atStart {r : Reader} {c : Char} (h : r.begins c = true) : r.atStart = true := by
  unfold begins at h
  exact (Bool.and_eq_true_iff.mp h).1

theorem term_begins {c : Char} (hc : isTerm c = true) (r : Reader) : r.begins c = false := by
  cases r with
  | bof =>
    have hbom : c ≠ Char.ofNat 0xFEFF := by
      rintro rfl
      cases hc
    simp [begins, step, recordStart, hbom, hc, atStart]
  | startRecord => simp [begins, step, recordStart, hc, atStart]
  | _ => rfl

theorem terms_begun {cs : List Char} (h : ∀ c ∈ cs, isTerm c = true) (r : Reader) :
    r.begun cs = 0 := by
  induction cs generalizing r with
  | nil => rfl
  | cons c cs ih =>
    rw [begun, term_begins (h c (by simp)), ih fun c' hc' => h c' (by simp [hc'])]
    rfl

theorem step_not_term {c : Char} (hc : isTerm c = false) (r : Reader) : (r.step c).2 = [] := by
  cases hr : r.atStart with
  | true => exact step_none hr c
  | false =>
    cases r with
    | startField record => exact fieldStart_none hc record
    | inField record field => exact fieldChar_none hc record field
    | inQuoted record field =>
      unfold step
      simp only
      split <;> rfl
    | quoteInQuoted record field =>
      unfold step
      simp only
      split
      · rfl
      · exact fieldChar_none hc record field
    | _ => cases hr

theorem pending_le (r : Reader) : r.pending ≤ 1 := Bool.toNat_le _

theorem begun_le {cs : List Char} (h : ∀ c ∈ cs, isTerm c = false) (r : Reader) :
    r.begun cs + r.pending ≤ 1 := by
  induction cs generalizing r with
  | nil => simpa [begun] using r.pending_le
  | cons c cs ih =>
    have hrest := ih (fun c' hc' => h c' (by simp [hc'])) (r.step c).1
    have hstep := step_balance r c
    rw [step_not_term (h c (by simp)), List.length_nil] at hstep
    rw [begun]
    omega

theorem begun_split {r : Reader} {cs : List Char} {k : Nat} (h : k < r.begun cs) :
    ∃ before c rest, cs = before ++ c :: rest ∧ (r.run before).1.begins c = true ∧
      r.begun before = k := by
  induction cs generalizing r k with
  | nil => exact absurd h (Nat.not_lt_zero k)
  | cons c cs ih =>
    rw [begun] at h
    by_cases hhere : r.begins c = true ∧ k = 0
    · exact ⟨[], c, cs, rfl, hhere.1, hhere.2.symm⟩
    · have hle : (r.begins c).toNat ≤ k := by
        cases hc : r.begins c with
        | false => exact Nat.zero_le k
        | true => exact Nat.pos_of_ne_zero fun hk => hhere ⟨hc, hk⟩
      obtain ⟨before, c', rest, hcs, hbegins, hbegun⟩ :=
        @ih (r.step c).1 (k - (r.begins c).toNat) (by omega)
      refine ⟨c :: before, c', rest, by rw [hcs]; rfl, ?_, ?_⟩
      · rw [run_cons]
        exact hbegins
      · rw [begun, hbegun]
        omega

end Reader

/-- The lines on which the records begin, from line `n` on. -/
def beginLines : Reader → Nat → List (List Char) → List Nat
  | _, _, [] => []
  | r, n, line :: lines =>
      List.replicate (r.begun line) n ++ beginLines (r.run line).1 (n + 1) lines

theorem beginLines_length (r : Reader) (n : Nat) (lines : List (List Char)) :
    (beginLines r n lines).length = r.begun lines.flatten := by
  induction lines generalizing r n with
  | nil => rfl
  | cons line lines ih =>
    rw [beginLines, List.length_append, List.length_replicate, ih, List.flatten_cons,
      Reader.begun_append]

theorem beginLines_ge {r : Reader} {n m : Nat} {lines : List (List Char)}
    (h : m ∈ beginLines r n lines) : n ≤ m := by
  induction lines generalizing r n with
  | nil => cases h
  | cons line lines ih =>
    rw [beginLines, List.mem_append] at h
    rcases h with h | h
    · exact Nat.le_of_eq (List.eq_of_mem_replicate h).symm
    · exact Nat.le_of_succ_le (ih h)

theorem beginLines_sorted (r : Reader) (n : Nat) (lines : List (List Char)) :
    (beginLines r n lines).Pairwise (· ≤ ·) := by
  induction lines generalizing r n with
  | nil => exact .nil
  | cons line lines ih =>
    rw [beginLines, List.pairwise_append]
    refine ⟨?_, ih _ _, ?_⟩
    · exact List.pairwise_replicate.mpr (.inr (Nat.le_refl n))
    · intro a ha b hb
      rw [List.eq_of_mem_replicate ha]
      exact Nat.le_of_succ_le (beginLines_ge hb)

theorem beginLines_strict {lines : List (List Char)}
    (h : ∀ line ∈ lines, ∀ r : Reader, r.begun line ≤ 1) (r : Reader) (n : Nat) :
    (beginLines r n lines).Pairwise (· < ·) := by
  induction lines generalizing r n with
  | nil => exact .nil
  | cons line lines ih =>
    rw [beginLines, List.pairwise_append]
    refine ⟨?_, ih (fun line' hline => h line' (by simp [hline])) _ _, ?_⟩
    · exact List.pairwise_replicate.mpr (.inl (h line (by simp) r))
    · intro a ha b hb
      rw [List.eq_of_mem_replicate ha]
      exact beginLines_ge hb

/-- The place at which record `k` begins: so many have begun before. -/
theorem beginLines_place {r : Reader} {k n m : Nat} {lines : List (List Char)}
    (h : (beginLines r n lines)[k]? = some m) :
    ∃ before c rest, n ≤ m ∧ lines[m - n]? = some (before ++ c :: rest) ∧
      (r.run ((lines.take (m - n)).flatten ++ before)).1.begins c = true ∧
      r.begun ((lines.take (m - n)).flatten ++ before) = k := by
  induction lines generalizing r k n with
  | nil => cases h
  | cons line lines ih =>
    rw [beginLines] at h
    by_cases hk : k < r.begun line
    · rw [List.getElem?_append_left (by simpa using hk), List.getElem?_replicate, if_pos hk] at h
      obtain rfl := Option.some.inj h
      obtain ⟨before, c, rest, hline, hbegins, hbegun⟩ := Reader.begun_split hk
      refine ⟨before, c, rest, Nat.le_refl n, ?_, ?_, ?_⟩
      · rw [Nat.sub_self, ← hline]
        rfl
      · rw [Nat.sub_self]
        exact hbegins
      · rw [Nat.sub_self]
        exact hbegun
    · have hle : r.begun line ≤ k := Nat.le_of_not_lt hk
      rw [List.getElem?_append_right (by simpa using hle), List.length_replicate] at h
      obtain ⟨before, c, rest, hn, hline, hbegins, hbegun⟩ := ih h
      have hsub : m - n = m - (n + 1) + 1 := by omega
      have hhead : ((line :: lines).take (m - n)).flatten ++ before =
          line ++ ((lines.take (m - (n + 1))).flatten ++ before) := by
        rw [hsub, List.take_succ_cons, List.flatten_cons, List.append_assoc]
      refine ⟨before, c, rest, Nat.le_of_succ_le hn, ?_, ?_, ?_⟩
      · rw [hsub]
        exact hline
      · rw [hhead, Reader.run_append]
        exact hbegins
      · rw [hhead, Reader.begun_append, hbegun]
        omega

theorem parse_drop {k m : Nat} {lines : List (List Char)}
    (h : (beginLines .bof 1 lines)[k]? = some m) :
    ∃ before c rest r, 1 ≤ m ∧ lines[m - 1]? = some (before ++ c :: rest) ∧
      r = (Reader.bof.run ((lines.take (m - 1)).flatten ++ before)).1 ∧ r.begins c = true ∧
      (parse lines.flatten).drop k = r.finish (c :: (rest ++ (lines.drop m).flatten)) := by
  obtain ⟨before, c, rest, hm, hline, hbegins, hbegun⟩ := beginLines_place h
  refine ⟨before, c, rest, _, hm, hline, rfl, hbegins, ?_⟩
  have hlines : lines.flatten =
      ((lines.take (m - 1)).flatten ++ before) ++ c :: (rest ++ (lines.drop m).flatten) := by
    obtain ⟨hlt, hget⟩ := List.getElem?_eq_some_iff.mp hline
    have hdrop : lines.drop (m - 1) = (before ++ c :: rest) :: lines.drop m := by
      rw [List.drop_eq_getElem_cons hlt, hget, Nat.sub_add_cancel hm]
    calc lines.flatten = (lines.take (m - 1) ++ lines.drop (m - 1)).flatten := by
          rw [List.take_append_drop]
      _ = _ := by
          rw [hdrop]
          simp
  have hcount := Reader.run_balance .bof ((lines.take (m - 1)).flatten ++ before)
  have hstart : (Reader.bof.run ((lines.take (m - 1)).flatten ++ before)).1.pending = 0 := by
    unfold Reader.pending
    rw [Reader.begins_atStart hbegins]
    rfl
  have hlength : (Reader.bof.run ((lines.take (m - 1)).flatten ++ before)).2.length = k := by
    rw [hstart, hbegun] at hcount
    exact hcount
  rw [parse, hlines, Reader.finish_append, List.drop_left' hlength]

/-- How many of the numbers from 1 to `n` the list lacks. -/
def lacked (xs : List Nat) (n : Nat) : Nat := (List.range n).countP fun i => (i + 1) ∉ xs

def repeated (xs : List Nat) (k : Nat) : Nat := (List.range k).countP fun i => xs[i]? = xs[i + 1]?

theorem lacked_add {xs : List Nat} {n d : Nat}
    (h : ∀ i, n ≤ i → i < n + d → (i + 1) ∉ xs) : lacked xs (n + d) = lacked xs n + d := by
  induction d with
  | zero => rfl
  | succ d ih =>
    have hhere : lacked xs (n + d + 1) = lacked xs (n + d) + 1 := by
      have hlast := h (n + d) (by omega) (by omega)
      simp [lacked, List.range_succ, hlast]
    rw [← Nat.add_assoc, hhere, ih fun i hi hlt => h i hi (by omega)]
    rfl

theorem lacked_succ_mem {xs : List Nat} {n : Nat} (h : n + 1 ∈ xs) :
    lacked xs (n + 1) = lacked xs n := by
  simp [lacked, List.range_succ, h]

theorem le_of_places {xs : List Nat} (hsorted : xs.Pairwise (· ≤ ·)) {i j m n : Nat}
    (hi : xs[i]? = some m) (hj : xs[j]? = some n) (hij : i ≤ j) : m ≤ n := by
  obtain ⟨hilt, rfl⟩ := List.getElem?_eq_some_iff.mp hi
  obtain ⟨hjlt, rfl⟩ := List.getElem?_eq_some_iff.mp hj
  rcases Nat.eq_or_lt_of_le hij with rfl | hlt
  · exact Nat.le_refl _
  · exact List.pairwise_iff_getElem.mp hsorted i j hilt hjlt hlt

/-- In a list in order, the numbers that it lacks and those that it repeats tell how far a
number is from its place. -/
theorem place_add_lacked {xs : List Nat} (hsorted : xs.Pairwise (· ≤ ·))
    (hpos : ∀ x ∈ xs, 1 ≤ x) {k m : Nat} (h : xs[k]? = some m) :
    k + 1 + lacked xs (m - 1) = m + repeated xs k := by
  induction k generalizing m with
  | zero =>
    have hm := hpos m (List.mem_of_getElem? h)
    have hnone : ∀ i, 0 ≤ i → i < 0 + (m - 1) → (i + 1) ∉ xs := by
      intro i _ hi hmem
      obtain ⟨j, hj⟩ := List.mem_iff_getElem?.mp hmem
      have hle := le_of_places hsorted h hj (Nat.zero_le j)
      omega
    have hlacked := lacked_add hnone
    have hzero : lacked xs 0 = 0 := rfl
    have hrepeated : repeated xs 0 = 0 := rfl
    rw [Nat.zero_add] at hlacked
    omega
  | succ k ih =>
    obtain ⟨hlt, _⟩ := List.getElem?_eq_some_iff.mp h
    obtain ⟨n, hn⟩ : ∃ n, xs[k]? = some n := ⟨_, List.getElem?_eq_getElem (by omega)⟩
    have hbefore := ih hn
    have hnpos := hpos n (List.mem_of_getElem? hn)
    rcases Nat.eq_or_lt_of_le (le_of_places hsorted hn h (Nat.le_succ k)) with rfl | hnm
    · have hrepeated : repeated xs (k + 1) = repeated xs k + 1 := by
        simp [repeated, List.range_succ, hn, h]
      omega
    · have hrepeated : repeated xs (k + 1) = repeated xs k := by
        simp [repeated, List.range_succ, hn, h, Nat.ne_of_lt hnm]
      have hhere : lacked xs n = lacked xs (n - 1) := by
        have hmem : n - 1 + 1 ∈ xs := by
          rw [Nat.sub_add_cancel hnpos]
          exact List.mem_of_getElem? hn
        have hsame := lacked_succ_mem hmem
        rwa [Nat.sub_add_cancel hnpos] at hsame
      have hbetween : ∀ i, n ≤ i → i < n + (m - 1 - n) → (i + 1) ∉ xs := by
        intro i hi hilt hmem
        obtain ⟨j, hj⟩ := List.mem_iff_getElem?.mp hmem
        rcases Nat.lt_or_ge k j with hkj | hjk
        · have hle := le_of_places hsorted h hj hkj
          omega
        · have hle := le_of_places hsorted hj hn hjk
          omega
      have hlacked := lacked_add hbetween
      have hsum : n + (m - 1 - n) = m - 1 := by omega
      rw [hsum] at hlacked
      omega

theorem repeated_strict {xs : List Nat} (hstrict : xs.Pairwise (· < ·)) {k m : Nat}
    (h : xs[k]? = some m) : repeated xs k = 0 := by
  obtain ⟨hk, _⟩ := List.getElem?_eq_some_iff.mp h
  unfold repeated
  rw [List.countP_eq_zero]
  intro i hi
  have hik : i < k := List.mem_range.mp hi
  have hlt := List.pairwise_iff_getElem.mp hstrict i (i + 1) (by omega) (by omega) (by omega)
  rw [List.getElem?_eq_getElem (by omega), List.getElem?_eq_getElem (by omega)]
  simp [Nat.ne_of_lt hlt]

theorem lacked_eq_zero {xs : List Nat} {n : Nat} :
    lacked xs n = 0 ↔ ∀ m, 1 ≤ m → m ≤ n → m ∈ xs := by
  unfold lacked
  rw [List.countP_eq_zero]
  constructor
  · intro h m hm hle
    have hmem := h (m - 1) (List.mem_range.mpr (by omega))
    rw [Nat.sub_add_cancel hm] at hmem
    simpa using hmem
  · intro h i hi
    have hmem := h (i + 1) (by omega) (List.mem_range.mp hi)
    simpa using hmem

end CvdBench.Foundation.Csv
