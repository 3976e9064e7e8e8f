import Mathlib

/-!
Whole numbers in binary64: how they get in, what a product with a factor makes of them, and how
they get out again. Only numbers from one on are looked at, so no result is subnormal.
-/

set_option autoImplicit false

namespace CvdBench.Foundation.Binary64

open Float.Model Float.Model.UnpackedFloat

variable {m n k : Nat} {e : Int}

theorem shiftRight_succ (em : ExtendedMantissa) (k : Nat) :
    em >>> (k + 1) = (em >>> k).shiftRightOne := rfl

theorem mantissa_shiftRight (em : ExtendedMantissa) (k : Nat) :
    (em >>> k).mantissa = em.mantissa / 2 ^ k := by
  induction k with
  | zero =>
    rw [Nat.pow_zero, Nat.div_one]
    rfl
  | succ k ih =>
    rw [shiftRight_succ, Nat.pow_succ, ← Nat.div_div_eq_div_mul, ← ih]
    rfl

theorem shiftRight_of_dvd (h : 2 ^ k ∣ m) :
    (⟨m, false, false⟩ : ExtendedMantissa) >>> k = ⟨m / 2 ^ k, false, false⟩ := by
  induction k with
  | zero =>
    rw [Nat.pow_zero, Nat.div_one]
    rfl
  | succ k ih =>
    obtain ⟨c, hc⟩ := h
    have hquot : m / 2 ^ k = 2 * c := by
      rw [hc, Nat.pow_succ, Nat.mul_assoc, Nat.mul_div_cancel_left _ (Nat.two_pow_pos k)]
    have hnext : m / 2 ^ (k + 1) = c := by
      rw [hc, Nat.mul_div_cancel_left _ (Nat.two_pow_pos _)]
    rw [shiftRight_succ, ih (Dvd.dvd.trans (Nat.pow_dvd_pow 2 (Nat.le_succ k)) ⟨c, hc⟩), hquot,
      hnext]
    simp [ExtendedMantissa.shiftRightOne]

theorem roundedMantissa_bounds (em : ExtendedMantissa) :
    em.mantissa ≤ em.roundedMantissa ∧ em.roundedMantissa ≤ em.mantissa + 1 := by
  obtain ⟨m, round, sticky⟩ := em
  cases round <;> cases sticky <;>
    simp only [ExtendedMantissa.roundedMantissa, ExtendedMantissa.accuracy,
      Accuracy.roundToNearestEven] <;> omega

def rounded (m : Nat) : Nat :=
  ((⟨m, false, false⟩ : ExtendedMantissa) >>> (m.log2 - 52)).roundedMantissa

theorem ne_zero_of_log2 (h : 52 ≤ m.log2) : m ≠ 0 := by
  rintro rfl
  exact absurd h (by decide)

theorem log2_bounds (h : 52 ≤ m.log2) :
    2 ^ 52 ≤ m / 2 ^ (m.log2 - 52) ∧ m / 2 ^ (m.log2 - 52) < 2 ^ 53 := by
  have hpow : 2 ^ 52 * 2 ^ (m.log2 - 52) = 2 ^ m.log2 := by
    rw [← Nat.pow_add, Nat.add_sub_cancel' h]
  have hpow' : 2 ^ 53 * 2 ^ (m.log2 - 52) = 2 ^ (m.log2 + 1) := by
    rw [← Nat.pow_add]
    congr 1
    omega
  constructor
  · rw [Nat.le_div_iff_mul_le (Nat.two_pow_pos _), hpow]
    exact Nat.log2_self_le (ne_zero_of_log2 h)
  · rw [Nat.div_lt_iff_lt_mul (Nat.two_pow_pos _), hpow']
    exact Nat.lt_log2_self

theorem rounded_bounds (h : 52 ≤ m.log2) : 2 ^ 52 ≤ rounded m ∧ rounded m ≤ 2 ^ 53 := by
  obtain ⟨hlow, hhigh⟩ := log2_bounds h
  have hround := roundedMantissa_bounds
    ((⟨m, false, false⟩ : ExtendedMantissa) >>> (m.log2 - 52))
  rw [mantissa_shiftRight] at hround
  exact ⟨hlow.trans hround.1, hround.2.trans hhigh⟩

/-- A float not below one, as it comes out of a packed one. -/
inductive FromOne : UnpackedFloat → Prop where
  | infinity : FromOne (.infinity .positive)
  | finite (m : Nat) (e : Int) (h : 0 < m) (low : 2 ^ 52 ≤ m) (high : m < 2 ^ 53)
      (one : -52 ≤ e) : FromOne (.finite .positive m e h)

/-- The float is at least the whole number. -/
inductive Reaches (n : Nat) : UnpackedFloat → Prop where
  | infinity : Reaches n (.infinity .positive)
  | finite (m : Nat) (e : Int) (h : 0 < m) (le : (n : ℚ) ≤ m * 2 ^ e) :
      Reaches n (.finite .positive m e h)

/-- The float is the whole number. -/
inductive Is (n : Nat) : UnpackedFloat → Prop where
  | finite (m : Nat) (e : Int) (h : 0 < m) (eq : (n : ℚ) = m * 2 ^ e) :
      Is n (.finite .positive m e h)

theorem Is.reaches {x : UnpackedFloat} (h : Is n x) : Reaches n x := by
  cases h with
  | finite m e h eq => exact .finite m e h eq.le

theorem log2_of_normal (low : 2 ^ 52 ≤ m) (high : m < 2 ^ 53) : m.log2 = 52 :=
  (Nat.log2_eq_iff (by omega)).mpr ⟨low, high⟩

theorem shiftToTargetExponent_exact (hshift : 52 ≤ m.log2) (he : 0 ≤ (m.log2 : Int) + e) :
    shiftToTargetExponent Format.binary64 m e .exact =
      ((⟨m, false, false⟩ : ExtendedMantissa) >>> (m.log2 - 52), e + (m.log2 - 52 : Nat)) := by
  have htarget : (Format.binary64.targetExponent (totalExponent m e) - e).toNat =
      m.log2 - 52 := by
    simp only [Format.targetExponent, totalExponent, Format.mantissaBits, Format.minExponent]
    omega
  unfold shiftToTargetExponent shiftToExponent
  simp only [htarget]
  rfl

/-- Rounding may carry into a mantissa one bit too long, which is shifted once more. -/
theorem roundWithAccuracy_eq (hshift : 52 ≤ m.log2) (he : 0 ≤ (m.log2 : Int) + e) :
    ∃ m' e' h', roundWithAccuracy Format.binary64 .positive m e .exact =
        .finite .positive m' e' h' ∧
      2 ^ 52 ≤ m' ∧ m' < 2 ^ 53 ∧ -52 ≤ e' ∧
      (m' : ℚ) * 2 ^ e' = rounded m * 2 ^ (e + (m.log2 - 52 : Nat)) := by
  obtain ⟨hlow, hhigh⟩ := rounded_bounds hshift
  have hlog : 52 ≤ (rounded m).log2 := (Nat.le_log2 (by omega)).mpr hlow
  obtain ⟨hlow', hhigh'⟩ := log2_bounds hlog
  have hne : rounded m / 2 ^ ((rounded m).log2 - 52) ≠ 0 := by omega
  refine ⟨rounded m / 2 ^ ((rounded m).log2 - 52),
    e + (m.log2 - 52 : Nat) + ((rounded m).log2 - 52 : Nat), Nat.pos_of_ne_zero hne, ?_, hlow',
    hhigh', by omega, ?_⟩
  · unfold roundWithAccuracy
    rw [shiftToTargetExponent_exact hshift he]
    change (match shiftToTargetExponent Format.binary64 (rounded m)
      (e + (m.log2 - 52 : Nat)) .exact with
      | (em, e') => if h : em.mantissa = 0 then UnpackedFloat.zero .positive
        else .finite .positive em.mantissa e' (Nat.pos_of_ne_zero h)) = _
    rw [shiftToTargetExponent_exact hlog (by omega)]
    simp only [mantissa_shiftRight, hne, ↓reduceDIte]
  · rcases Nat.lt_or_eq_of_le hhigh with hlt | heq
    · rw [log2_of_normal hlow hlt]
      simp
    · have hhalf : (2 ^ 53 / 2 ^ (53 - 52) : Nat) = 2 ^ 52 := by decide
      rw [heq, Nat.log2_two_pow, hhalf, zpow_add₀ two_ne_zero _ ((53 - 52 : Nat) : Int)]
      push_cast
      ring

theorem zpow_neg_toNat (he : e ≤ 0) : (2 : ℚ) ^ e * 2 ^ (-e).toNat = 1 := by
  rw [← zpow_natCast, Int.toNat_of_nonneg (by omega), ← zpow_add₀ two_ne_zero, Int.add_right_neg,
    zpow_zero]

theorem two_le_zpow (he : 0 < e) : (2 : ℚ) ≤ 2 ^ e := by
  calc (2 : ℚ) = 2 ^ (1 : Int) := (zpow_one 2).symm
    _ ≤ 2 ^ e := zpow_le_zpow_right₀ one_le_two he

theorem natCast_le_iff (he : e ≤ 0) : (n : ℚ) ≤ m * 2 ^ e ↔ n * 2 ^ (-e).toNat ≤ m := by
  have hpos : (0 : ℚ) < 2 ^ (-e).toNat := by positivity
  rw [← mul_le_mul_iff_left₀ hpos, mul_assoc, zpow_neg_toNat he, mul_one]
  exact_mod_cast Iff.rfl

theorem natCast_eq_iff (he : e ≤ 0) : (n : ℚ) = m * 2 ^ e ↔ n * 2 ^ (-e).toNat = m := by
  have hpos : (2 : ℚ) ^ (-e).toNat ≠ 0 := by positivity
  rw [← mul_left_inj' hpos, mul_assoc, zpow_neg_toNat he, mul_one]
  exact_mod_cast Iff.rfl

/-- A whole number of 53 bits below the exact value is below the rounded one: the bits cut off
are below its last one. -/
theorem le_rounded (hn : n ≤ 2 ^ 53) (hshift : 52 ≤ m.log2) (hle : (n : ℚ) ≤ m * 2 ^ e) :
    (n : ℚ) ≤ rounded m * 2 ^ (e + (m.log2 - 52 : Nat)) := by
  have hround := (roundedMantissa_bounds
    ((⟨m, false, false⟩ : ExtendedMantissa) >>> (m.log2 - 52))).1
  rw [mantissa_shiftRight] at hround
  change m / 2 ^ (m.log2 - 52) ≤ rounded m at hround
  obtain ⟨hlow, _⟩ := rounded_bounds hshift
  generalize m.log2 - 52 = k at *
  rcases lt_or_ge 0 (e + k) with hpos | hneg
  · have hbase : (2 ^ 52 : ℚ) ≤ rounded m := by exact_mod_cast hlow
    have htwo : (2 : ℚ) ≤ 2 ^ (e + k : Int) := two_le_zpow hpos
    calc (n : ℚ) ≤ 2 ^ 52 * 2 := by
          norm_num
          exact_mod_cast hn
      _ ≤ rounded m * 2 ^ (e + k : Int) := by gcongr
  · rw [natCast_le_iff hneg]
    rw [natCast_le_iff (by omega)] at hle
    refine le_trans ?_ hround
    rw [Nat.le_div_iff_mul_le (Nat.two_pow_pos _), Nat.mul_assoc, ← Nat.pow_add]
    have hsum : (-(e + k)).toNat + k = (-e).toNat := by omega
    rw [hsum]
    exact hle

theorem rounded_of_dvd (h : 2 ^ (m.log2 - 52) ∣ m) : rounded m = m / 2 ^ (m.log2 - 52) := by
  unfold rounded
  rw [shiftRight_of_dvd h]
  rfl

theorem shift_dvd (hn : n ≤ 2 ^ 53) (hshift : 52 ≤ m.log2) (heq : (n : ℚ) = m * 2 ^ e) :
    2 ^ (m.log2 - 52) ∣ m := by
  have hne : m ≠ 0 := ne_zero_of_log2 hshift
  rcases lt_or_ge 0 e with hpos | hneg
  · have hsmall : m * 2 ≤ 2 ^ 53 := by
      have htwo : (2 : ℚ) ≤ 2 ^ e := two_le_zpow hpos
      have hle : (m : ℚ) * 2 ≤ n := by
        rw [heq]
        gcongr
      exact (by exact_mod_cast hle : m * 2 ≤ n).trans hn
    have hlog : m.log2 < 53 := (Nat.log2_lt hne).mpr (by omega)
    rw [Nat.sub_eq_zero_of_le (by omega), Nat.pow_zero]
    exact Nat.one_dvd m
  · rw [natCast_eq_iff hneg] at heq
    generalize (-e).toNat = j at *
    rcases Nat.lt_or_eq_of_le hn with hlt | hfull
    · have hlog : m.log2 < 53 + j := by
        rw [Nat.log2_lt hne, ← heq, Nat.pow_add]
        exact Nat.mul_lt_mul_of_pos_right hlt (Nat.two_pow_pos j)
      have hshort : m.log2 - 52 ≤ j := by omega
      have hbits : 2 ^ j ∣ m := ⟨n, heq.symm.trans (Nat.mul_comm n _)⟩
      exact (Nat.pow_dvd_pow 2 hshort).trans hbits
    · rw [← heq, hfull, ← Nat.pow_add, Nat.log2_two_pow]
      exact Nat.pow_dvd_pow 2 (by omega)

theorem eq_rounded (hn : n ≤ 2 ^ 53) (hshift : 52 ≤ m.log2) (heq : (n : ℚ) = m * 2 ^ e) :
    (n : ℚ) = rounded m * 2 ^ (e + (m.log2 - 52 : Nat)) := by
  have hdvd := shift_dvd hn hshift heq
  have hquot : ((m / 2 ^ (m.log2 - 52) : Nat) : ℚ) * 2 ^ (m.log2 - 52) = m := by
    exact_mod_cast Nat.div_mul_cancel hdvd
  calc (n : ℚ) = m * 2 ^ e := heq
    _ = (m / 2 ^ (m.log2 - 52) : Nat) * 2 ^ (m.log2 - 52) * 2 ^ e := by rw [hquot]
    _ = rounded m * 2 ^ (e + (m.log2 - 52 : Nat)) := by
      rw [rounded_of_dvd hdvd, zpow_add₀ two_ne_zero, zpow_natCast]
      ring

theorem toNat_implicit (v : BitVec 52) : (1#1 ++ v).toNat = 2 ^ 52 + v.toNat := by
  rw [BitVec.toNat_append, ← Nat.shiftLeft_add_eq_or_of_lt v.isLt]
  rfl

theorem unpack_packedInfinity (sign : Sign) :
    UnpackedFloat.unpack Format.binary64 (packedInfinity Format.binary64 sign) =
      .infinity sign := by
  cases sign <;> rfl

theorem unpack_pack (low : 2 ^ 52 ≤ m) (high : m < 2 ^ 53) (one : -52 ≤ e) (h : 0 < m) :
    (Float.Model.pack (.finite .positive m e h)).unpack =
      if e ≤ 971 then .finite .positive m e h else .infinity .positive := by
  change UnpackedFloat.unpack Format.binary64
    (UnpackedFloat.pack Format.binary64 (.finite .positive m e h)) = _
  have hbias : (e + Format.binary64.exponentBias +
      Format.binary64.mantissaBitsWithoutImplicit).toNat = (e + 1075).toNat := by
    simp only [Format.exponentBias]
    omega
  unfold UnpackedFloat.pack
  simp only [hbias]
  rcases le_or_gt e 971 with hle | hgt
  · have hfits : ¬ 2 ^ 11 ≤ (e + 1075).toNat + 1 := by omega
    have hbits : m.log2 + 1 = Format.binary64.mantissaBits := by
      rw [log2_of_normal low high]
      rfl
    rw [if_neg hfits, if_pos hbits, if_pos hle]
    unfold UnpackedFloat.unpack
    simp only [unpackExponent_packComponents, unpackMantissa_packComponents,
      unpackSign_packComponents, Sign.ofBitVec_toBitVec]
    have hexp : (BitVec.ofNat 11 (e + 1075).toNat).toNat = (e + 1075).toNat := by
      rw [BitVec.toNat_ofNat, Nat.mod_eq_of_lt (by omega)]
    have hfull : BitVec.ofNat 11 (e + 1075).toNat ≠ -1#11 := by
      intro hbits
      rw [hbits] at hexp
      have hlast : (-1#11).toNat = 2047 := rfl
      omega
    have hzero : BitVec.ofNat 11 (e + 1075).toNat ≠ 0#11 := by
      intro hbits
      rw [hbits] at hexp
      have hlast : (0#11).toNat = 0 := rfl
      omega
    rw [if_neg hfull, if_neg hzero]
    congr 1
    · rw [toNat_implicit, BitVec.toNat_ofNat]
      omega
    · rw [hexp]
      simp only [Format.exponentBias]
      omega
  · have hlarge : 2 ^ 11 ≤ (e + 1075).toNat + 1 := by omega
    rw [if_pos hlarge, if_neg (by omega)]
    exact unpack_packedInfinity .positive

theorem unpack_finite (x : Float.Model) {sign : Sign} {h : 0 < m}
    (hx : x.unpack = .finite sign m e h) (hone : -52 ≤ e) : 2 ^ 52 ≤ m ∧ m < 2 ^ 53 := by
  unfold Float.Model.unpack UnpackedFloat.unpack at hx
  simp only at hx
  split at hx
  · split at hx <;> cases hx
  · split at hx
    · next hzero =>
      split at hx
      · cases hx
      · cases hx
        rw [hzero] at hone
        exact absurd hone (by decide)
    · cases hx
      have hlt : (@unpackMantissa Format.binary64 x.toBits.toBitVec).toNat < 2 ^ 52 :=
        BitVec.isLt _
      rw [toNat_implicit]
      exact ⟨Nat.le_add_right _ _, by omega⟩

theorem unpack_pack_round (hshift : 52 ≤ m.log2) (he : 0 ≤ (m.log2 : Int) + e) :
    let x := (Float.Model.pack (roundWithAccuracy Format.binary64 .positive m e .exact)).unpack
    FromOne x ∧ ∀ n : Nat, n ≤ 2 ^ 53 →
      ((n : ℚ) ≤ m * 2 ^ e → Reaches n x) ∧ ((n : ℚ) = m * 2 ^ e → Is n x) := by
  obtain ⟨m', e', h', hround, low, high, one, hvalue⟩ := roundWithAccuracy_eq hshift he
  simp only [hround, unpack_pack low high one]
  rcases le_or_gt e' 971 with hle | hgt
  · rw [if_pos hle]
    refine ⟨.finite m' e' h' low high one, fun n hn => ⟨fun hexact => ?_, fun hexact => ?_⟩⟩
    · exact .finite m' e' h' (by rw [hvalue]; exact le_rounded hn hshift hexact)
    · exact .finite m' e' h' (by rw [hvalue]; exact eq_rounded hn hshift hexact)
  · rw [if_neg (not_le.mpr hgt)]
    refine ⟨.infinity, fun n hn => ⟨fun _ => .infinity, fun hexact => ?_⟩⟩
    -- a whole number of 53 bits is never so large
    have heq : (n : ℚ) = m' * 2 ^ e' := by
      rw [hvalue]
      exact eq_rounded hn hshift hexact
    have hlarge : (2 ^ 52 : ℚ) * 2 ^ (2 : Int) ≤ m' * 2 ^ e' := by
      have hpow : (2 : ℚ) ^ (2 : Int) ≤ 2 ^ e' := zpow_le_zpow_right₀ one_le_two (by omega)
      have hlow : (2 ^ 52 : ℚ) ≤ m' := by exact_mod_cast low
      gcongr
    rw [← heq] at hlarge
    have hn' : (n : ℚ) ≤ 2 ^ 53 := by exact_mod_cast hn
    norm_num at hlarge hn'
    linarith

def ofNat (n : Nat) : Float := .ofModel (Float.Model.ofNat n)

theorem ofNat_eq (hpos : 0 < n) : ofNat n = .ofModel (.pack (roundWithAccuracy Format.binary64
    .positive (n * 2 ^ (52 - n.log2)) (-(52 - n.log2 : Nat)) .exact)) := by
  have hcompare : compare (n : Int) 0 = .gt := by
    rw [Int.compare_eq_gt]
    omega
  have htarget : (-Format.binary64.targetExponent (totalExponent n 0)).toNat = 52 - n.log2 := by
    simp only [Format.targetExponent, totalExponent, Format.mantissaBits, Format.minExponent]
    omega
  unfold ofNat Float.Model.ofNat UnpackedFloat.ofNat UnpackedFloat.ofInt UnpackedFloat.normalize
  rw [hcompare]
  simp only [UnpackedFloat.round, decreaseExponent, Int.toNat_natCast, Int.zero_sub, htarget,
    Nat.shiftLeft_eq]

theorem ofNat_unpack (hpos : 0 < n) : FromOne (ofNat n).toModel.unpack ∧
    Reaches (min n (2 ^ 53)) (ofNat n).toModel.unpack ∧
    (n ≤ 2 ^ 53 → Is n (ofNat n).toModel.unpack) := by
  have hne : n ≠ 0 := Nat.pos_iff_ne_zero.mp hpos
  have hlog : (n * 2 ^ (52 - n.log2)).log2 = n.log2 + (52 - n.log2) := by
    rw [Nat.log2_eq_iff (Nat.mul_ne_zero hne (Nat.two_pow_pos _).ne'), Nat.pow_add,
      Nat.add_right_comm, Nat.pow_add]
    exact ⟨Nat.mul_le_mul_right _ (Nat.log2_self_le hne),
      Nat.mul_lt_mul_of_pos_right Nat.lt_log2_self (Nat.two_pow_pos _)⟩
  have hvalue : (n : ℚ) =
      (n * 2 ^ (52 - n.log2) : Nat) * 2 ^ (-((52 - n.log2 : Nat) : Int)) := by
    rw [Nat.cast_mul, Nat.cast_pow, Nat.cast_ofNat, zpow_neg, zpow_natCast]
    field_simp
  rw [ofNat_eq hpos]
  obtain ⟨hone, hround⟩ := unpack_pack_round (m := n * 2 ^ (52 - n.log2))
    (e := -(52 - n.log2 : Nat)) (by omega) (by omega)
  refine ⟨hone, (hround _ (Nat.min_le_right _ _)).1 ?_, fun hle => (hround n hle).2 hvalue⟩
  rw [← hvalue]
  exact_mod_cast Nat.min_le_left _ _

theorem FromOne.reaches {x : UnpackedFloat} (h : FromOne x) : Reaches 1 x := by
  cases h with
  | infinity => exact .infinity
  | finite m e h low high one =>
    refine .finite m e h ?_
    have hlow : (2 ^ 52 : ℚ) ≤ m := by exact_mod_cast low
    calc ((1 : Nat) : ℚ) = 2 ^ 52 * 2 ^ (-52 : Int) := by norm_num
      _ ≤ m * 2 ^ e := by
        have hpow : (2 : ℚ) ^ (-52 : Int) ≤ 2 ^ e := zpow_le_zpow_right₀ one_le_two one
        gcongr

theorem mul_unpack {x y : Float} (hx : FromOne x.toModel.unpack) (hy : FromOne y.toModel.unpack)
    (n k : Nat) :
    (Reaches n x.toModel.unpack → Reaches k y.toModel.unpack →
      Reaches (min (n * k) (2 ^ 53)) (x * y).toModel.unpack) ∧
    (Is n x.toModel.unpack → Is k y.toModel.unpack → n * k ≤ 2 ^ 53 →
      Is (n * k) (x * y).toModel.unpack) := by
  change (_ → _ → Reaches _ (Float.Model.pack (UnpackedFloat.mul Format.binary64
    x.toModel.unpack y.toModel.unpack)).unpack) ∧ (_ → _ → _ → Is _ (Float.Model.pack
      (UnpackedFloat.mul Format.binary64 x.toModel.unpack y.toModel.unpack)).unpack)
  generalize x.toModel.unpack = x at *
  generalize y.toModel.unpack = y at *
  have hinf : ∀ j, Reaches j (Float.Model.pack (.infinity .positive)).unpack := fun j =>
    (unpack_packedInfinity .positive : (Float.Model.pack (.infinity .positive)).unpack = _) ▸
      .infinity
  cases hx with
  | infinity =>
    refine ⟨fun _ _ => ?_, fun h => by cases h⟩
    cases hy with
    | infinity => exact hinf _
    | finite => exact hinf _
  | finite m₁ e₁ h₁ low₁ high₁ one₁ =>
    cases hy with
    | infinity => exact ⟨fun _ _ => hinf _, fun _ h => by cases h⟩
    | finite m₂ e₂ h₂ low₂ high₂ one₂ =>
      have hlog : 104 ≤ (m₁ * m₂).log2 := by
        rw [Nat.le_log2 (Nat.mul_pos h₁ h₂).ne', Nat.pow_add 2 52 52]
        exact Nat.mul_le_mul low₁ low₂
      have hvalue : ((m₁ * m₂ : Nat) : ℚ) * 2 ^ (e₁ + e₂) = m₁ * 2 ^ e₁ * (m₂ * 2 ^ e₂) := by
        rw [Nat.cast_mul, zpow_add₀ two_ne_zero]
        ring
      obtain ⟨_, hround⟩ := unpack_pack_round (m := m₁ * m₂) (e := e₁ + e₂) (by omega) (by omega)
      refine ⟨fun hn hk => (hround _ (Nat.min_le_right _ _)).1 ?_,
        fun hn hk hle => (hround _ hle).2 ?_⟩
      · cases hn with
        | finite _ _ _ hn =>
          cases hk with
          | finite _ _ _ hk =>
            rw [hvalue]
            calc ((min (n * k) (2 ^ 53) : Nat) : ℚ) ≤ (n * k : Nat) := by
                  exact_mod_cast Nat.min_le_left _ _
              _ = n * k := Nat.cast_mul n k
              _ ≤ m₁ * 2 ^ e₁ * (m₂ * 2 ^ e₂) := by gcongr
      · cases hn with
        | finite _ _ _ hn =>
          cases hk with
          | finite _ _ _ hk => rw [hvalue, Nat.cast_mul, hn, hk]

theorem roundToInt_eq (m : Nat) (e : Int) :
    (roundToInt .positive m e).toNat = m * 2 ^ e.toNat / 2 ^ (-e).toNat := by
  unfold roundToInt decreaseExponent shiftToExponent
  simp only [ExtendedMantissa.ofMantissaAndAccuracy, mantissa_shiftRight, Sign.apply,
    Int.toNat_natCast, Int.sub_zero, Nat.shiftLeft_eq]
  congr 2
  omega

theorem value_of_pos (he : 0 < e) : (m : ℚ) * 2 ^ e = (m * 2 ^ e.toNat : Nat) := by
  rw [Nat.cast_mul, Nat.cast_pow, Nat.cast_ofNat, ← zpow_natCast, Int.toNat_of_nonneg he.le]

theorem le_floor (h : (n : ℚ) ≤ m * 2 ^ e) : n ≤ m * 2 ^ e.toNat / 2 ^ (-e).toNat := by
  rcases lt_or_ge 0 e with hpos | hneg
  · rw [value_of_pos hpos] at h
    rw [Int.toNat_of_nonpos (by omega : -e ≤ 0), Nat.pow_zero, Nat.div_one]
    exact_mod_cast h
  · rw [natCast_le_iff hneg] at h
    rw [Int.toNat_of_nonpos hneg, Nat.pow_zero, Nat.mul_one,
      Nat.le_div_iff_mul_le (Nat.two_pow_pos _)]
    exact h

theorem eq_floor (h : (n : ℚ) = m * 2 ^ e) : m * 2 ^ e.toNat / 2 ^ (-e).toNat = n := by
  rcases lt_or_ge 0 e with hpos | hneg
  · rw [value_of_pos hpos] at h
    rw [Int.toNat_of_nonpos (by omega : -e ≤ 0), Nat.pow_zero, Nat.div_one]
    exact_mod_cast h.symm
  · rw [natCast_eq_iff hneg] at h
    rw [Int.toNat_of_nonpos hneg, Nat.pow_zero, Nat.mul_one, ← h,
      Nat.mul_div_cancel _ (Nat.two_pow_pos _)]

theorem toNat_ofNatClamp (n : Nat) : (UInt64.ofNatClamp n).toNat = min n (2 ^ 64 - 1) := by
  have hsize : UInt64.size = 2 ^ 64 := rfl
  rcases Nat.lt_or_ge n (2 ^ 64) with hlt | hge
  · rw [UInt64.ofNatClamp_eq_ofNat n hlt, UInt64.toNat_ofNat_of_lt' hlt]
    omega
  · unfold UInt64.ofNatClamp
    rw [dif_neg (by omega : ¬ n < UInt64.size), UInt64.toNat_ofNatLT]
    exact (Nat.min_eq_right (by omega)).symm

theorem toUInt64_of_reaches {x : Float} (h : Reaches n x.toModel.unpack) (hn : n < 2 ^ 64) :
    n ≤ x.toUInt64.toNat := by
  change n ≤ x.toModel.unpack.toUInt64.toNat
  generalize x.toModel.unpack = x at *
  unfold UnpackedFloat.toUInt64
  rw [toNat_ofNatClamp]
  refine Nat.le_min.mpr ⟨?_, by omega⟩
  cases h with
  | infinity =>
    change n ≤ 2 ^ 64 - 1
    omega
  | finite m e _ hle =>
    change n ≤ (roundToInt .positive m e).toNat
    rw [roundToInt_eq]
    exact le_floor hle

theorem toUInt64_of_is {x : Float} (h : Is n x.toModel.unpack) (hn : n < 2 ^ 64) :
    x.toUInt64.toNat = n := by
  change x.toModel.unpack.toUInt64.toNat = n
  generalize x.toModel.unpack = x at *
  unfold UnpackedFloat.toUInt64
  rw [toNat_ofNatClamp]
  cases h with
  | finite m e _ heq =>
    change min (roundToInt .positive m e).toNat _ = n
    rw [roundToInt_eq, eq_floor heq]
    omega

theorem one_unpack :
    (1.0 : Float).toModel.unpack = .finite .positive (2 ^ 52) (-52) (by decide) := rfl

theorem one_isNaN : (1.0 : Float).isNaN = false := rfl

theorem one_fromOne : FromOne (1.0 : Float).toModel.unpack := by
  rw [one_unpack]
  exact .finite _ _ _ (by decide) (by decide) (by decide)

theorem fromOne_of_not_lt {x : Float} (hnan : x.isNaN = false) (h : ¬ x < 1.0) :
    FromOne x.toModel.unpack := by
  have hcompare : x.toModel.unpack.compare (.finite .positive (2 ^ 52) (-52) (by decide)) ≠
      some .lt := by
    intro heq
    have hlt : x.toModel.unpack.lt (1.0 : Float).toModel.unpack = true := by
      rw [one_unpack]
      unfold UnpackedFloat.lt
      rw [heq]
      rfl
    exact h (decide_eq_true hlt)
  change x.toModel.unpack.isNaN = false at hnan
  cases hx : x.toModel.unpack with
  | notANumber =>
    rw [hx] at hnan
    cases hnan
  | infinity sign =>
    rw [hx] at hcompare
    cases sign with
    | positive => exact .infinity
    | negative => exact absurd rfl hcompare
  | zero sign =>
    rw [hx] at hcompare
    exact absurd rfl hcompare
  | finite sign m e hm =>
    rw [hx] at hcompare
    cases sign with
    | negative => exact absurd rfl hcompare
    | positive =>
      have hone : -52 ≤ e := by
        by_contra hlt
        have he : compare e (-52) = .lt := Int.compare_eq_lt.mpr (by omega)
        refine hcompare ?_
        simp only [UnpackedFloat.compare, he]
        rfl
      obtain ⟨low, high⟩ := unpack_finite x.toModel hx hone
      exact .finite m e hm low high hone

/-- The larger of two floats; a NaN gives way to the other. -/
def max (x y : Float) : Float :=
  if x.isNaN then y else if y.isNaN then x else if x < y then y else x

theorem max_one_fromOne (x : Float) : FromOne (max x 1.0).toModel.unpack := by
  unfold max
  rcases hnan : x.isNaN with _ | _
  · rw [if_neg Bool.false_ne_true, one_isNaN, if_neg Bool.false_ne_true]
    split
    · exact one_fromOne
    · next hge => exact fromOne_of_not_lt hnan hge
  · exact one_fromOne

theorem max_one_of_fromOne {x : Float} (h : FromOne x.toModel.unpack) : max x 1.0 = x := by
  have hnan : x.isNaN = false := by
    change x.toModel.unpack.isNaN = false
    generalize x.toModel.unpack = x at *
    cases h <;> rfl
  have hge : ¬ x < 1.0 := by
    intro hlt
    have hlt' : x.toModel.unpack.lt (1.0 : Float).toModel.unpack = true := of_decide_eq_true hlt
    rw [one_unpack] at hlt'
    unfold UnpackedFloat.lt at hlt'
    generalize x.toModel.unpack = x at *
    cases h with
    | infinity => exact absurd hlt' (by decide)
    | finite m e h low high one =>
      have horder : ((compare e (-52)).then (compare m (2 ^ 52))) ≠ .lt := by
        rcases Int.lt_or_eq_of_le one with hlt | heq
        · rw [Int.compare_eq_gt.mpr hlt]
          exact fun h => by cases h
        · rw [← heq, Int.compare_eq_eq.mpr rfl]
          exact fun h => absurd (Nat.compare_eq_lt.mp h) (Nat.not_lt.mpr low)
      simp only [UnpackedFloat.compare, beq_iff_eq, Option.some.injEq] at hlt'
      exact horder hlt'
  unfold max
  rw [hnan, if_neg Bool.false_ne_true, one_isNaN, if_neg Bool.false_ne_true, if_neg hge]

theorem max_ofNat_one (k : Nat) : max (ofNat k) 1.0 = ofNat (Nat.max k 1) := by
  rcases Nat.eq_zero_or_pos k with rfl | hpos
  · rfl
  · rw [max_one_of_fromOne (ofNat_unpack hpos).1]
    exact congrArg ofNat (Nat.max_eq_left hpos).symm

theorem le_mul (hn : n ≤ 2 ^ 53) {f : Float} (hf : FromOne f.toModel.unpack) :
    n ≤ (ofNat n * f).toUInt64.toNat := by
  rcases Nat.eq_zero_or_pos n with rfl | hpos
  · exact Nat.zero_le _
  · obtain ⟨hone, _, his⟩ := ofNat_unpack hpos
    have hreaches := (mul_unpack hone hf n 1).1 (his hn).reaches hf.reaches
    rw [Nat.mul_one, Nat.min_eq_left hn] at hreaches
    exact toUInt64_of_reaches hreaches (by omega)

theorem min_mul_ofNat (hpos : 0 < n) (hn : n ≤ 2 ^ 53) (hk : 0 < k) {bound : Nat}
    (hbound : bound ≤ 2 ^ 53) :
    min (ofNat n * ofNat k).toUInt64.toNat bound = min (n * k) bound := by
  obtain ⟨hone, _, his⟩ := ofNat_unpack hpos
  obtain ⟨hone', hreaches', his'⟩ := ofNat_unpack hk
  rcases Nat.lt_or_ge (2 ^ 53) (n * k) with hlarge | hsmall
  · have hreaches := (mul_unpack hone hone' n _).1 (his hn).reaches hreaches'
    have hfull : 2 ^ 53 ≤ n * min k (2 ^ 53) := by
      rw [← Nat.mul_min_mul_left]
      exact Nat.le_min.mpr ⟨hlarge.le, Nat.le_mul_of_pos_left _ hpos⟩
    rw [Nat.min_eq_right hfull] at hreaches
    have hge := toUInt64_of_reaches hreaches (by decide)
    omega
  · have hk' : k ≤ 2 ^ 53 := (Nat.le_mul_of_pos_left k hpos).trans hsmall
    have hexact := (mul_unpack hone hone' n k).2 (his hn) (his' hk') hsmall
    rw [toUInt64_of_is hexact (by omega)]

end CvdBench.Foundation.Binary64
