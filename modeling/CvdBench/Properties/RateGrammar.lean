import CvdBench.Properties.DurationGrammar

/-!
The size parser accepts exactly its grammar, and the rate parser does where no plus sign
stands before a number of operations.
-/

set_option autoImplicit false

namespace CvdBench.Spec

inductive Scale where
  | one | k | m | g | t | ki | mi | gi | ti
  deriving DecidableEq, Repr

def Scale.letters : Scale → List Char
  | .one => []
  | .k => ['K']
  | .m => ['M']
  | .g => ['G']
  | .t => ['T']
  | .ki => ['K', 'i']
  | .mi => ['M', 'i']
  | .gi => ['G', 'i']
  | .ti => ['T', 'i']

def Scale.factor : Scale → Nat
  | .one => 1
  | .k => 1000
  | .m => 1000000
  | .g => 1000000000
  | .t => 1000000000000
  | .ki => 1024
  | .mi => 1024 * 1024
  | .gi => 1024 * 1024 * 1024
  | .ti => 1024 * 1024 * 1024 * 1024

/-- A scale, then a `B` or none. -/
structure SizeUnit where
  scale : Scale
  withB : Bool
  deriving DecidableEq, Repr

def SizeUnit.text (unit : SizeUnit) : List Char :=
  unit.scale.letters ++ if unit.withB then ['B'] else []

/-- `[0-9]+`, and the value fits a `u64`. -/
structure NumberDenotes (text : List Char) (n : Nat) : Prop where
  nonempty : text ≠ []
  isDigit : ∀ c ∈ text, isAsciiDigit c = true
  value : Nat.ofDigitChars 10 text 0 = n
  fits : n ≤ u64Max

def SizeDenotes (text : List Char) (n : Nat) : Prop :=
  ∃ (digits : List Char) (unit : SizeUnit) (value : Nat), text = digits ++ unit.text ∧
    NumberDenotes digits value ∧ n = value * unit.scale.factor ∧ n ≤ u64Max

def iopsWord : List Char := ['i', 'o', 'p', 's']

def IopsDenotes (text : List Char) (n : Nat) : Prop :=
  ∃ digits spaces, text = digits ++ spaces ++ iopsWord ∧ NumberDenotes digits n ∧
    ∀ c ∈ spaces, isWhitespace c = true

def ThroughputDenotes (text : List Char) (n : Nat) : Prop :=
  ∃ size, size ≠ [] ∧ text = size ++ ['/', 's'] ∧ SizeDenotes (trim size) n

/-- A plus sign before a number of operations. -/
def SignedIops (text : List Char) : Prop := ∃ rest n, text = '+' :: rest ∧ IopsDenotes rest n

structure SizeExact (input : String) : Prop where
  size : ∀ n, parseSize input = .ok (some n) ↔ SizeDenotes (trim input.toList) n
  unset : parseSize input = .ok none ↔ trim input.toList = []

structure RateExact (input : String) : Prop where
  iops : ∀ n, parseRateLimit input = .ok (some (.iops n)) ↔ IopsDenotes (trim input.toList) n
  throughput : ∀ n, parseRateLimit input = .ok (some (.throughput n)) ↔
    ThroughputDenotes (trim input.toList) n
  unset : parseRateLimit input = .ok none ↔ trim input.toList = []
  refused : (∃ e, parseRateLimit input = .error e) ↔ trim input.toList ≠ [] ∧
    ∀ n, ¬ IopsDenotes (trim input.toList) n ∧ ¬ ThroughputDenotes (trim input.toList) n

theorem parseDigits_isDigit {acc n : Nat} {cs : List Char} (h : parseDigits acc cs = some n) :
    ∀ c ∈ cs, isAsciiDigit c = true := by
  induction cs generalizing acc with
  | nil => simp
  | cons c cs ih =>
    rw [parseDigits] at h
    split at h
    · next hc =>
      simp only at h
      split at h
      · exact List.forall_mem_cons.mpr ⟨hc, ih h⟩
      · cases h
    · cases h

theorem parseU64_number {cs : List Char} {n : Nat} (hcs : NumberDenotes cs n) :
    parseU64 cs = some n := by
  rw [parseU64_digits hcs.nonempty hcs.isDigit, hcs.value, if_pos hcs.fits]

theorem parseU64_plus {cs : List Char} (hcs : cs ≠ []) :
    parseU64 ('+' :: cs) = parseDigits 0 cs := by
  obtain ⟨c, cs, rfl⟩ := List.exists_cons_of_ne_nil hcs
  rfl

theorem parseU64_iff (cs : List Char) (n : Nat) :
    parseU64 cs = some n ↔
      NumberDenotes cs n ∨ ∃ rest, cs = '+' :: rest ∧ NumberDenotes rest n := by
  have hdigits : ∀ rest, rest ≠ [] → parseDigits 0 rest = some n → NumberDenotes rest n := by
    intro rest hne h
    have hdigit := parseDigits_isDigit h
    rw [parseDigits_eq hdigit (Nat.zero_le _), Option.ite_none_right_eq_some] at h
    obtain ⟨hfits, hvalue⟩ := h
    obtain rfl := Option.some.inj hvalue
    exact ⟨hne, hdigit, rfl, hfits⟩
  constructor
  · intro h
    unfold parseU64 at h
    split at h
    · cases h
    · cases h
    · next rest hne => exact .inr ⟨rest, rfl, hdigits rest (fun hnil => hne hnil) h⟩
    · next hne _ _ => exact .inl (hdigits cs (fun hnil => hne hnil) h)
  · rintro (hcs | ⟨rest, rfl, hrest⟩)
    · exact parseU64_number hcs
    · rw [parseU64_plus hrest.nonempty, parseDigits_eq hrest.isDigit (Nat.zero_le _),
        hrest.value, if_pos hrest.fits]

theorem unitMultiplier_text (unit : SizeUnit) :
    unitMultiplier unit.text = some unit.scale.factor := by
  obtain ⟨scale, withB⟩ := unit
  cases scale <;> cases withB <;> rfl

theorem unitMultiplier_eq_some {text : List Char} {multiplier : Nat}
    (h : unitMultiplier text = some multiplier) : ∃ unit : SizeUnit, text = unit.text := by
  have htext : ∀ {unit : String}, String.ofList text = unit → text = unit.toList := by
    intro unit heq
    rw [← heq, String.toList_ofList]
  unfold unitMultiplier at h
  split at h
  · next heq => exact ⟨⟨.one, false⟩, htext heq⟩
  · next heq => exact ⟨⟨.one, true⟩, htext heq⟩
  · next heq => exact ⟨⟨.k, false⟩, htext heq⟩
  · next heq => exact ⟨⟨.k, true⟩, htext heq⟩
  · next heq => exact ⟨⟨.m, false⟩, htext heq⟩
  · next heq => exact ⟨⟨.m, true⟩, htext heq⟩
  · next heq => exact ⟨⟨.g, false⟩, htext heq⟩
  · next heq => exact ⟨⟨.g, true⟩, htext heq⟩
  · next heq => exact ⟨⟨.t, false⟩, htext heq⟩
  · next heq => exact ⟨⟨.t, true⟩, htext heq⟩
  · next heq => exact ⟨⟨.ki, false⟩, htext heq⟩
  · next heq => exact ⟨⟨.ki, true⟩, htext heq⟩
  · next heq => exact ⟨⟨.mi, false⟩, htext heq⟩
  · next heq => exact ⟨⟨.mi, true⟩, htext heq⟩
  · next heq => exact ⟨⟨.gi, false⟩, htext heq⟩
  · next heq => exact ⟨⟨.gi, true⟩, htext heq⟩
  · next heq => exact ⟨⟨.ti, false⟩, htext heq⟩
  · next heq => exact ⟨⟨.ti, true⟩, htext heq⟩
  · cases h

theorem unit_no_digit (unit : SizeUnit) : unit.text.head?.any isAsciiDigit = false := by
  obtain ⟨scale, withB⟩ := unit
  cases scale <;> cases withB <;> rfl

theorem splitLeadingDigits_size {digits : List Char} (hdigits : ∀ c ∈ digits, isAsciiDigit c = true)
    (unit : SizeUnit) : splitLeadingDigits (digits ++ unit.text) = (digits, unit.text) := by
  have hunit := unit_no_digit unit
  unfold splitLeadingDigits
  rw [List.takeWhile_append_of_pos hdigits, List.dropWhile_append_of_pos hdigits]
  cases htext : unit.text with
  | nil => simp
  | cons c cs =>
    have hc : isAsciiDigit c = false := by
      rw [htext] at hunit
      exact hunit
    simp [hc]

theorem parseSizeField_none {input : List Char} (field : String) (h : trim input = []) :
    parseSizeField input field = .ok none := by
  unfold parseSizeField
  simp only [h, List.isEmpty_nil, if_true]

theorem parseSizeField_some {input : List Char} (field : String) {n : Nat}
    (h : SizeDenotes (trim input) n) : parseSizeField input field = .ok (some n) := by
  obtain ⟨digits, unit, value, htext, hdigits, rfl, hfits⟩ := h
  have hempty : (digits ++ unit.text).isEmpty = false := by simp [hdigits.nonempty]
  have hnum : digits.isEmpty = false := by simp [hdigits.nonempty]
  unfold parseSizeField
  simp only [htext, hempty, hnum, splitLeadingDigits_size hdigits.isDigit, parseU64_number hdigits,
    unitMultiplier_text, checkedU64, hfits, if_true, Bool.false_eq_true, if_false]

theorem parseSizeField_eq_some {input : List Char} {field : String} {n : Nat}
    (h : parseSizeField input field = .ok (some n)) : SizeDenotes (trim input) n := by
  unfold parseSizeField at h
  simp only at h
  split at h
  · cases h
  · split at h
    · cases h
    · next hnum =>
      have hdigit : ∀ c ∈ (splitLeadingDigits (trim input)).1, isAsciiDigit c = true :=
        fun c hc => List.mem_takeWhile_imp hc
      split at h
      · cases h
      · next value hvalue =>
        split at h
        · cases h
        · next multiplier hmultiplier =>
          split at h
          · cases h
          · next bytes hbytes =>
            obtain rfl := Option.some.inj (Except.ok.inj h)
            obtain ⟨unit, hunit⟩ := unitMultiplier_eq_some hmultiplier
            rw [hunit, unitMultiplier_text] at hmultiplier
            obtain rfl := Option.some.inj hmultiplier
            rw [checkedU64, Option.ite_none_right_eq_some] at hbytes
            obtain ⟨hfits, hbytes⟩ := hbytes
            obtain rfl := Option.some.inj hbytes
            refine ⟨(splitLeadingDigits (trim input)).1, unit, value, ?_, ?_, rfl, hfits⟩
            · rw [← hunit]
              exact (List.takeWhile_append_dropWhile ..).symm
            · -- no digit is a plus sign
              rcases (parseU64_iff _ _).mp hvalue with hnumber | ⟨rest, hrest, -⟩
              · exact hnumber
              · have hplus := hdigit '+' (by rw [hrest]; exact List.mem_cons_self)
                exact absurd hplus (by decide)

theorem parseSizeField_iff (input : List Char) (field : String) (n : Nat) :
    parseSizeField input field = .ok (some n) ↔ SizeDenotes (trim input) n :=
  ⟨parseSizeField_eq_some, parseSizeField_some field⟩

theorem parseSizeField_eq_none {input : List Char} {field : String}
    (h : parseSizeField input field = .ok none) : trim input = [] := by
  unfold parseSizeField at h
  simp only at h
  split at h
  · next hempty => exact List.isEmpty_iff.mp hempty
  · split at h
    · cases h
    · split at h
      · cases h
      · split at h
        · cases h
        · split at h <;> cases h

theorem parseSize_exact (input : String) : SizeExact input where
  size := parseSizeField_iff input.toList "size"
  unset := ⟨parseSizeField_eq_none, parseSizeField_none "size"⟩

theorem stripSuffix_iff {suffix cs rest : List Char} :
    stripSuffix suffix cs = some rest ↔ cs = rest ++ suffix := by
  unfold stripSuffix
  rw [Option.ite_none_right_eq_some, List.isSuffixOf_iff_suffix, Option.some.injEq]
  constructor
  · rintro ⟨⟨front, rfl⟩, rfl⟩
    simp
  · rintro rfl
    exact ⟨⟨rest, rfl⟩, by simp⟩

theorem stripSuffix_none {suffix cs : List Char} (h : stripSuffix suffix cs = none)
    (rest : List Char) : cs ≠ rest ++ suffix := by
  intro heq
  rw [stripSuffix_iff.mpr heq] at h
  cases h

theorem iops_ne_perSecond (num size : List Char) : num ++ iopsWord ≠ size ++ ['/', 's'] := by
  intro h
  have hend := congrArg (fun cs : List Char => cs.reverse.take 2) h
  simp [iopsWord] at hend

theorem isWhitespace_of_digit {c : Char} (hc : isAsciiDigit c = true) :
    isWhitespace c = false := by
  rw [isAsciiDigit_iff] at hc
  unfold isWhitespace
  simp only [Bool.or_eq_false_iff, Bool.and_eq_false_iff, decide_eq_false_iff_not,
    beq_eq_false_iff_ne]
  omega

theorem trimEnd_append {word spaces : List Char} (hword : ∀ c ∈ word, isWhitespace c = false)
    (hspaces : ∀ c ∈ spaces, isWhitespace c = true) : trimEnd (word ++ spaces) = word := by
  have hkeep : word.reverse.dropWhile isWhitespace = word.reverse := by
    rw [List.dropWhile_eq_self_iff]
    intro hlen hhead
    rw [hword _ (List.mem_reverse.mp (List.getElem_mem hlen))] at hhead
    cases hhead
  unfold trimEnd
  rw [List.reverse_append, List.dropWhile_append_of_pos fun c hc =>
    hspaces c (List.mem_reverse.mp hc), hkeep, List.reverse_reverse]

theorem trimEnd_spaces (cs : List Char) :
    ∃ spaces, cs = trimEnd cs ++ spaces ∧ ∀ c ∈ spaces, isWhitespace c = true := by
  refine ⟨(cs.reverse.takeWhile isWhitespace).reverse, ?_, fun c hc =>
    List.mem_takeWhile_imp (List.mem_reverse.mp hc)⟩
  unfold trimEnd
  rw [← List.reverse_append, List.takeWhile_append_dropWhile, List.reverse_reverse]

theorem iopsNumber_iff (num : List Char) (n : Nat) :
    parseU64 (trimEnd num) = some n ↔ IopsDenotes (num ++ iopsWord) n ∨
      ∃ rest, num ++ iopsWord = '+' :: rest ∧ IopsDenotes rest n := by
  rw [parseU64_iff]
  constructor
  · obtain ⟨spaces, hnum, hspaces⟩ := trimEnd_spaces num
    rintro (hnumber | ⟨rest, hrest, hnumber⟩)
    · exact .inl ⟨trimEnd num, spaces, by rw [← hnum], hnumber, hspaces⟩
    · refine .inr ⟨rest ++ spaces ++ iopsWord, ?_, rest, spaces, rfl, hnumber, hspaces⟩
      rw [hrest] at hnum
      rw [hnum]
      rfl
  · have hword : ∀ digits, NumberDenotes digits n → ∀ c ∈ digits, isWhitespace c = false :=
      fun digits hnumber c hc => isWhitespace_of_digit (hnumber.isDigit c hc)
    rintro (⟨digits, spaces, htext, hnumber, hspaces⟩ |
      ⟨rest, hplus, digits, spaces, rfl, hnumber, hspaces⟩)
    · obtain rfl := List.append_cancel_right htext
      rw [trimEnd_append (hword digits hnumber) hspaces]
      exact .inl hnumber
    · have hnum : num = ('+' :: digits) ++ spaces := List.append_cancel_right hplus
      have hplain : ∀ c ∈ '+' :: digits, isWhitespace c = false :=
        List.forall_mem_cons.mpr ⟨by decide, hword digits hnumber⟩
      rw [hnum, trimEnd_append hplain hspaces]
      exact .inr ⟨digits, rfl, hnumber⟩

def RateRead (text : List Char) : Except ParseError (Option RateLimit) → Prop
  | .ok none => text = []
  | .ok (some (.iops n)) => ∃ num, text = num ++ iopsWord ∧ parseU64 (trimEnd num) = some n
  | .ok (some (.throughput n)) => ∃ size, text = size ++ ['/', 's'] ∧ SizeDenotes (trim size) n
  | .error _ => text ≠ [] ∧ (∀ num n, text = num ++ iopsWord → parseU64 (trimEnd num) ≠ some n) ∧
      ∀ size n, text = size ++ ['/', 's'] → ¬ SizeDenotes (trim size) n

theorem rateRead_error {text : List Char} {e : ParseError} (hne : text ≠ [])
    (hiops : ∀ num, text = num ++ iopsWord → parseU64 (trimEnd num) = none)
    (hsize : ∀ size, text = size ++ ['/', 's'] → ∀ n, ¬ SizeDenotes (trim size) n) :
    RateRead text (.error e) := by
  refine ⟨hne, fun num n htext => ?_, fun size n htext => hsize size htext n⟩
  rw [hiops num htext]
  simp

theorem parseRateLimit_read (input : String) :
    RateRead (trim input.toList) (parseRateLimit input) := by
  unfold parseRateLimit
  generalize htext : trim input.toList = text
  simp only
  split
  · next hempty => exact List.isEmpty_iff.mp hempty
  next hempty =>
  have hne : text ≠ [] := fun hnil => hempty (List.isEmpty_iff.mpr hnil)
  split
  · next num hiops =>
    have hnum := stripSuffix_iff.mp hiops
    have honly : ∀ num', text = num' ++ iopsWord → num' = num :=
      fun num' h => List.append_cancel_right (h.symm.trans hnum)
    have hsize : ∀ size, text ≠ size ++ ['/', 's'] :=
      fun size h => iops_ne_perSecond num size (hnum.symm.trans h)
    split
    · next hblank =>
      refine rateRead_error hne (fun num' h => ?_) fun size h => absurd h (hsize size)
      rw [honly num' h, List.isEmpty_iff.mp hblank]
      rfl
    · cases hparse : parseU64 (trimEnd num) with
      | none =>
        refine rateRead_error hne (fun num' h => ?_) fun size h => absurd h (hsize size)
        rw [honly num' h, hparse]
      | some ops => exact ⟨num, hnum, hparse⟩
  · next hiops =>
    have hwords := stripSuffix_none hiops
    split
    · next size hstrip =>
      have hsize := stripSuffix_iff.mp hstrip
      have honly : ∀ size', text = size' ++ ['/', 's'] → size' = size :=
        fun size' h => List.append_cancel_right (h.symm.trans hsize)
      have hread := parseSizeField_iff size "rate_limit"
      cases hparse : parseSizeField size "rate_limit" with
      | error e =>
        refine rateRead_error hne (fun num h => absurd h (hwords num)) fun size' h n => ?_
        rw [honly size' h, ← hread, hparse]
        simp
      | ok parsed =>
        cases parsed with
        | none =>
          refine rateRead_error hne (fun num h => absurd h (hwords num)) fun size' h n => ?_
          rw [honly size' h, ← hread, hparse]
          simp
        | some bytes => exact ⟨size, hsize, (hread bytes).mp hparse⟩
    · next hstrip =>
      exact rateRead_error hne (fun num h => absurd h (hwords num))
        fun size h => absurd h (stripSuffix_none hstrip size)

theorem rateRead_unique {text : List Char} {res : Except ParseError (Option RateLimit)}
    {parsed : Option RateLimit} (h : RateRead text res) (h' : RateRead text (.ok parsed)) :
    res = .ok parsed := by
  rcases res with e | read
  · obtain ⟨hne, hiops, hsize⟩ := h
    rcases parsed with _ | n | n
    · exact absurd h' hne
    · obtain ⟨size, htext, hn⟩ := h'
      exact absurd hn (hsize size n htext)
    · obtain ⟨num, htext, hn⟩ := h'
      exact absurd hn (hiops num n htext)
  · rcases read with _ | m | m <;> rcases parsed with _ | n | n
    · rfl
    · obtain ⟨size, htext, -⟩ := h'
      exact absurd (htext.symm.trans h) (by simp)
    · obtain ⟨num, htext, -⟩ := h'
      exact absurd (htext.symm.trans h) (by simp [iopsWord])
    · obtain ⟨size, htext, -⟩ := h
      exact absurd (htext.symm.trans h') (by simp)
    · obtain ⟨size, htext, hm⟩ := h
      obtain ⟨size', htext', hn⟩ := h'
      obtain rfl := List.append_cancel_right (htext.symm.trans htext')
      have hm' := parseSizeField_some "rate_limit" hm
      rw [parseSizeField_some "rate_limit" hn] at hm'
      obtain rfl := Option.some.inj (Except.ok.inj hm')
      rfl
    · obtain ⟨size, htext, -⟩ := h
      obtain ⟨num, htext', -⟩ := h'
      exact absurd (htext'.symm.trans htext) (iops_ne_perSecond num size)
    · obtain ⟨num, htext, -⟩ := h
      exact absurd (htext.symm.trans h') (by simp [iopsWord])
    · obtain ⟨num, htext, -⟩ := h
      obtain ⟨size, htext', -⟩ := h'
      exact absurd (htext.symm.trans htext') (iops_ne_perSecond num size)
    · obtain ⟨num, htext, hm⟩ := h
      obtain ⟨num', htext', hn⟩ := h'
      obtain rfl := List.append_cancel_right (htext.symm.trans htext')
      rw [hm] at hn
      obtain rfl := Option.some.inj hn
      rfl

theorem parseRateLimit_iff (input : String) (parsed : Option RateLimit) :
    parseRateLimit input = .ok parsed ↔ RateRead (trim input.toList) (.ok parsed) := by
  have hread := parseRateLimit_read input
  constructor
  · intro h
    rwa [h] at hread
  · exact rateRead_unique hread

theorem parseRateLimit_iops (input : String) (n : Nat) :
    parseRateLimit input = .ok (some (.iops n)) ↔ IopsDenotes (trim input.toList) n ∨
      ∃ rest, trim input.toList = '+' :: rest ∧ IopsDenotes rest n := by
  rw [parseRateLimit_iff]
  constructor
  · rintro ⟨num, htext, hnum⟩
    rw [htext]
    exact (iopsNumber_iff num n).mp hnum
  · intro h
    have hword : ∃ num, trim input.toList = num ++ iopsWord := by
      rcases h with ⟨digits, spaces, htext, -⟩ | ⟨rest, hplus, digits, spaces, rfl, -⟩
      · exact ⟨_, htext⟩
      · exact ⟨'+' :: (digits ++ spaces), hplus⟩
    obtain ⟨num, htext⟩ := hword
    rw [htext] at h
    exact ⟨num, htext, (iopsNumber_iff num n).mpr h⟩

theorem parseRateLimit_throughput (input : String) (n : Nat) :
    parseRateLimit input = .ok (some (.throughput n)) ↔
      ThroughputDenotes (trim input.toList) n := by
  rw [parseRateLimit_iff]
  constructor
  · rintro ⟨size, htext, hsize⟩
    refine ⟨size, ?_, htext, hsize⟩
    rintro rfl
    obtain ⟨digits, unit, value, hnil, hdigits, -⟩ := hsize
    exact hdigits.nonempty (List.append_eq_nil_iff.mp hnil.symm).1
  · rintro ⟨size, -, htext, hsize⟩
    exact ⟨size, htext, hsize⟩

theorem parseRateLimit_unset (input : String) :
    parseRateLimit input = .ok none ↔ trim input.toList = [] :=
  parseRateLimit_iff input none

theorem not_iopsDenotes_plus (rest : List Char) (n : Nat) : ¬ IopsDenotes ('+' :: rest) n := by
  rintro ⟨digits, spaces, htext, hnumber, -⟩
  obtain ⟨c, digits, rfl⟩ := List.exists_cons_of_ne_nil hnumber.nonempty
  obtain rfl := (List.cons.inj htext).1
  have hplus := hnumber.isDigit '+' List.mem_cons_self
  exact absurd hplus (by decide)

/-- The parsers on every input: sizes as the grammar has them, and rates where the text is
not a plus sign before a number of operations. -/
theorem grammar_exact_iff (input : String) :
    SizeExact input ∧ (RateExact input ↔ ¬ SignedIops (trim input.toList)) := by
  refine ⟨parseSize_exact input, fun h => ?_, fun h => ?_⟩
  · rintro ⟨rest, n, htext, hiops⟩
    have hread := (h.iops n).mp ((parseRateLimit_iops input n).mpr (.inr ⟨rest, htext, hiops⟩))
    rw [htext] at hread
    exact not_iopsDenotes_plus rest n hread
  · have hiops : ∀ n, parseRateLimit input = .ok (some (.iops n)) ↔
        IopsDenotes (trim input.toList) n := by
      intro n
      rw [parseRateLimit_iops, or_iff_left]
      rintro ⟨rest, htext, hrest⟩
      exact h ⟨rest, n, htext, hrest⟩
    refine ⟨hiops, parseRateLimit_throughput input, parseRateLimit_unset input, ?_⟩
    simp only [ne_eq, ← hiops, ← parseRateLimit_throughput, ← parseRateLimit_unset]
    cases hparse : parseRateLimit input with
    | error e => simp
    | ok parsed => rcases parsed with _ | bytes | ops <;> simp

/-- `+5iops` is read as a rate, and its number has a sign. -/
theorem signed_iops_read :
    parseRateLimit "+5iops" = .ok (some (.iops 5)) ∧ ¬ RateExact "+5iops" := by
  have hparse : parseRateLimit "+5iops" = .ok (some (.iops 5)) := by decide
  refine ⟨hparse, fun h => ?_⟩
  have hread := (h.iops 5).mp hparse
  exact not_iopsDenotes_plus ['5', 'i', 'o', 'p', 's'] 5 hread

end CvdBench.Spec
