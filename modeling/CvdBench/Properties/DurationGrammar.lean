import CvdBench.Spec.Parse
import Mathlib.Algebra.GroupWithZero.Nat
import Mathlib.Data.List.TakeWhile

/-!
The duration parser accepts exactly its grammar.
-/

set_option autoImplicit false

namespace CvdBench.Spec

inductive DurationUnit where
  | ms | s | m | h
  deriving DecidableEq, Repr

def DurationUnit.text : DurationUnit → List Char
  | .ms => ['m', 's']
  | .s => ['s']
  | .m => ['m']
  | .h => ['h']

def DurationUnit.millis : DurationUnit → Nat
  | .ms => 1
  | .s => 1000
  | .m => 60000
  | .h => 3600000

/-- `[0-9]+(ms|s|m|h)` -/
structure DurationSegment where
  digits : List Char
  unit : DurationUnit
  nonempty : digits ≠ []
  isDigit : ∀ c ∈ digits, isAsciiDigit c = true

namespace DurationSegment

def text (s : DurationSegment) : List Char := s.digits ++ s.unit.text

def value (s : DurationSegment) : Nat := Nat.ofDigitChars 10 s.digits 0

def millis (s : DurationSegment) : Nat := s.value * s.unit.millis

def textOf (segments : List DurationSegment) : List Char := segments.flatMap text

def millisOf (segments : List DurationSegment) : Nat := (segments.map millis).sum

end DurationSegment

open DurationSegment

/-- The text is a sequence of segments whose numbers fit a `u64`, and so does their sum. -/
def Denotes (text : List Char) (ms : Nat) : Prop :=
  ∃ segments, segments ≠ [] ∧ text = textOf segments ∧ (∀ s ∈ segments, s.value ≤ u64Max) ∧
    millisOf segments = ms ∧ ms ≤ u64Max

/-- A text cut at a byte; `none` within a character. -/
def sliceAt : List Char → Nat → Option (List Char × List Char)
  | cs, 0 => some ([], cs)
  | [], _ + 1 => none
  | c :: cs, n + 1 =>
      if c.utf8Size ≤ n + 1 then
        (sliceAt cs (n + 1 - c.utf8Size)).map fun parts => (c :: parts.1, parts.2)
      else none

def isDigitByte (b : UInt8) : Bool := 48 ≤ b && b ≤ 57

/-- `split_leading_digits` on the bytes of the text. -/
def splitLeadingDigitsAt (cs : List Char) : Option (List Char × List Char) :=
  sliceAt cs ((cs.flatMap String.utf8EncodeChar).findIdx fun b => !isDigitByte b)

/-- `split_leading_unit` on the bytes of the text. -/
def splitLeadingUnitAt (cs : List Char) : Option (List Char × List Char) :=
  if ['m', 's'].isPrefixOf cs then sliceAt cs 2
  else match cs with
    | c :: _ => if isAsciiAlphabetic c then sliceAt cs c.utf8Size else some ([], cs)
    | [] => some ([], [])

theorem isAsciiDigit_iff {c : Char} : isAsciiDigit c = true ↔ 48 ≤ c.toNat ∧ c.toNat ≤ 57 := by
  unfold isAsciiDigit
  rw [Bool.and_eq_true, decide_eq_true_eq, decide_eq_true_eq, Char.le_def, Char.le_def,
    UInt32.le_iff_toNat_le, UInt32.le_iff_toNat_le]
  rfl

theorem utf8EncodeChar_digit (c : Char) :
    ∃ b bytes, String.utf8EncodeChar c = b :: bytes ∧ isDigitByte b = isAsciiDigit c ∧
      (isAsciiDigit c = true → c.utf8Size = 1 ∧ bytes = []) := by
  have hhigh : ∀ b m : UInt8, 192 ≤ m.toNat → isDigitByte (b ||| m) = false := by
    intro b m hm
    unfold isDigitByte
    rw [Bool.and_eq_false_iff, decide_eq_false_iff_not, decide_eq_false_iff_not,
      UInt8.le_iff_toNat_le, UInt8.le_iff_toNat_le, UInt8.toNat_or]
    have hor : m.toNat ≤ b.toNat ||| m.toNat := Nat.right_le_or
    refine .inr fun hle => ?_
    have h57 : (57 : UInt8).toNat = 57 := rfl
    omega
  have hwide : 127 < c.val → isAsciiDigit c = false := by
    intro h
    rw [← Bool.not_eq_true, isAsciiDigit_iff]
    have hlt := UInt32.lt_iff_toNat_lt.mp h
    have hval : c.val.toNat = c.toNat := rfl
    have h127 : (127 : UInt32).toNat = 127 := rfl
    omega
  rcases c.utf8Size_eq with h | h | h | h
  · refine ⟨_, _, String.utf8EncodeChar_eq_singleton h, ?_, fun _ => ⟨h, rfl⟩⟩
    have hle := UInt32.le_iff_toNat_le.mp (Char.utf8Size_eq_one_iff.mp h)
    rw [Bool.eq_iff_iff, isAsciiDigit_iff]
    unfold isDigitByte
    rw [Bool.and_eq_true, decide_eq_true_eq, decide_eq_true_eq, UInt8.le_iff_toNat_le,
      UInt8.le_iff_toNat_le, UInt32.toNat_toUInt8]
    have hval : c.val.toNat = c.toNat := rfl
    have h48 : (48 : UInt8).toNat = 48 := rfl
    have h57 : (57 : UInt8).toNat = 57 := rfl
    have h127 : (127 : UInt32).toNat = 127 := rfl
    omega
  · have hdigit := hwide (Char.utf8Size_eq_two_iff.mp h).1
    refine ⟨_, _, String.utf8EncodeChar_eq_cons_cons h, ?_, fun hd => ?_⟩
    · rw [hdigit, hhigh _ _ (by decide)]
    · rw [hdigit] at hd
      cases hd
  · have hwider := (Char.utf8Size_eq_three_iff.mp h).1
    have hdigit := hwide (UInt32.lt_trans (by decide) hwider)
    refine ⟨_, _, String.utf8EncodeChar_eq_cons_cons_cons h, ?_, fun hd => ?_⟩
    · rw [hdigit, hhigh _ _ (by decide)]
    · rw [hdigit] at hd
      cases hd
  · have hwidest := Char.utf8Size_eq_four_iff.mp h
    have hdigit := hwide (UInt32.lt_trans (by decide) hwidest)
    refine ⟨_, _, String.utf8EncodeChar_eq_cons_cons_cons_cons h, ?_, fun hd => ?_⟩
    · rw [hdigit, hhigh _ _ (by decide)]
    · rw [hdigit] at hd
      cases hd

theorem splitLeadingDigitsAt_eq (cs : List Char) :
    splitLeadingDigitsAt cs = some (splitLeadingDigits cs) := by
  unfold splitLeadingDigitsAt splitLeadingDigits
  induction cs with
  | nil => rfl
  | cons c cs ih =>
    obtain ⟨b, bytes, hbytes, hdigit, hone⟩ := utf8EncodeChar_digit c
    rw [List.flatMap_cons, hbytes, List.cons_append, List.findIdx_cons, hdigit]
    cases hc : isAsciiDigit c with
    | false => simp [sliceAt, hc]
    | true =>
      obtain ⟨hsize, rfl⟩ := hone hc
      simp [sliceAt, hsize, hc, ih]

theorem utf8Size_of_alphabetic {c : Char} (hc : isAsciiAlphabetic c = true) : c.utf8Size = 1 := by
  rw [Char.utf8Size_eq_one_iff]
  unfold isAsciiAlphabetic at hc
  simp only [Bool.or_eq_true, Bool.and_eq_true, decide_eq_true_eq, Char.le_def] at hc
  rcases hc with ⟨-, hle⟩ | ⟨-, hle⟩
  · exact UInt32.le_trans hle (by decide)
  · exact UInt32.le_trans hle (by decide)

theorem splitLeadingUnit_cons {c : Char} {rest : List Char}
    (h : ¬ ['m', 's'].isPrefixOf (c :: rest) = true) :
    splitLeadingUnit (c :: rest) =
      if isAsciiAlphabetic c then ([c], rest) else ([], c :: rest) := by
  unfold splitLeadingUnit
  split
  · next rest' heq =>
    rw [heq] at h
    exact absurd (List.isPrefixOf_iff_prefix.mpr ⟨rest', rfl⟩) h
  · next heq =>
    cases heq
    rfl
  · next heq => cases heq

theorem splitLeadingUnitAt_eq (cs : List Char) :
    splitLeadingUnitAt cs = some (splitLeadingUnit cs) := by
  have hone : ∀ c rest, isAsciiAlphabetic c = true →
      sliceAt (c :: rest) c.utf8Size = some ([c], rest) := by
    intro c rest hc
    rw [utf8Size_of_alphabetic hc]
    simp [sliceAt, utf8Size_of_alphabetic hc]
  unfold splitLeadingUnitAt
  cases cs with
  | nil => rfl
  | cons c rest =>
    split
    · next hms =>
      obtain ⟨tail, htail⟩ := List.isPrefixOf_iff_prefix.mp hms
      have hm : 'm'.utf8Size = 1 := by decide
      have hs : 's'.utf8Size = 1 := by decide
      rw [← htail]
      simp [sliceAt, hm, hs, splitLeadingUnit]
    · next hms =>
      rw [splitLeadingUnit_cons hms]
      simp only
      split
      · next hc => exact hone c rest hc
      · rfl

theorem le_ofDigitChars (digits : List Char) (init : Nat) :
    init ≤ Nat.ofDigitChars 10 digits init := by
  induction digits generalizing init with
  | nil => simp
  | cons c digits ih =>
    rw [Nat.ofDigitChars_cons]
    exact Nat.le_trans (by omega) (ih _)

theorem parseDigits_eq {digits : List Char} (hdigits : ∀ c ∈ digits, isAsciiDigit c = true)
    {acc : Nat} (hacc : acc ≤ u64Max) :
    parseDigits acc digits = if Nat.ofDigitChars 10 digits acc ≤ u64Max then
      some (Nat.ofDigitChars 10 digits acc) else none := by
  induction digits generalizing acc with
  | nil => simp [parseDigits, hacc]
  | cons c digits ih =>
    have hc := hdigits c List.mem_cons_self
    rw [parseDigits, Nat.ofDigitChars_cons]
    simp only [hc, if_true, Nat.mul_comm acc 10]
    split
    · next hle => exact ih (fun c' hc' => hdigits c' (List.mem_cons_of_mem _ hc')) hle
    · next hlarge =>
      have hle := le_ofDigitChars digits (10 * acc + (c.toNat - '0'.toNat))
      rw [if_neg (by omega)]

theorem parseU64_digits {digits : List Char} (hne : digits ≠ [])
    (hdigits : ∀ c ∈ digits, isAsciiDigit c = true) :
    parseU64 digits = if Nat.ofDigitChars 10 digits 0 ≤ u64Max then
      some (Nat.ofDigitChars 10 digits 0) else none := by
  have hplus : isAsciiDigit '+' = false := by decide
  have hsign : ∀ c ∈ digits, c ≠ '+' := by
    rintro c hc rfl
    rw [hdigits _ hc] at hplus
    cases hplus
  rw [← parseDigits_eq hdigits (Nat.zero_le u64Max)]
  unfold parseU64
  split
  · next hnil => exact absurd rfl hne
  · next hone => exact absurd rfl (hsign '+' (by simp))
  · next cs _ => exact absurd rfl (hsign '+' (by simp))
  · rfl

theorem parseU64_eq (s : DurationSegment) :
    parseU64 s.digits = if s.value ≤ u64Max then some s.value else none :=
  parseU64_digits s.nonempty s.isDigit

theorem unitMs_text (input : String) (unit : DurationUnit) :
    unitMs input unit.text = .ok unit.millis := by
  cases unit <;> rfl

theorem unitMs_eq_ok {input : String} {text : List Char} {ms : Nat}
    (h : unitMs input text = .ok ms) : ∃ unit : DurationUnit, text = unit.text := by
  unfold unitMs at h
  split at h
  · exact ⟨.ms, rfl⟩
  · exact ⟨.s, rfl⟩
  · exact ⟨.m, rfl⟩
  · exact ⟨.h, rfl⟩
  · cases h
  · cases h

def NumberNext (text : List Char) : Prop := ∀ c ∈ text.head?, isAsciiDigit c = true

theorem splitLeadingDigits_segment (s : DurationSegment) (tail : List Char) :
    splitLeadingDigits (s.text ++ tail) = (s.digits, s.unit.text ++ tail) := by
  have hunit : ∃ c rest, s.unit.text ++ tail = c :: rest ∧ isAsciiDigit c = false := by
    cases s.unit with
    | ms => exact ⟨'m', _, rfl, by decide⟩
    | s => exact ⟨'s', _, rfl, by decide⟩
    | m => exact ⟨'m', _, rfl, by decide⟩
    | h => exact ⟨'h', _, rfl, by decide⟩
  obtain ⟨c, rest, hrest, hc⟩ := hunit
  unfold splitLeadingDigits text
  rw [List.append_assoc, hrest, List.takeWhile_append_of_pos s.isDigit,
    List.dropWhile_append_of_pos s.isDigit]
  simp [hc]

theorem splitLeadingUnit_segment (unit : DurationUnit) {tail : List Char}
    (htail : NumberNext tail) : splitLeadingUnit (unit.text ++ tail) = (unit.text, tail) := by
  cases unit with
  | ms => rfl
  | s => rfl
  | h => rfl
  | m =>
    -- an `s` after the `m` would belong to the unit
    have hms : ¬ ['m', 's'].isPrefixOf ('m' :: tail) = true := by
      intro h
      obtain ⟨rest, hrest⟩ := List.isPrefixOf_iff_prefix.mp h
      have htail' : tail = 's' :: rest := (List.cons.inj hrest).2.symm
      have hs := htail 's' (by rw [htail']; rfl)
      exact absurd hs (by decide)
    exact splitLeadingUnit_cons hms

theorem splitLeadingUnit_append (cs : List Char) :
    (splitLeadingUnit cs).1 ++ (splitLeadingUnit cs).2 = cs := by
  unfold splitLeadingUnit
  split
  · rfl
  · split <;> rfl
  · rfl

def durationRound (input : String) (total : Nat) (rest : List Char) :
    Except ParseError (Nat × List Char) := do
  let (num, afterNum) := splitLeadingDigits rest
  if num.isEmpty then .error (.missingNumber "duration" input) else do
    let some value := parseU64 num
      | .error (.invalidNumber "duration" (String.ofList num) input)
    let (unit, afterUnit) := splitLeadingUnit afterNum
    let ms ← unitMs input unit
    let some segment := checkedU64 (value * ms)
      | .error (.overflow "duration" input)
    let some total := checkedU64 (total + segment)
      | .error (.overflow "duration" input)
    .ok (total, afterUnit)

theorem parseSegments_succ (input : String) (rounds total : Nat) {rest : List Char}
    (hrest : rest ≠ []) :
    parseSegments input (rounds + 1) total rest =
      (durationRound input total rest).bind fun next =>
        parseSegments input rounds next.1 next.2 := by
  obtain ⟨c, cs, rfl⟩ := List.exists_cons_of_ne_nil hrest
  conv_lhs => unfold parseSegments
  unfold durationRound
  simp only [bind, Except.bind]
  split
  · rfl
  · cases parseU64 (splitLeadingDigits (c :: cs)).1 with
    | none => rfl
    | some value =>
      cases unitMs input (splitLeadingUnit (splitLeadingDigits (c :: cs)).2).1 with
      | error e => rfl
      | ok ms =>
        simp only
        cases checkedU64 (value * ms) with
        | none => rfl
        | some segment =>
          simp only
          cases checkedU64 (total + segment) with
          | none => rfl
          | some total => rfl

theorem durationRound_segment (input : String) (s : DurationSegment) {tail : List Char}
    (htail : NumberNext tail) {total : Nat} (hvalue : s.value ≤ u64Max)
    (hsum : total + s.millis ≤ u64Max) :
    durationRound input total (s.text ++ tail) = .ok (total + s.millis, tail) := by
  have hempty : s.digits.isEmpty = false := by
    rw [List.isEmpty_eq_false_iff]
    exact s.nonempty
  have hmul : s.value * s.unit.millis ≤ u64Max := Nat.le_trans (Nat.le_add_left ..) hsum
  unfold durationRound
  simp only [splitLeadingDigits_segment, hempty, Bool.false_eq_true, if_false, parseU64_eq, hvalue,
    if_true, splitLeadingUnit_segment s.unit htail, unitMs_text, bind, Except.bind, checkedU64,
    hmul]
  unfold millis at hsum ⊢
  simp only [hsum, if_true]

theorem durationRound_eq_ok {input : String} {total total' : Nat} {rest rest' : List Char}
    (h : durationRound input total rest = .ok (total', rest')) :
    ∃ s : DurationSegment, rest = s.text ++ rest' ∧ s.value ≤ u64Max ∧
      total' = total + s.millis ∧ total' ≤ u64Max := by
  unfold durationRound at h
  simp only [bind, Except.bind] at h
  split at h
  · cases h
  · next hempty =>
    have hne : (splitLeadingDigits rest).1 ≠ [] := fun hnil => hempty (by rw [hnil]; rfl)
    split at h
    · next value hvalue =>
      split at h
      · cases h
      · next ms hunit =>
        obtain ⟨unit, htext⟩ := unitMs_eq_ok hunit
        rw [htext, unitMs_text, Except.ok.injEq] at hunit
        let s : DurationSegment := ⟨(splitLeadingDigits rest).1, unit, hne, fun c hc =>
          List.mem_takeWhile_imp hc⟩
        have hparse : parseU64 (splitLeadingDigits rest).1 =
            if s.value ≤ u64Max then some s.value else none := parseU64_eq s
        rw [hparse, Option.ite_none_right_eq_some] at hvalue
        obtain ⟨hfits, hvalue⟩ := hvalue
        obtain rfl := Option.some.inj hvalue
        subst hunit
        simp only [checkedU64] at h
        split at h
        · next segment hsegment =>
          split at h
          · next sum hsum =>
            rw [Option.ite_none_right_eq_some] at hsegment hsum
            obtain ⟨-, hsegment⟩ := hsegment
            obtain ⟨hle, hsum⟩ := hsum
            obtain rfl := Option.some.inj hsegment
            obtain rfl := Option.some.inj hsum
            cases h
            refine ⟨s, ?_, hfits, rfl, hle⟩
            have happend := splitLeadingUnit_append (splitLeadingDigits rest).2
            rw [htext] at happend
            unfold text
            rw [List.append_assoc, happend]
            exact (List.takeWhile_append_dropWhile ..).symm
          · cases h
        · cases h
    · cases h

theorem length_text_pos (s : DurationSegment) : 0 < s.text.length := by
  unfold text
  rw [List.length_append]
  exact Nat.add_pos_left (List.length_pos_iff.mpr s.nonempty) _

theorem eq_nil_of_textOf {segments : List DurationSegment} (h : textOf segments = []) :
    segments = [] := by
  cases segments with
  | nil => rfl
  | cons s segments =>
    have hpos := length_text_pos s
    have hlen := congrArg List.length h
    unfold textOf at hlen
    rw [List.flatMap_cons, List.length_append, List.length_nil] at hlen
    omega

theorem parseSegments_rounds (input : String) {rounds rounds' total : Nat} {rest : List Char}
    (h : rest.length ≤ rounds) (h' : rest.length ≤ rounds') :
    parseSegments input rounds total rest = parseSegments input rounds' total rest := by
  induction rounds generalizing rounds' total rest with
  | zero =>
    obtain rfl := List.length_eq_zero_iff.mp (Nat.le_zero.mp h)
    simp [parseSegments]
  | succ rounds ih =>
    by_cases hrest : rest = []
    · subst hrest
      simp [parseSegments]
    · cases rounds' with
      | zero => exact absurd (List.length_eq_zero_iff.mp (Nat.le_zero.mp h')) hrest
      | succ rounds' =>
        rw [parseSegments_succ _ _ _ hrest, parseSegments_succ _ _ _ hrest]
        cases hround : durationRound input total rest with
        | error e => rfl
        | ok next =>
          obtain ⟨s, rfl, -⟩ := durationRound_eq_ok hround
          have hpos := length_text_pos s
          rw [List.length_append] at h h'
          exact ih (by omega) (by omega)

theorem numberNext_textOf (segments : List DurationSegment) : NumberNext (textOf segments) := by
  intro c hc
  cases segments with
  | nil => cases hc
  | cons s segments =>
    obtain ⟨d, digits, hdigits⟩ := List.exists_cons_of_ne_nil s.nonempty
    unfold textOf at hc
    rw [List.flatMap_cons, text, hdigits] at hc
    obtain rfl : d = c := Option.some.inj hc
    exact s.isDigit d (by rw [hdigits]; exact List.mem_cons_self)

theorem parseSegments_nil (input : String) (rounds : Nat) {total ms : Nat}
    (htotal : total ≤ u64Max) :
    parseSegments input rounds total [] = .ok ms ↔
      ∃ segments, [] = textOf segments ∧ (∀ s ∈ segments, s.value ≤ u64Max) ∧
        ms = total + millisOf segments ∧ ms ≤ u64Max := by
  have hloop : parseSegments input rounds total [] = .ok total := by
    cases rounds <;> rfl
  rw [hloop, Except.ok.injEq]
  constructor
  · rintro rfl
    exact ⟨[], rfl, by simp, rfl, htotal⟩
  · rintro ⟨segments, htext, -, rfl, -⟩
    rw [eq_nil_of_textOf htext.symm]
    rfl

theorem parseSegments_iff (input : String) {rounds total ms : Nat} {rest : List Char}
    (hrounds : rest.length ≤ rounds) (htotal : total ≤ u64Max) :
    parseSegments input rounds total rest = .ok ms ↔
      ∃ segments, rest = textOf segments ∧ (∀ s ∈ segments, s.value ≤ u64Max) ∧
        ms = total + millisOf segments ∧ ms ≤ u64Max := by
  induction rounds generalizing total rest with
  | zero =>
    obtain rfl := List.length_eq_zero_iff.mp (Nat.le_zero.mp hrounds)
    exact parseSegments_nil input 0 htotal
  | succ rounds ih =>
    by_cases hrest : rest = []
    · subst hrest
      exact parseSegments_nil input _ htotal
    · rw [parseSegments_succ _ _ _ hrest]
      constructor
      · intro h
        cases hround : durationRound input total rest with
        | error e =>
          rw [hround] at h
          cases h
        | ok next =>
          obtain ⟨s, hs, hvalue, hnext, hfits⟩ := durationRound_eq_ok hround
          have hpos := length_text_pos s
          rw [hs, List.length_append] at hrounds
          rw [hround] at h
          obtain ⟨segments, htext, hvalues, rfl, hle⟩ := (ih (by omega) hfits).mp h
          refine ⟨s :: segments, ?_, List.forall_mem_cons.mpr ⟨hvalue, hvalues⟩, ?_, hle⟩
          · rw [hs, htext]
            rfl
          · rw [hnext, millisOf, millisOf, List.map_cons, List.sum_cons, Nat.add_assoc]
      · rintro ⟨segments, rfl, hvalues, rfl, hle⟩
        cases segments with
        | nil => exact absurd rfl hrest
        | cons s segments =>
          obtain ⟨hvalue, hvalues⟩ := List.forall_mem_cons.mp hvalues
          have hpos := length_text_pos s
          have hcons : textOf (s :: segments) = s.text ++ textOf segments := rfl
          have hsum : millisOf (s :: segments) = s.millis + millisOf segments := by
            rw [millisOf, millisOf, List.map_cons, List.sum_cons]
          rw [hsum] at hle ⊢
          rw [hcons, List.length_append] at hrounds
          have hfits : total + s.millis ≤ u64Max := by omega
          have hlen : (textOf segments).length ≤ rounds := by omega
          rw [hcons, durationRound_segment input s (numberNext_textOf segments) hvalue hfits]
          exact (ih hlen hfits).mpr
            ⟨segments, rfl, hvalues, (Nat.add_assoc ..).symm, hle⟩

theorem parseDuration_trim (input : String) (htrim : trim input.toList ≠ []) :
    parseDuration input = (parseSegments input (trim input.toList).length 0
      (trim input.toList)).map fun ms => some (Duration.fromMillis ms) := by
  unfold parseDuration
  simp only
  rw [if_neg (by rw [List.isEmpty_iff]; exact htrim)]

theorem denotes_iff (input : String) (htrim : trim input.toList ≠ []) (ms : Nat) :
    Denotes (trim input.toList) ms ↔
      parseSegments input (trim input.toList).length 0 (trim input.toList) = .ok ms := by
  rw [parseSegments_iff input (Nat.le_refl _) (Nat.zero_le _)]
  constructor
  · rintro ⟨segments, -, htext, hvalues, hsum, hle⟩
    exact ⟨segments, htext, hvalues, by rw [Nat.zero_add, hsum], hle⟩
  · rintro ⟨segments, htext, hvalues, hsum, hle⟩
    refine ⟨segments, ?_, htext, hvalues, by rw [hsum, Nat.zero_add], hle⟩
    rintro rfl
    exact htrim htext

/-- The parser on every input. The text is only cut between characters, and the loop ends
by itself, however many rounds it is given. -/
theorem parseDuration_exact (input : String) :
    (parseDuration input = .ok none ↔ trim input.toList = []) ∧
      (∀ d, parseDuration input = .ok (some d) ↔
        ∃ ms, Denotes (trim input.toList) ms ∧ d = Duration.fromMillis ms) ∧
      ((∃ e, parseDuration input = .error e) ↔
        trim input.toList ≠ [] ∧ ∀ ms, ¬ Denotes (trim input.toList) ms) ∧
      (∀ rounds, (trim input.toList).length ≤ rounds →
        parseSegments input rounds 0 (trim input.toList) =
          parseSegments input (trim input.toList).length 0 (trim input.toList)) ∧
      ∀ rest, splitLeadingDigitsAt rest = some (splitLeadingDigits rest) ∧
        splitLeadingUnitAt rest = some (splitLeadingUnit rest) := by
  have hend : ∀ rounds, (trim input.toList).length ≤ rounds →
      parseSegments input rounds 0 (trim input.toList) =
        parseSegments input (trim input.toList).length 0 (trim input.toList) :=
    fun rounds hrounds => parseSegments_rounds input hrounds (Nat.le_refl _)
  have hslices := fun rest => And.intro (splitLeadingDigitsAt_eq rest) (splitLeadingUnitAt_eq rest)
  by_cases htrim : trim input.toList = []
  · have hnone : parseDuration input = .ok none := by
      unfold parseDuration
      simp only [htrim, List.isEmpty_nil, if_true]
    have hempty : ∀ ms, ¬ Denotes (trim input.toList) ms := by
      rintro ms ⟨segments, hne, htext, -⟩
      rw [htrim] at htext
      exact hne (eq_nil_of_textOf htext.symm)
    refine ⟨iff_of_true hnone htrim, fun d => iff_of_false ?_ ?_, iff_of_false ?_ ?_, hend,
      hslices⟩
    · rw [hnone]
      simp
    · rintro ⟨ms, hms, -⟩
      exact hempty ms hms
    · rintro ⟨e, he⟩
      rw [hnone] at he
      cases he
    · exact fun h => h.1 htrim
  · rw [parseDuration_trim input htrim]
    have hdenotes := denotes_iff input htrim
    cases hloop : parseSegments input (trim input.toList).length 0 (trim input.toList) with
    | ok total =>
      simp only [hloop, Except.ok.injEq] at hdenotes
      refine ⟨iff_of_false (by simp [Except.map]) htrim, fun d => ?_, iff_of_false ?_ ?_, ?_,
        hslices⟩
      · constructor
        · intro h
          exact ⟨total, (hdenotes total).mpr rfl, (Option.some.inj (Except.ok.inj h)).symm⟩
        · rintro ⟨ms, hms, rfl⟩
          rw [← (hdenotes ms).mp hms]
          rfl
      · rintro ⟨e, he⟩
        cases he
      · exact fun h => h.2 total ((hdenotes total).mpr rfl)
      · rw [← hloop]
        exact hend
    | error e =>
      simp only [hloop, reduceCtorEq, iff_false] at hdenotes
      refine ⟨iff_of_false (by simp [Except.map]) htrim,
        fun d => iff_of_false (by simp [Except.map]) ?_, iff_of_true ⟨e, rfl⟩ ⟨htrim, hdenotes⟩,
        ?_, hslices⟩
      · rintro ⟨ms, hms, -⟩
        exact hdenotes ms hms
      · rw [← hloop]
        exact hend

end CvdBench.Spec
