import Mathlib.Algebra.Group.Nat.Defs
import Mathlib.Data.List.Basic

/-!
The string syntaxes of a spec: durations, sizes and rate limits (`cvd_common::parse`).
An empty string stands for an unset field.
-/

set_option autoImplicit false

namespace CvdBench.Spec

/-- A `Duration` or an `Instant`, in nanoseconds. -/
abbrev Duration := Nat

def Duration.fromMillis (ms : Nat) : Duration := ms * 1000000

def Duration.asMillis (d : Duration) : Nat := d / 1000000

inductive ParseError where
  | missingNumber (field : String) (input : String)
  | invalidNumber (field : String) (number : String) (input : String)
  | invalidUnit (field : String) (unit : String) (input : String)
  | overflow (field : String) (input : String)
  | invalidShape (field : String) (input : String)
  deriving DecidableEq, Repr

def u64Max : Nat := 2^64 - 1

/-- `char::is_whitespace`: the Unicode property White_Space. -/
def isWhitespace (c : Char) : Bool :=
  let n := c.toNat
  (9 ≤ n && n ≤ 13) || n == 0x20 || n == 0x85 || n == 0xA0 || n == 0x1680 ||
    (0x2000 ≤ n && n ≤ 0x200A) || n == 0x2028 || n == 0x2029 || n == 0x202F ||
    n == 0x205F || n == 0x3000

def trimStart (cs : List Char) : List Char := cs.dropWhile isWhitespace

def trimEnd (cs : List Char) : List Char := (cs.reverse.dropWhile isWhitespace).reverse

def trim (cs : List Char) : List Char := trimEnd (trimStart cs)

def isAsciiDigit (c : Char) : Bool := '0' ≤ c && c ≤ '9'

def isAsciiAlphabetic (c : Char) : Bool := ('a' ≤ c && c ≤ 'z') || ('A' ≤ c && c ≤ 'Z')

def splitLeadingDigits (cs : List Char) : List Char × List Char :=
  (cs.takeWhile isAsciiDigit, cs.dropWhile isAsciiDigit)

/-- The decimal value of the digits read so far, `none` on a character that is
not a digit or past `u64::MAX`. -/
def parseDigits (acc : Nat) : List Char → Option Nat
  | [] => some acc
  | c :: cs =>
      if isAsciiDigit c then
        let acc := acc * 10 + (c.toNat - '0'.toNat)
        if acc ≤ u64Max then parseDigits acc cs else none
      else none

/-- `str::parse::<u64>`: one leading plus sign is allowed, a minus sign is not. -/
def parseU64 : List Char → Option Nat
  | [] => none
  | ['+'] => none
  | '+' :: cs => parseDigits 0 cs
  | cs => parseDigits 0 cs

def checkedU64 (n : Nat) : Option Nat := if n ≤ u64Max then some n else none

/-- Prefers `ms`, then one ASCII letter; anything else leaves the unit empty. -/
def splitLeadingUnit : List Char → List Char × List Char
  | 'm' :: 's' :: rest => (['m', 's'], rest)
  | c :: rest => if isAsciiAlphabetic c then ([c], rest) else ([], c :: rest)
  | [] => ([], [])

def unitMs (input : String) (unit : List Char) : Except ParseError Nat :=
  match unit with
  | ['m', 's'] => .ok 1
  | ['s'] => .ok 1000
  | ['m'] => .ok 60000
  | ['h'] => .ok 3600000
  | [] => .error (.invalidShape "duration" input)
  | other => .error (.invalidUnit "duration" (String.ofList other) input)

/-- The loop of `parse_duration`. Each round drops at least one digit, so the
length of the text bounds the number of rounds. -/
def parseSegments (input : String) : Nat → Nat → List Char → Except ParseError Nat
  | _, total, [] => .ok total
  | 0, _, _ => .error (.invalidShape "duration" input)
  | rounds + 1, total, rest => do
      let (num, afterNum) := splitLeadingDigits rest
      if num.isEmpty then .error (.missingNumber "duration" input) else do
        let some value := parseU64 num
          | .error (.invalidNumber "duration" (String.ofList num) input)
        let (unit, afterUnit) := splitLeadingUnit afterNum
        let ms ← unitMs input unit
        let some segment := checkedU64 (value * ms)
          | .error (.overflow "duration" input)
        let some total := checkedU64 (total + segment)
          | .error (.overflow "duration" input)
        parseSegments input rounds total afterUnit

def parseDuration (input : String) : Except ParseError (Option Duration) :=
  let trimmed := trim input.toList
  if trimmed.isEmpty then .ok none
  else (parseSegments input trimmed.length 0 trimmed).map fun ms =>
    some (Duration.fromMillis ms)

def unitMultiplier (unit : List Char) : Option Nat :=
  match String.ofList unit with
  | "" | "B" => some 1
  | "K" | "KB" => some 1000
  | "M" | "MB" => some 1000000
  | "G" | "GB" => some 1000000000
  | "T" | "TB" => some 1000000000000
  | "Ki" | "KiB" => some (2^10)
  | "Mi" | "MiB" => some (2^20)
  | "Gi" | "GiB" => some (2^30)
  | "Ti" | "TiB" => some (2^40)
  | _ => none

def parseSizeField (input : List Char) (field : String) : Except ParseError (Option Nat) :=
  let trimmed := trim input
  let text := String.ofList input
  if trimmed.isEmpty then .ok none
  else
    let (num, suffix) := splitLeadingDigits trimmed
    if num.isEmpty then .error (.missingNumber field text)
    else match parseU64 num with
      | none => .error (.invalidNumber field (String.ofList num) text)
      | some value => match unitMultiplier suffix with
        | none => .error (.invalidUnit field (String.ofList suffix) text)
        | some multiplier => match checkedU64 (value * multiplier) with
          | none => .error (.overflow field text)
          | some bytes => .ok (some bytes)

def parseSize (input : String) : Except ParseError (Option Nat) :=
  parseSizeField input.toList "size"

inductive RateLimit where
  | throughput (bytesPerSec : Nat)
  | iops (opsPerSec : Nat)
  deriving DecidableEq, Repr

def stripSuffix (suffix cs : List Char) : Option (List Char) :=
  if suffix.isSuffixOf cs then some (cs.take (cs.length - suffix.length)) else none

def parseRateLimit (input : String) : Except ParseError (Option RateLimit) :=
  let trimmed := trim input.toList
  if trimmed.isEmpty then .ok none
  else match stripSuffix ['i', 'o', 'p', 's'] trimmed with
    | some num =>
        let num := trimEnd num
        if num.isEmpty then .error (.missingNumber "rate_limit" input)
        else match parseU64 num with
          | none => .error (.invalidNumber "rate_limit" (String.ofList num) input)
          | some ops => .ok (some (.iops ops))
    | none => match stripSuffix ['/', 's'] trimmed with
      | some sizePart => match parseSizeField sizePart "rate_limit" with
        | .error e => .error e
        | .ok none => .error (.missingNumber "rate_limit" input)
        | .ok (some bytes) => .ok (some (.throughput bytes))
      | none => .error (.invalidShape "rate_limit" input)

end CvdBench.Spec
