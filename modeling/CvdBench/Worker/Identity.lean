import CvdBench.Spec.WorkerId
import Mathlib.Data.List.DropRight

/-!
The id that a daemon gives itself when it starts (`id::generate`): the name of its host, the
process, and the head of a UUID.
-/

set_option autoImplicit false

namespace CvdBench.Worker

open Spec

def sanitizeHostname (raw : String) : String :=
  let cleaned := raw.toList.map fun c => if isAllowed c then c else '_'
  if cleaned.isEmpty then "unknown" else String.ofList cleaned

/-- `content` is what can be read from `/proc/sys/kernel/hostname`. -/
def hostnameOrDefault (content : Option String) : String :=
  ((content.map fun s => String.ofList (s.toList.rdropWhile (· == '\n'))).filter
    fun s => !s.isEmpty).getD "unknown"

def hexDigits : List Char :=
  ['0', '1', '2', '3', '4', '5', '6', '7', '8', '9', 'a', 'b', 'c', 'd', 'e', 'f']

/-- The simple form of a UUID. -/
structure SimpleUuid where
  chars : List Char
  length : chars.length = 32
  digits : ∀ c ∈ chars, c ∈ hexDigits

def uuid8 (uuid : SimpleUuid) : String := String.ofList (uuid.chars.take 8)

def generate (content : Option String) (pid : UInt32) (uuid : SimpleUuid) : String :=
  sanitizeHostname (hostnameOrDefault content) ++ "-" ++ pid.toNat.repr ++ "-" ++ uuid8 uuid

theorem hostnameOrDefault_ne_empty (content : Option String) :
    (hostnameOrDefault content).toList ≠ [] := by
  unfold hostnameOrDefault
  generalize (content.map fun s => String.ofList (s.toList.rdropWhile (· == '\n'))) = host
  cases hfilter : host.filter fun s => !s.isEmpty with
  | none => decide
  | some s =>
    obtain ⟨-, hne⟩ := Option.filter_eq_some_iff.mp hfilter
    intro hnil
    rw [Option.getD_some, String.toList_eq_nil_iff] at hnil
    simp [hnil] at hne

theorem toList_sanitizeHostname (content : Option String) :
    (sanitizeHostname (hostnameOrDefault content)).toList =
      (hostnameOrDefault content).toList.map fun c => if isAllowed c then c else '_' := by
  have hne := hostnameOrDefault_ne_empty content
  unfold sanitizeHostname
  rw [if_neg (by simpa using hne), String.toList_ofList]

theorem toList_generate (content : Option String) (pid : UInt32) (uuid : SimpleUuid) :
    (generate content pid uuid).toList =
      ((sanitizeHostname (hostnameOrDefault content)).toList ++
        '-' :: Nat.toDigits 10 pid.toNat) ++ '-' :: uuid.chars.take 8 := by
  simp [generate, uuid8, String.toList_append, Nat.toList_repr]

theorem isAllowed_of_isDigit {c : Char} (h : c.isDigit = true) : isAllowed c = true := by
  have hdigit : '0' ≤ c ∧ c ≤ '9' := by simpa [Char.isDigit, Char.le_def] using h
  simp [isAllowed, hdigit]

theorem isAllowed_digit {n : Nat} {c : Char} (h : c ∈ Nat.toDigits 10 n) : isAllowed c = true :=
  isAllowed_of_isDigit (Nat.isDigit_of_mem_toDigits (by decide) (by decide) h)

theorem isAllowed_hex : ∀ c ∈ hexDigits, isAllowed c = true :=
  List.all_eq_true.mp (by decide : hexDigits.all isAllowed = true)

theorem generate_allowed (content : Option String) (pid : UInt32) (uuid : SimpleUuid) :
    ∀ c ∈ (generate content pid uuid).toList, isAllowed c = true := by
  intro c hc
  rw [toList_generate, toList_sanitizeHostname] at hc
  rcases List.mem_append.mp hc with hc | hc
  · rcases List.mem_append.mp hc with hc | hc
    · obtain ⟨raw, -, rfl⟩ := List.mem_map.mp hc
      split
      · assumption
      · decide
    · rcases List.mem_cons.mp hc with rfl | hc
      · decide
      · exact isAllowed_digit hc
  · rcases List.mem_cons.mp hc with rfl | hc
    · decide
    · exact isAllowed_hex c (uuid.digits c (List.mem_of_mem_take hc))

end CvdBench.Worker
