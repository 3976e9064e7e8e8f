import Mathlib.Data.List.Basic

/-!
Texts as lists of characters: cutting at newlines and at slashes, and putting the pieces
together again.
-/

set_option autoImplicit false

namespace CvdBench.Foundation.Text

/-- `split_inclusive('\n')`: every line keeps its newline, and only the last can lack one. -/
def splitInclusive : List Char → List (List Char)
  | [] => []
  | '\n' :: cs => ['\n'] :: splitInclusive cs
  | c :: cs => match splitInclusive cs with
    | [] => [[c]]
    | line :: lines => (c :: line) :: lines

/-- The newline at the end of a line is cut off, and the carriage return before it. -/
def stripNewline (line : List Char) : List Char :=
  match line.reverse with
  | '\n' :: '\r' :: rest => rest.reverse
  | '\n' :: rest => rest.reverse
  | _ => line

/-- `str::lines` -/
def lines (cs : List Char) : List (List Char) := (splitInclusive cs).map stripNewline

theorem splitInclusive_cons {c : Char} {cs : List Char} (hc : c ≠ '\n') :
    splitInclusive (c :: cs) = match splitInclusive cs with
      | [] => [[c]]
      | line :: lines => (c :: line) :: lines := by
  rw [splitInclusive]
  simpa using hc

theorem flatten_splitInclusive (cs : List Char) : (splitInclusive cs).flatten = cs := by
  induction cs with
  | nil => rfl
  | cons c cs ih =>
    by_cases hc : c = '\n'
    · subst hc
      simp [splitInclusive, ih]
    · rw [splitInclusive_cons hc]
      cases hlines : splitInclusive cs with
      | nil =>
        rw [hlines] at ih
        simp [← ih]
      | cons line lines =>
        rw [hlines] at ih
        simp [← ih]

def joinSlash : List (List Char) → List Char
  | [] => []
  | [seg] => seg
  | seg :: segs => seg ++ '/' :: joinSlash segs

theorem joinSlash_cons {seg : List Char} {segs : List (List Char)} (h : segs ≠ []) :
    joinSlash (seg :: segs) = seg ++ '/' :: joinSlash segs := by
  cases segs with
  | nil => exact absurd rfl h
  | cons seg' segs => rfl

theorem mem_joinSlash {c : Char} {segs : List (List Char)} (hc : c ≠ '/')
    (h : c ∈ joinSlash segs) : ∃ seg ∈ segs, c ∈ seg := by
  induction segs with
  | nil => simp [joinSlash] at h
  | cons seg segs ih =>
    by_cases hsegs : segs = []
    · subst hsegs
      exact ⟨seg, by simp, h⟩
    · rw [joinSlash_cons hsegs, List.mem_append, List.mem_cons] at h
      rcases h with h | h | h
      · exact ⟨seg, by simp, h⟩
      · exact absurd h hc
      · obtain ⟨seg', hmem, hc'⟩ := ih h
        exact ⟨seg', by simp [hmem], hc'⟩

end CvdBench.Foundation.Text
