import Mathlib.Data.List.Basic

/-!
What a read of a file sends to its consumer (`fs_io`): the opening, the chunks, the closing,
or an error in their place.
-/

set_option autoImplicit false

namespace CvdBench.Worker

inductive ReadStreamPhase where
  | opening
  | read
  | close
  deriving DecidableEq, Repr

inductive ReadStreamEvent where
  | opened
  | chunk (bytes : List UInt8)
  | closed
  deriving DecidableEq, Repr

structure ReadStreamError where
  phase : ReadStreamPhase
  source : String
  deriving DecidableEq, Repr

abbrev ReadStreamItem := Except ReadStreamError ReadStreamEvent

/-- What the operating system makes of one read. -/
inductive FileRead where
  | openFails (source : String)
  | readFails (chunks : List (List UInt8)) (source : String)
  | closes (chunks : List (List UInt8))
  deriving DecidableEq, Repr

namespace FileRead

def chunkItems (chunks : List (List UInt8)) : List ReadStreamItem :=
  chunks.map fun bytes => .ok (.chunk bytes)

/-- All that `stream_read_file` sends; an error is the last. -/
def items : FileRead → List ReadStreamItem
  | openFails source => [.error ⟨.opening, source⟩]
  | readFails chunks source => .ok .opened :: chunkItems chunks ++ [.error ⟨.read, source⟩]
  | closes chunks => .ok .opened :: chunkItems chunks ++ [.ok .closed]

theorem closes_of_ok {file : FileRead} (h : ∀ item ∈ file.items, ∀ err, item ≠ .error err) :
    ∃ chunks, file = .closes chunks := by
  cases file with
  | openFails source => exact absurd rfl (h (.error ⟨.opening, source⟩) (by simp [items]) _)
  | readFails chunks source =>
    exact absurd rfl (h (.error ⟨.read, source⟩) (by simp [items]) _)
  | closes chunks => exact ⟨chunks, rfl⟩

end FileRead

end CvdBench.Worker
