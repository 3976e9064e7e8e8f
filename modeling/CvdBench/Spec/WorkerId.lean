import Mathlib.Data.List.Basic

/-!
The alphabet of worker ids (`cvd_common::id`), checked by every worker RPC.
-/

set_option autoImplicit false

namespace CvdBench.Spec

def maxWorkerIdLen : Nat := 128

inductive WorkerIdError where
  | empty
  | tooLong (len : Nat)
  | badChar (ch : Char)
  deriving DecidableEq, Repr

def isAllowed (ch : Char) : Bool :=
  ('0' ≤ ch && ch ≤ '9') || ('a' ≤ ch && ch ≤ 'z') || ('A' ≤ ch && ch ≤ 'Z') ||
    ch == '.' || ch == '_' || ch == '-'

def validateWorkerId (id : String) : Except WorkerIdError Unit :=
  if id.isEmpty then .error .empty
  else if id.utf8ByteSize > maxWorkerIdLen then .error (.tooLong id.utf8ByteSize)
  else match id.toList.find? (fun ch => !isAllowed ch) with
    | some ch => .error (.badChar ch)
    | none => .ok ()

end CvdBench.Spec
