import CvdBench.Spec.Validate
import CvdBench.Wire.Proto

/-!
The comparison of a file with its S3 object (`runner/consistency.rs`).
-/

set_option autoImplicit false

namespace CvdBench.Worker

open Proto Spec

structure ConsistencyClient where
  bucket : String
  /-- goes before the path of a file that has no key of its own -/
  keyPrefix : String
  workerId : String
  deriving DecidableEq, Repr

/-- What `get_object` fails with: a service error is `NoSuchKey` or has a code, perhaps. -/
inductive GetObjectError where
  | service (noSuchKey : Bool) (code : Option String) (text : String)
  | other (text : String)
  deriving DecidableEq, Repr

def GetObjectError.text : GetObjectError → String
  | service _ _ text => text
  | other text => text

/-- The object store: the parts of a body, or what breaks it off. -/
abbrev GetObject := String → String → Except GetObjectError (List (Except String (List UInt8)))

def classifyGetObjectError : GetObjectError → ConsistencyErrorType
  | .other _ => .s3ReadError
  | .service noSuchKey code _ =>
      if noSuchKey then .s3NotFound
      else match code with
        | some "NoSuchKey" => .s3NotFound
        | some "AccessDenied" => .permissionDenied
        | some "SlowDown" | some "RequestThrottled" | some "ServiceUnavailable" => .s3Throttle
        | _ => .s3ReadError

/-- The digest is computed from what has been fed to the hasher so far. -/
structure StreamingHash where
  hasher : List UInt8
  size : Nat
  deriving DecidableEq, Repr

namespace StreamingHash

def new : StreamingHash := ⟨[], 0⟩

def update (h : StreamingHash) (chunk : List UInt8) : StreamingHash :=
  ⟨h.hasher ++ chunk, saturatingAddU64 h.size chunk.length⟩

def finalize (sha256 : List UInt8 → List UInt8) (h : StreamingHash) : List UInt8 × Nat :=
  (sha256 h.hasher, h.size)

theorem update_flatten (h : StreamingHash) (chunks : List (List UInt8))
    (hsize : h.size = h.hasher.length) (hfits : (h.hasher ++ chunks.flatten).length < 2^64) :
    chunks.foldl update h = ⟨h.hasher ++ chunks.flatten, (h.hasher ++ chunks.flatten).length⟩ := by
  induction chunks generalizing h with
  | nil =>
    cases h
    simp only at hsize
    simp [hsize]
  | cons chunk chunks ih =>
    rw [List.flatten_cons, ← List.append_assoc] at hfits ⊢
    have hnow : (h.update chunk).size = (h.update chunk).hasher.length := by
      simp only [List.length_append] at hfits
      simp only [update, saturatingAddU64, u64Max, List.length_append, hsize]
      omega
    exact ih (h.update chunk) hnow hfits

end StreamingHash

namespace ConsistencyClient

/-- `s3_key`, or else the prefix and the path. -/
def resolveKey (client : ConsistencyClient) (file : FileEntry) : String :=
  if file.s3Key ≠ "" then file.s3Key else client.keyPrefix ++ file.fsPath

def error (client : ConsistencyClient) (file : FileEntry) (key : String)
    (kind : ConsistencyErrorType) (message : String) : ConsistencyError :=
  { workerId := client.workerId, fsPath := file.fsPath, s3Key := key, type := kind, message }

def readBody : StreamingHash → List (Except String (List UInt8)) → Except String StreamingHash
  | h, [] => .ok h
  | h, .ok bytes :: body => readBody (h.update bytes) body
  | _, .error e :: _ => .error e

theorem readBody_ok (h : StreamingHash) (parts : List (List UInt8)) :
    readBody h (parts.map .ok) = .ok (parts.foldl StreamingHash.update h) := by
  induction parts generalizing h with
  | nil => rfl
  | cons part parts ih => exact ih (h.update part)

def check (sha256 : List UInt8 → List UInt8) (getObject : GetObject) (client : ConsistencyClient)
    (file : FileEntry) (fsSize : Nat) (fsHash : List UInt8) : Except ConsistencyError Nat :=
  let key := client.resolveKey file
  match getObject client.bucket key with
  | .error err => .error (client.error file key (classifyGetObjectError err) err.text)
  | .ok body => match readBody .new body with
    | .error e => .error (client.error file key .s3ReadError ("body stream: " ++ e))
    | .ok s3 =>
        let (s3Hash, s3Size) := s3.finalize sha256
        if s3Size ≠ fsSize then
          .error (client.error file key .sizeMismatch s!"fs={fsSize} s3={s3Size}")
        else if s3Hash ≠ fsHash then
          .error (client.error file key .hashMismatch "sha256 mismatch")
        else .ok s3Size

theorem check_object (sha256 : List UInt8 → List UInt8) {getObject : GetObject}
    {client : ConsistencyClient} {file : FileEntry} {parts : List (List UInt8)}
    (hobject : getObject client.bucket (client.resolveKey file) = .ok (parts.map .ok))
    (hfits : parts.flatten.length < 2^64) (fsSize : Nat) (fsHash : List UInt8) :
    client.check sha256 getObject file fsSize fsHash =
      if parts.flatten.length ≠ fsSize then
        .error (client.error file (client.resolveKey file) .sizeMismatch
          (let s3Size := parts.flatten.length
           s!"fs={fsSize} s3={s3Size}"))
      else if sha256 parts.flatten ≠ fsHash then
        .error (client.error file (client.resolveKey file) .hashMismatch "sha256 mismatch")
      else .ok parts.flatten.length := by
  have hbody : parts.foldl StreamingHash.update .new =
      ⟨parts.flatten, parts.flatten.length⟩ :=
    StreamingHash.update_flatten .new parts rfl hfits
  unfold check
  simp only [hobject, readBody_ok, hbody, StreamingHash.finalize]
  rfl

end ConsistencyClient

end CvdBench.Worker
