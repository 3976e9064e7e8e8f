import CvdBench.Foundation.Text
import CvdBench.Manifest.Reader
import CvdBench.Spec.Parse
import CvdBench.Spec.PathSafe

/-!
The reader of a `file_manifest` (`manifest/file_csv.rs`). The `csv` crate is a parameter:
it makes records out of a text.
-/

set_option autoImplicit false

namespace CvdBench.Manifest

open Foundation Foundation.Text Proto Master

inductive ReaderError where
  | io (source : String)
  | csv (lineno : Nat) (source : String)
  | pathSafe (lineno : Nat) (source : Spec.PathSafeError)
  | queueClosed (lineno : Nat)
  deriving DecidableEq, Repr

/-- The records of a text, or the errors in their place, in the order of the text. -/
abbrev CsvRecords := List (Except String (List String))

structure CsvEnv where
  /-- the `csv` crate, with `has_headers(false)` and `flexible(true)` -/
  csv : String → CsvRecords
  content : String

/-- Blank, or a comment: its first character that is no whitespace is `#`. -/
def isSkipLine (line : List Char) : Bool :=
  let trimmed := Spec.trimStart line
  trimmed.isEmpty || trimmed.head? == some '#'

def filterLine (line : List Char) : List Char := if isSkipLine line then ['\n'] else line

def filterManifest (data : String) : String :=
  String.ofList ((Text.splitInclusive data.toList).flatMap filterLine)

def trimField (field : String) : String := String.ofList (Spec.trim field.toList)

def csvEntry (record : List String) : Except Spec.PathSafeError (Option FileEntry) :=
  if record.isEmpty then .ok none
  else
    let fsPathRaw := trimField (record[0]?.getD "")
    if fsPathRaw.isEmpty then .ok none
    else
      let s3Key := (record[1]?.map trimField).getD ""
      match Spec.normalizeRelative fsPathRaw with
      | .error source => .error source
      | .ok fsPath => .ok (some ⟨fsPath, s3Key⟩)

/-- `read_pass` on the records, when nobody cancels and the queue stays open: what it
pushes, and its result. -/
def readRecords : Nat → CsvRecords → List FileEntry × Except ReaderError Unit
  | _, [] => ([], .ok ())
  | lineno, .error source :: _ => ([], .error (.csv lineno source))
  | lineno, .ok record :: rest => match csvEntry record with
    | .error source => ([], .error (.pathSafe lineno source))
    | .ok none => readRecords (lineno + 1) rest
    | .ok (some entry) =>
        let (entries, res) := readRecords (lineno + 1) rest
        (entry :: entries, res)

def CsvEnv.records (env : CsvEnv) : CsvRecords := env.csv (filterManifest env.content)

def CsvEnv.readPass (env : CsvEnv) : List FileEntry × Except ReaderError Unit :=
  readRecords 1 env.records

inductive CsvReader where
  | top
  | opening
  | records (lineno : Nat) (rest : CsvRecords)
  | push (lineno : Nat) (entry : FileEntry) (rest : CsvRecords)
  | pushHeld (lineno : Nat) (entry : FileEntry) (rest : CsvRecords)
  | passed
  | finished (res : Except ReaderError Unit)

inductive CsvAct where
  | run
  | fault (source : String)
  | refused

def CsvReader.record (lineno : Nat) (rest : CsvRecords) : Except String (List String) → CsvReader
  | .error source => .finished (.error (.csv lineno source))
  | .ok record => match csvEntry record with
    | .error source => .finished (.error (.pathSafe lineno source))
    | .ok none => .records (lineno + 1) rest
    | .ok (some entry) => .push lineno entry rest

def CsvReader.step (env : CsvEnv) (loopFiles cancel : Bool) :
    CsvReader → CsvAct → Option (CsvReader × CellStep)
  | .top, .run => some (if cancel then .finished (.ok ()) else .opening, .local)
  | .opening, .fault source => some (.finished (.error (.io source)), .local)
  | .opening, .run => some (.records 1 env.records, .local)
  | .records _ [], .run => some (.passed, .local)
  | .records lineno (record :: rest), .run =>
      some (if cancel then .passed else CsvReader.record lineno rest record, .local)
  | .push lineno entry rest, .run => some (.pushHeld lineno entry rest, .act .acquire)
  | .push lineno _ _, .refused => some (.finished (.error (.queueClosed lineno)), .refused)
  | .pushHeld lineno entry rest, .run =>
      some (.records (lineno + 1) rest, .act (.pushBack entry))
  | .passed, .run =>
      if loopFiles then some (.top, .act (.setDone false))
      else some (.finished (.ok ()), .act (.setDone true))
  | _, _ => none

inductive CsvReader.Move (env : CsvEnv) (loopFiles cancel : Bool) :
    CsvReader → CsvReader → CellStep → Prop where
  | topCancel : cancel = true → Move env loopFiles cancel .top (.finished (.ok ())) .local
  | top : cancel = false → Move env loopFiles cancel .top .opening .local
  | openFail (source : String) :
      Move env loopFiles cancel .opening (.finished (.error (.io source))) .local
  | opened : Move env loopFiles cancel .opening (.records 1 env.records) .local
  | recordsEnd (n : Nat) : Move env loopFiles cancel (.records n []) .passed .local
  | recordsCancel (n : Nat) (record : Except String (List String)) (rest : CsvRecords) :
      cancel = true → Move env loopFiles cancel (.records n (record :: rest)) .passed .local
  | record (n : Nat) (record : Except String (List String)) (rest : CsvRecords) :
      cancel = false → Move env loopFiles cancel (.records n (record :: rest))
        (CsvReader.record n rest record) .local
  | acquire (n : Nat) (entry : FileEntry) (rest : CsvRecords) :
      Move env loopFiles cancel (.push n entry rest) (.pushHeld n entry rest) (.act .acquire)
  | refused (n : Nat) (entry : FileEntry) (rest : CsvRecords) :
      Move env loopFiles cancel (.push n entry rest) (.finished (.error (.queueClosed n))) .refused
  | pushBack (n : Nat) (entry : FileEntry) (rest : CsvRecords) :
      Move env loopFiles cancel (.pushHeld n entry rest) (.records (n + 1) rest)
        (.act (.pushBack entry))
  | loop : loopFiles = true → Move env loopFiles cancel .passed .top (.act (.setDone false))
  | done : loopFiles = false →
      Move env loopFiles cancel .passed (.finished (.ok ())) (.act (.setDone true))

theorem CsvReader.step_move {env : CsvEnv} {loopFiles cancel : Bool} {r r' : CsvReader}
    {act : CsvAct} {c : CellStep} (h : r.step env loopFiles cancel act = some (r', c)) :
    r.Move env loopFiles cancel r' c := by
  unfold CsvReader.step at h
  split at h
  · cases hcancel : cancel with
    | true =>
      rw [hcancel] at h
      cases h
      exact .topCancel rfl
    | false =>
      rw [hcancel] at h
      cases h
      exact .top rfl
  · cases h
    exact .openFail _
  · cases h
    exact .opened
  · cases h
    exact .recordsEnd _
  · cases hcancel : cancel with
    | true =>
      rw [hcancel] at h
      cases h
      exact .recordsCancel _ _ _ rfl
    | false =>
      rw [hcancel] at h
      cases h
      exact .record _ _ _ rfl
  · cases h
    exact .acquire _ _ _
  · cases h
    exact .refused _ _ _
  · cases h
    exact .pushBack _ _ _
  · split at h
    · next hloop =>
      cases h
      exact .loop hloop
    · next hloop =>
      cases h
      exact .done (by simpa using hloop)
  · cases h

def recordEntry? : Except String (List String) → Option FileEntry
  | .error _ => none
  | .ok record => match csvEntry record with
    | .ok entry => entry
    | .error _ => none

def recordsLeft (rest : CsvRecords) : Multiset FileEntry := rest.filterMap recordEntry?

def CsvEnv.load (env : CsvEnv) : Multiset FileEntry := recordsLeft env.records

def CsvReader.left (env : CsvEnv) : CsvReader → Multiset FileEntry
  | .opening => env.load
  | .records _ rest => recordsLeft rest
  | .push _ entry rest | .pushHeld _ entry rest => {entry} + recordsLeft rest
  | _ => 0

def CsvReader.sees : CsvReader → Bool
  | .records _ (_ :: _) => true
  | _ => false

theorem recordsLeft_cons (record : Except String (List String)) (rest : CsvRecords) :
    recordsLeft (record :: rest) =
      ( recordEntry? record).elim 0 (fun entry => {entry}) + recordsLeft rest := by
  unfold recordsLeft
  rw [List.filterMap_cons]
  cases recordEntry? record with
  | none => simp
  | some entry => simp

theorem CsvReader.record_cases (n : Nat) (rest : CsvRecords)
    (record : Except String (List String)) :
    (∃ err, CsvReader.record n rest record = .finished (.error err)) ∨
    (CsvReader.record n rest record = .records (n + 1) rest ∧
      recordsLeft (record :: rest) = recordsLeft rest) ∨
    ∃ entry, CsvReader.record n rest record = .push n entry rest ∧
      recordsLeft (record :: rest) = {entry} + recordsLeft rest := by
  rw [recordsLeft_cons]
  cases record with
  | error source => exact .inl ⟨_, rfl⟩
  | ok record =>
    cases hentry : csvEntry record with
    | error source =>
      refine .inl ⟨.pathSafe n source, ?_⟩
      simp [CsvReader.record, hentry]
    | ok entry =>
      right
      cases entry with
      | none => exact .inl (by simp [CsvReader.record, hentry, recordEntry?])
      | some entry => exact .inr ⟨entry, by simp [CsvReader.record, hentry, recordEntry?]⟩

end CvdBench.Manifest
