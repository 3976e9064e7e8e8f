import CvdBench.Foundation.Csv
import CvdBench.Manifest.Delivery

/-!
What a `file_manifest` denotes: the records of its text, comment lines apart, whose first
column is not empty. One pass pushes them in the order of the file.
-/

set_option autoImplicit false

namespace CvdBench.Manifest

open Foundation Foundation.Text Proto Master

def csvRecord (record : Csv.Record) : List String := record.map String.ofList

/-- The filter changes the line: a comment, or a blank line with more than its newline. -/
def isBlanked (line : List Char) : Bool := isSkipLine line && line != ['\n']

theorem filterLine_eq (line : List Char) :
    filterLine line = if isBlanked line then ['\n'] else line := by
  unfold filterLine isBlanked
  by_cases hnewline : line = ['\n']
  · subst hnewline
    rfl
  · simp [hnewline]

/-- The records that do not end on a line that the filter changes. -/
def manifestRecords (content : String) : List (List String) :=
  ((Csv.located [] .bof (splitInclusive content.toList)).filter fun e => !isBlanked e.1).map
    fun e => csvRecord e.2

/-- No comment lies inside quotes, nor a blank line that is more than a newline, and no comment
opens quotes that the next line closes. -/
def Separate (content : String) : Prop :=
  Csv.Separate isBlanked .bof (splitInclusive content.toList)

instance (content : String) : Decidable (Separate content) :=
  inferInstanceAs (Decidable (Csv.Separate _ _ _))

def firstColumn (record : List String) : String := trimField (record[0]?.getD "")

def secondColumn (record : List String) : String := (record[1]?.map trimField).getD ""

def Accepted (content : String) : Prop :=
  ∀ record ∈ manifestRecords content, firstColumn record ≠ "" →
    ∃ fsPath, Spec.normalizeRelative (firstColumn record) = .ok fsPath

def denotedEntry (record : List String) : Option FileEntry :=
  if firstColumn record = "" then none
  else (Spec.normalizeRelative (firstColumn record)).toOption.map
    fun fsPath => ⟨fsPath, secondColumn record⟩

def manifestEntries (content : String) : List FileEntry :=
  (manifestRecords content).filterMap denotedEntry

theorem csvEntry_eq (record : List String) :
    csvEntry record =
      if firstColumn record = "" then .ok none
      else (Spec.normalizeRelative (firstColumn record)).map
        fun fsPath => some ⟨fsPath, secondColumn record⟩ := by
  unfold csvEntry
  by_cases hrecord : record.isEmpty
  · have hnil : record = [] := by simpa using hrecord
    subst hnil
    rfl
  · rw [if_neg hrecord]
    by_cases hfirst : firstColumn record = ""
    · rw [if_pos hfirst]
      unfold firstColumn at hfirst
      simp [hfirst]
    · rw [if_neg hfirst]
      unfold firstColumn at hfirst ⊢
      simp only [String.isEmpty_iff, if_neg hfirst, secondColumn]
      cases Spec.normalizeRelative (trimField (record[0]?.getD "")) <;> rfl

theorem readRecords_ok (lineno : Nat) (records : List (List String)) :
    ((readRecords lineno (records.map .ok)).2 = .ok () ↔
      ∀ record ∈ records, firstColumn record ≠ "" →
        ∃ fsPath, Spec.normalizeRelative (firstColumn record) = .ok fsPath) ∧
    ((readRecords lineno (records.map .ok)).2 = .ok () →
      (readRecords lineno (records.map .ok)).1 = records.filterMap denotedEntry) := by
  induction records generalizing lineno with
  | nil => simp [readRecords]
  | cons record records ih =>
    have htail := ih (lineno + 1)
    rw [List.map_cons, readRecords, csvEntry_eq, List.filterMap_cons]
    by_cases hfirst : firstColumn record = ""
    · have hnone : denotedEntry record = none := by simp [denotedEntry, hfirst]
      simpa [hfirst, hnone] using htail
    · cases hpath : Spec.normalizeRelative (firstColumn record) with
      | error source => simp [hfirst, hpath, Except.map]
      | ok fsPath =>
        have hsome : denotedEntry record = some ⟨fsPath, secondColumn record⟩ := by
          simp [denotedEntry, hfirst, hpath, Except.toOption]
        simpa [hfirst, hpath, hsome, Except.map] using htail

theorem filterManifest_toList (content : String) :
    (filterManifest content).toList = (splitInclusive content.toList).flatMap
      fun line => if isBlanked line then ['\n'] else line := by
  unfold filterManifest
  rw [String.toList_ofList]
  exact List.flatMap_congr fun line _ => filterLine_eq line

theorem parse_filterManifest {content : String} (hsep : Separate content) :
    (Csv.parse (filterManifest content).toList).map csvRecord = manifestRecords content := by
  have hlast : isBlanked [] = true → Csv.Reader.bof.atStart = true := fun _ => rfl
  have hblanked := Csv.finish_blanked hsep hlast
  rw [filterManifest_toList, Csv.parse, hblanked, List.map_map]
  rfl

def CsvReader.ahead (env : CsvEnv) : CsvReader → List FileEntry × Except ReaderError Unit
  | .top | .opening => env.readPass
  | .records lineno rest => readRecords lineno rest
  | .push lineno entry rest | .pushHeld lineno entry rest =>
      (entry :: (readRecords (lineno + 1) rest).1, (readRecords (lineno + 1) rest).2)
  | .passed => ([], .ok ())
  | .finished res => ([], res)

theorem CsvReader.ahead_record (env : CsvEnv) (lineno : Nat) (rest : CsvRecords)
    (record : Except String (List String)) :
    (CsvReader.record lineno rest record).ahead env = readRecords lineno (record :: rest) := by
  cases record with
  | error source => rfl
  | ok record =>
    cases hentry : csvEntry record with
    | error source => simp [CsvReader.record, hentry, readRecords, CsvReader.ahead]
    | ok entry =>
      cases entry <;> simp [CsvReader.record, hentry, readRecords, CsvReader.ahead]

theorem CsvReader.step_ahead {env : CsvEnv} {r r' : CsvReader} {c : CellStep}
    (h : r.step env false false .run = some (r', c)) :
    r.ahead env = (c.pushed ++ (r'.ahead env).1, (r'.ahead env).2) ∧
      (c = .local ∨ c = .act .acquire ∨ (∃ entry, c = .act (.pushBack entry)) ∨
        c = .act (.setDone true)) := by
  cases r with
  | finished res => cases h
  | records lineno rest =>
    cases rest with
    | nil =>
      cases h
      exact ⟨rfl, .inl rfl⟩
    | cons record rest =>
      cases h
      exact ⟨(CsvReader.ahead_record env lineno rest record).symm, .inl rfl⟩
  | pushHeld lineno entry rest =>
    cases h
    exact ⟨rfl, .inr (.inr (.inl ⟨_, rfl⟩))⟩
  | _ =>
    cases h
    exact ⟨rfl, by simp⟩

/-- The pass goes on undisturbed: the file can be read, nobody cancels, nobody closes the
queue. -/
def DeliveryAct.plain : DeliveryAct → Prop
  | .reader (.csv (.fault _)) | .cancel | .close => False
  | _ => True

section

variable {env : CsvEnv} {capacity : Nat} {tr : DeliveryTrace} {s s' : Delivery}
  {act : DeliveryAct} {o : DeliveryOut}

/-- What has been pushed and what is still to come make up the pass. -/
structure Passing (env : CsvEnv) (tr : DeliveryTrace) (s : Delivery) : Prop where
  reader : ∃ r, s.reader = .csv r ∧
    env.readPass = (pushedEntries tr ++ (r.ahead env).1, (r.ahead env).2)
  flag : s.cell.cancelFlag = false
  opened : s.cell.queue.semaphoreClosed = false

theorem Passing.init : Passing env [] (.init (.csv env) capacity) :=
  ⟨⟨.top, rfl, rfl⟩, rfl, rfl⟩

theorem CellStep.apply_plain {c : CellStep} {cell cell' : ManifestCell}
    (hc : c = .local ∨ c = .act .acquire ∨ (∃ entry, c = .act (.pushBack entry)) ∨
      c = .act (.setDone true)) (h : c.apply cell = some cell') :
    cell'.cancelFlag = cell.cancelFlag ∧
      cell'.queue.semaphoreClosed = cell.queue.semaphoreClosed := by
  rcases hc with rfl | rfl | ⟨entry, rfl⟩ | rfl
  · cases h
    exact ⟨rfl, rfl⟩
  · simp only [CellStep.apply, ReaderAct.apply, Option.map_eq_some_iff] at h
    obtain ⟨queue, hq, rfl⟩ := h
    unfold BoundedQueue.acquire at hq
    split at hq <;> cases hq
    exact ⟨rfl, rfl⟩
  · simp only [CellStep.apply, ReaderAct.apply, Option.map_eq_some_iff] at h
    obtain ⟨queue, hq, rfl⟩ := h
    unfold BoundedQueue.pushBack at hq
    split at hq <;> cases hq
    exact ⟨rfl, rfl⟩
  · cases h
    exact ⟨rfl, rfl⟩

theorem Passing.move (h : Passing env tr s) (hplain : act.plain)
    (hmove : s.Move (.csv env) false act s' o) :
    Passing env (tr ++ [⟨s, act, o, s'⟩]) s' := by
  obtain ⟨r, hreader, hahead⟩ := h.reader
  cases hmove with
  | reader ract r₁ c cell hstep hcell =>
    rw [hreader, h.flag] at hstep
    cases Source.step_cases hstep with
    | @csv _ _ r' act _ hstep =>
      cases act with
      | fault source => cases hplain
      | refused =>
        -- nobody has closed the queue, so no push is refused
        have hrefused : c = .refused := by
          cases r with
          | push => cases hstep; rfl
          | records lineno rest => cases rest <;> cases hstep
          | _ => cases hstep
        subst hrefused
        simp [CellStep.apply, h.opened] at hcell
      | run =>
        obtain ⟨hstepAhead, hkind⟩ := CsvReader.step_ahead hstep
        obtain ⟨hflag, hclosed⟩ := CellStep.apply_plain hkind hcell
        refine ⟨⟨r', rfl, ?_⟩, hflag.trans h.flag, hclosed.trans h.opened⟩
        rw [hahead, hstepAhead, pushedEntries_concat, List.append_assoc]
        rfl
  | cancel | close => cases hplain
  | _ =>
    refine ⟨⟨r, hreader, ?_⟩, h.flag, h.opened⟩
    rw [pushedEntries_concat, hahead]
    simp [DeliveryOut.pushed]

theorem Run.passing (h : (delivery (.csv env) false capacity).Run (.init (.csv env) capacity) tr s)
    (hplain : ∀ e ∈ tr, e.act.plain) : Passing env tr s := by
  refine h.historyWhere (fun _ act => act.plain) hplain .init ?_
  intro tr s act s' o _ _ hs hact hstep
  exact hs.move hact (Delivery.step_move hstep)

/-- For every text in which the lines that the filter changes are separate, and behind a parser of
comma-separated values. A pass returns `Ok` exactly when every first column that is not
empty is a path below the mount point, and it has pushed the entries of the records then,
in the order of the file. The reader ends with what the pass returns, beside
FetchFileBatch calls in any interleaving. What is written with all fields quoted is read
back as it was. -/
theorem readPass_exact
    (hcsv : ∀ text : String, env.csv text = (Csv.parse text.toList).map fun record =>
      .ok (csvRecord record)) (hsep : Separate env.content) :
    (env.readPass.2 = .ok () ↔ Accepted env.content) ∧
    (env.readPass.2 = .ok () → env.readPass.1 = manifestEntries env.content) ∧
    (∀ (capacity : Nat) (tr : DeliveryTrace) (s : Delivery) (res : Except ReaderError Unit),
      (delivery (.csv env) false capacity).Run (.init (.csv env) capacity) tr s →
      (∀ e ∈ tr, e.act.plain) → s.reader = .csv (.finished res) →
      pushedEntries tr = env.readPass.1 ∧ res = env.readPass.2) ∧
    (∀ records : List Csv.Record, (∀ record ∈ records, record ≠ []) →
      env.content.toList = Csv.render records →
      (∀ line ∈ splitInclusive env.content.toList, isBlanked line = false) →
      manifestRecords env.content = records.map csvRecord) := by
  have hrecords : env.records = (manifestRecords env.content).map .ok := by
    rw [CsvEnv.records, hcsv, ← parse_filterManifest hsep, List.map_map]
    rfl
  obtain ⟨hiff, hpushed⟩ := readRecords_ok 1 (manifestRecords env.content)
  refine ⟨?_, ?_, ?_, ?_⟩
  · rw [CsvEnv.readPass, hrecords]
    exact hiff
  · rw [CsvEnv.readPass, hrecords]
    exact hpushed
  · intro capacity tr s res h hplain hres
    obtain ⟨r, hreader, hahead⟩ := (Run.passing h hplain).reader
    rw [hres] at hreader
    cases hreader
    rw [hahead]
    simp [CsvReader.ahead]
  · intro records hne hcontent hplain
    have hsame : (filterManifest env.content).toList = Csv.render records := by
      rw [filterManifest_toList, ← hcontent]
      calc (splitInclusive env.content.toList).flatMap
            (fun line => if isBlanked line then ['\n'] else line)
          = (splitInclusive env.content.toList).flatMap id :=
            List.flatMap_congr fun line hline => by simp [hplain line hline]
        _ = env.content.toList := by rw [List.flatMap_id, flatten_splitInclusive]
    rw [← parse_filterManifest hsep, hsame, Csv.parse_render hne]

end

def Small.csvOf (content : String) : CsvEnv where
  csv := fun text => (Csv.parse text.toList).map fun record => .ok (csvRecord record)
  content := content

def Small.manifest : CsvEnv :=
  Small.csvOf "# all\n a//x.dat , k\n\n\"b,\"\"y\"\"\n\n.dat\"\n"

theorem readPass_exact_small :
    Small.manifest.readPass =
      ([⟨"a/x.dat", "k"⟩, ⟨"b,\"y\"\n\n.dat", ""⟩], .ok ()) := by
  have hsep : Separate Small.manifest.content := by decide
  obtain ⟨_, hpushed, _⟩ := readPass_exact (fun _ => rfl) hsep
  have hok : Small.manifest.readPass.2 = .ok () := by decide
  have hentries : manifestEntries Small.manifest.content =
      [⟨"a/x.dat", "k"⟩, ⟨"b,\"y\"\n\n.dat", ""⟩] := by decide
  exact Prod.ext ((hpushed hok).trans hentries) hok

/-- The record of this text has an empty path, which `normalize_relative` rejects. The pass
skips it. -/
theorem readPass_skipsEmpty :
    ¬ ((Small.csvOf ",k\n").readPass.2 = .ok () ↔
      ∀ record ∈ Csv.parse (Small.csvOf ",k\n").content.toList,
        (firstColumn (csvRecord record)).toList.head? ≠ some '#' →
          ∃ fsPath, Spec.normalizeRelative (firstColumn (csvRecord record)) = .ok fsPath) := by
  intro h
  obtain ⟨fsPath, hpath⟩ := h.mp (by decide) [[], ['k']] (by decide) (by decide)
  have hempty : Spec.normalizeRelative (firstColumn (csvRecord [[], ['k']])) = .error .empty := by
    decide
  rw [hempty] at hpath
  cases hpath

end CvdBench.Manifest
