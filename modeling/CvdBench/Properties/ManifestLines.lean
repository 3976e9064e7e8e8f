import CvdBench.Foundation.CsvLines
import CvdBench.Manifest.DirLines
import CvdBench.Properties.ManifestCsv

/-!
Which line an error of a manifest names: the physical line in a directory scan, the number of
the record in a `file_manifest`.
-/

set_option autoImplicit false

namespace CvdBench.Manifest

open Foundation Foundation.Text Proto Master

/-- Every line is kept or blanked, so that they keep their numbers. -/
def filteredLines (content : String) : List (List Char) :=
  (splitInclusive content.toList).map filterLine

/-- The lines of the file on which the records begin, counted from 1. -/
def recordLines (content : String) : List Nat := Csv.beginLines .bof 1 (filteredLines content)

theorem flatten_filteredLines (content : String) :
    (filteredLines content).flatten = (filterManifest content).toList := by
  unfold filterManifest filteredLines
  rw [String.toList_ofList, List.flatMap_def]

theorem recordLines_length (content : String) :
    (recordLines content).length = (Csv.parse (filterManifest content).toList).length := by
  have hbof : Csv.Reader.bof.pending = 0 := rfl
  rw [recordLines, Csv.beginLines_length, flatten_filteredLines, Csv.parse,
    Csv.Reader.finish_length, hbof, Nat.add_zero]

theorem record_on_line {content : String} {k line : Nat}
    (h : (recordLines content)[k]? = some line) :
    ∃ before c rest r, 1 ≤ line ∧
      (splitInclusive content.toList)[line - 1]? = some (before ++ c :: rest) ∧
      isSkipLine (before ++ c :: rest) = false ∧
      Csv.Reader.begins r c = true ∧
      (Csv.parse (filterManifest content).toList).drop k =
        r.finish (c :: (rest ++ ((filteredLines content).drop line).flatten)) := by
  obtain ⟨before, c, rest, r, hline, hat, _, hbegins, hdrop⟩ := Csv.parse_drop h
  rw [flatten_filteredLines] at hdrop
  unfold filteredLines at hat
  rw [List.getElem?_map, Option.map_eq_some_iff] at hat
  obtain ⟨raw, hraw, hfilter⟩ := hat
  cases hskip : isSkipLine raw with
  | false =>
    rw [filterLine, if_neg (by simp [hskip])] at hfilter
    subst hfilter
    exact ⟨before, c, rest, r, hline, hraw, hskip, hbegins, hdrop⟩
  | true =>
    -- the newline of a blanked line begins no record
    rw [filterLine, if_pos hskip] at hfilter
    obtain ⟨_, hc, _⟩ : before = [] ∧ '\n' = c ∧ rest = [] := by
      cases before with
      | nil => simpa using hfilter
      | cons c' before => simp at hfilter
    rw [← hc, Csv.Reader.term_begins rfl] at hbegins
    cases hbegins

theorem skipLine_idle {content : String} {n : Nat} {line : List Char}
    (h : (splitInclusive content.toList)[n]? = some line) (hskip : isSkipLine line = true) :
    n + 1 ∉ recordLines content := by
  intro hmem
  obtain ⟨k, hk⟩ := List.mem_iff_getElem?.mp hmem
  obtain ⟨before, c, rest, r, _, hat, hkept, _⟩ := record_on_line hk
  rw [Nat.add_sub_cancel, h] at hat
  rw [Option.some.inj hat, hkept] at hskip
  cases hskip

/-- Every carriage return belongs to the end of a line. -/
def NoBareCr (content : String) : Prop :=
  ∀ line ∈ splitInclusive content.toList, '\r' ∉ stripNewline line

instance (content : String) : Decidable (NoBareCr content) :=
  inferInstanceAs (Decidable (∀ line ∈ _, _))

theorem splitInclusive_shape {cs line : List Char} (h : line ∈ splitInclusive cs) :
    ∃ body, '\n' ∉ body ∧ (line = body ∨ line = body ++ ['\n']) := by
  induction cs generalizing line with
  | nil => cases h
  | cons c cs ih =>
    by_cases hc : c = '\n'
    · subst hc
      rw [splitInclusive] at h
      rcases List.mem_cons.mp h with rfl | h
      · exact ⟨[], by simp, .inr rfl⟩
      · exact ih h
    · rw [splitInclusive_cons hc] at h
      cases hlines : splitInclusive cs with
      | nil =>
        rw [hlines] at h
        obtain rfl := List.mem_singleton.mp h
        exact ⟨[c], by simpa using Ne.symm hc, .inl rfl⟩
      | cons first lines =>
        rw [hlines] at h
        rcases List.mem_cons.mp h with rfl | h
        · obtain ⟨body, hbody, hshape⟩ := ih (hlines ▸ List.mem_cons_self)
          have hcons : '\n' ∉ c :: body := by simp [Ne.symm hc, hbody]
          rcases hshape with rfl | rfl
          · exact ⟨c :: first, hcons, .inl rfl⟩
          · exact ⟨c :: body, hcons, .inr rfl⟩
        · exact ih (hlines ▸ List.mem_cons_of_mem _ h)

theorem stripNewline_of_not_mem {body : List Char} (h : '\n' ∉ body) :
    stripNewline body = body := by
  unfold stripNewline
  split
  · next heq => exact absurd (List.mem_reverse.mp (heq ▸ List.mem_cons_self)) h
  · next heq => exact absurd (List.mem_reverse.mp (heq ▸ List.mem_cons_self)) h
  · rfl

theorem stripNewline_concat (body : List Char) :
    stripNewline (body ++ ['\n']) = body ∨
      body = stripNewline (body ++ ['\n']) ++ ['\r'] := by
  have hreverse : (body ++ ['\n']).reverse = '\n' :: body.reverse := by simp
  unfold stripNewline
  rw [hreverse]
  split
  · next rest heq =>
    obtain ⟨_, hbody⟩ := List.cons.inj heq
    right
    rw [← List.reverse_reverse body, hbody]
    simp
  · next rest _ heq =>
    obtain ⟨_, hbody⟩ := List.cons.inj heq
    left
    rw [← hbody, List.reverse_reverse]
  · next hnone => exact absurd rfl (hnone body.reverse)

theorem stripNewline_shape {cs line : List Char} (h : line ∈ splitInclusive cs) :
    '\n' ∉ stripNewline line ∧
      ∃ ending, line = stripNewline line ++ ending ∧
        ∀ c ∈ ending, Csv.Reader.isTerm c = true := by
  obtain ⟨body, hbody, rfl | rfl⟩ := splitInclusive_shape h
  · rw [stripNewline_of_not_mem hbody]
    exact ⟨hbody, [], by simp, by simp⟩
  · rcases stripNewline_concat body with hstrip | hstrip
    · rw [hstrip]
      exact ⟨hbody, ['\n'], rfl, by simp [Csv.Reader.isTerm]⟩
    · refine ⟨fun hmem => hbody ?_, ['\r', '\n'], ?_, by simp [Csv.Reader.isTerm]⟩
      · rw [hstrip]
        exact List.mem_append_left _ hmem
      · calc body ++ ['\n'] = stripNewline (body ++ ['\n']) ++ ['\r'] ++ ['\n'] := by
              rw [← hstrip]
          _ = stripNewline (body ++ ['\n']) ++ ['\r', '\n'] := by simp

theorem begun_line_le {content : String} (hcr : NoBareCr content) {line : List Char}
    (h : line ∈ filteredLines content) (r : Csv.Reader) : r.begun line ≤ 1 := by
  obtain ⟨raw, hraw, rfl⟩ := List.mem_map.mp h
  unfold filterLine
  split
  · rw [Csv.Reader.terms_begun (by simp [Csv.Reader.isTerm])]
    exact Nat.zero_le 1
  · obtain ⟨hnewline, ending, hline, hending⟩ := stripNewline_shape hraw
    have htext : ∀ c ∈ stripNewline raw, Csv.Reader.isTerm c = false := by
      intro c hc
      have hn : c ≠ '\n' := fun heq => hnewline (heq ▸ hc)
      have hr : c ≠ '\r' := fun heq => hcr raw hraw (heq ▸ hc)
      simp [Csv.Reader.isTerm, hn, hr]
    have hbegun := Csv.Reader.begun_le htext r
    rw [hline, Csv.Reader.begun_append, Csv.Reader.terms_begun hending]
    omega

def recordFails : Except String (List String) → Bool
  | .error _ => true
  | .ok record => match csvEntry record with
    | .error _ => true
    | .ok _ => false

def failingRecord (env : CsvEnv) : Nat := env.records.findIdx recordFails

def ReaderError.lineno? : ReaderError → Option Nat
  | .csv lineno _ | .pathSafe lineno _ => some lineno
  | _ => none

theorem failing_here {env : CsvEnv} {done rest : CsvRecords}
    {record : Except String (List String)}
    (h : Passed (fun record => recordFails record = true) env.records done (record :: rest))
    (hrecord : recordFails record = true) :
    failingRecord env = done.length ∧ done.length < env.records.length := by
  obtain ⟨hat, _⟩ := h.here
  obtain ⟨hlt, _⟩ := List.getElem?_eq_some_iff.mp hat
  refine ⟨?_, hlt⟩
  have hdone : done.findIdx recordFails = done.length :=
    List.findIdx_eq_length.mpr fun record' hmem => Bool.eq_false_iff.mpr (h.good record' hmem)
  rw [failingRecord, h.split, List.findIdx_append, hdone, if_neg (Nat.lt_irrefl _),
    List.findIdx_cons, hrecord]
  simp

def CsvReader.Numbered (env : CsvEnv) : CsvReader → Prop
  | .records n rest => ∃ done,
      Passed (fun record => recordFails record = true) env.records done rest ∧
        n = done.length + 1
  | .push n _ rest | .pushHeld n _ rest => ∃ done,
      Passed (fun record => recordFails record = true) env.records done rest ∧ n = done.length
  | .finished (.error err) => ∀ lineno, err.lineno? = some lineno →
      lineno = failingRecord env + 1 ∧ failingRecord env < env.records.length
  | _ => True

theorem CsvReader.record_numbered {env : CsvEnv} {done rest : CsvRecords}
    {record : Except String (List String)}
    (h : Passed (fun record => recordFails record = true) env.records done (record :: rest)) :
    (CsvReader.record (done.length + 1) rest record).Numbered env := by
  have hfailed : recordFails record = true → ∀ lineno,
      some (done.length + 1) = some lineno →
        lineno = failingRecord env + 1 ∧ failingRecord env < env.records.length := by
    intro hrecord lineno hlineno
    obtain ⟨hindex, hlt⟩ := failing_here h hrecord
    rw [hindex]
    exact ⟨(Option.some.inj hlineno).symm, hlt⟩
  cases record with
  | error source => exact hfailed rfl
  | ok record =>
    cases hentry : csvEntry record with
    | error source =>
      simp only [CsvReader.record, hentry]
      exact hfailed (by simp [recordFails, hentry])
    | ok entry =>
      have hnext := h.next (by simp [recordFails, hentry])
      cases entry with
      | none =>
        simp only [CsvReader.record, hentry]
        exact ⟨_, hnext, by simp⟩
      | some entry =>
        simp only [CsvReader.record, hentry]
        exact ⟨_, hnext, by simp⟩

theorem CsvReader.Move.numbered {env : CsvEnv} {loopFiles cancel : Bool} {r r' : CsvReader}
    {c : CellStep} (h : r.Move env loopFiles cancel r' c) (hr : r.Numbered env) :
    r'.Numbered env := by
  cases h with
  | opened => exact ⟨[], .start _ _, rfl⟩
  | record n record rest _ =>
    obtain ⟨done, hdone, rfl⟩ := hr
    exact CsvReader.record_numbered hdone
  | acquire n entry rest => exact hr
  | pushBack n entry rest =>
    obtain ⟨done, hdone, rfl⟩ := hr
    exact ⟨done, hdone, rfl⟩
  | openFail source | refused n entry rest =>
    intro lineno hlineno
    cases hlineno
  | _ => trivial

section

variable {loopFiles : Bool} {capacity : Nat} {tr : DeliveryTrace} {s : Delivery}

theorem Delivery.Move.reader_cases {src : Source} {s' : Delivery} {act : DeliveryAct}
    {o : DeliveryOut} (h : s.Move src loopFiles act s' o) :
    s'.reader = s.reader ∨
      ∃ ract c, src.step loopFiles s.cell.cancelFlag s.reader ract = some (s'.reader, c) := by
  cases h with
  | reader ract r c cell hstep _ => exact .inr ⟨ract, c, hstep⟩
  | _ => exact .inl rfl

theorem Run.csv_numbered {env : CsvEnv}
    (h : (delivery (.csv env) loopFiles capacity).Run (.init (.csv env) capacity) tr s) :
    ∃ r, s.reader = .csv r ∧ r.Numbered env := by
  refine h.history (P := fun _ s => ∃ r, s.reader = .csv r ∧ r.Numbered env)
    ⟨.top, rfl, trivial⟩ ?_
  intro tr s act s' o _ ⟨r, hreader, hr⟩ hstep
  rcases (Delivery.step_move hstep).reader_cases with hsame | ⟨ract, c, hsrc⟩
  · exact ⟨r, hsame.trans hreader, hr⟩
  · rw [hreader] at hsrc
    generalize s'.reader = reader' at hsrc
    cases Source.step_cases hsrc with
    | csv hr' => exact ⟨_, rfl, (CsvReader.step_move hr').numbered hr⟩

theorem Run.dir_numbered {env : ScanEnv} {n : Nat}
    (h : (delivery (.dir env n) loopFiles capacity).Run (.init (.dir env n) capacity) tr s) :
    ∃ r, s.reader = .dir r ∧ r.Numbered env := by
  refine h.history (P := fun _ s => ∃ r, s.reader = .dir r ∧ r.Numbered env)
    ⟨.top, rfl, trivial⟩ ?_
  intro tr s act s' o _ ⟨r, hreader, hr⟩ hstep
  rcases (Delivery.step_move hstep).reader_cases with hsame | ⟨ract, c, hsrc⟩
  · exact ⟨r, hsame.trans hreader, hr⟩
  · rw [hreader] at hsrc
    generalize s'.reader = reader' at hsrc
    cases Source.step_cases hsrc with
    | dir hr' => exact ⟨_, rfl, hr.step hr'⟩

end

/-- A `csv` crate that yields one record for each record of the text, or an error in its
place. -/
def CsvEnv.PerRecord (env : CsvEnv) : Prop :=
  ∀ text : String, List.Forall₂
    (fun res record => res = .ok (csvRecord record) ∨ ∃ source, res = .error source)
    (env.csv text) (Csv.parse text.toList)

/-- How many lines before this one begin no record: comments, blank lines, and lines on which
a record goes on inside quotes. -/
def idleLines (content : String) (line : Nat) : Nat :=
  Csv.lacked (recordLines content) (line - 1)

/-- How many records before record `k` are followed by another one on the same line, after a
bare carriage return. -/
def sharedLines (content : String) (k : Nat) : Nat := Csv.repeated (recordLines content) k

theorem recordLines_records {env : CsvEnv} (hcsv : env.PerRecord) :
    (recordLines env.content).length = env.records.length := by
  rw [recordLines_length, CsvEnv.records]
  exact (hcsv _).length_eq.symm

theorem recordLines_place {content : String} {k line : Nat}
    (h : (recordLines content)[k]? = some line) :
    k + 1 + idleLines content line = line + sharedLines content k :=
  Csv.place_add_lacked (Csv.beginLines_sorted _ _ _) (fun _ => Csv.beginLines_ge) h

theorem sharedLines_eq_zero {content : String} (hcr : NoBareCr content) {k line : Nat}
    (h : (recordLines content)[k]? = some line) : sharedLines content k = 0 :=
  Csv.repeated_strict (Csv.beginLines_strict (fun _ hline => begun_line_le hcr hline) _ _) h

/-- The line number of an error is the number of the record. It is the line of the file on
which the record begins exactly when as many lines before begin no record as records before
share their line with the next one; without bare carriage returns, when a record begins on
every line before. In a directory scan it is the line of the path. -/
theorem error_line_iff {env : CsvEnv} (hcsv : env.PerRecord) :
    (∀ (loopFiles : Bool) (capacity : Nat) (tr : DeliveryTrace) (s : Delivery)
      (err : ReaderError) (lineno : Nat),
      (delivery (.csv env) loopFiles capacity).Run (.init (.csv env) capacity) tr s →
      s.reader = .csv (.finished (.error err)) → err.lineno? = some lineno →
      ∃ line, (recordLines env.content)[failingRecord env]? = some line ∧
        (lineno = line ↔
          idleLines env.content line = sharedLines env.content (failingRecord env)) ∧
        (NoBareCr env.content →
          (lineno = line ↔ ∀ n, 1 ≤ n → n < line → n ∈ recordLines env.content))) ∧
    ∀ (scan : ScanEnv) (scanConcurrency : Nat) (loopFiles : Bool) (capacity : Nat)
      (tr : DeliveryTrace) (s : Delivery) (lineno : Nat) (source : Spec.PathSafeError),
      (delivery (.dir scan scanConcurrency) loopFiles capacity).Run
        (.init (.dir scan scanConcurrency) capacity) tr s →
      s.reader = .dir (.finished (.error (.pathSafe lineno source))) →
      scan.Rejects lineno source := by
  constructor
  · intro loopFiles capacity tr s err lineno hrun hreader hlineno
    obtain ⟨r, hr, hnumbered⟩ := Run.csv_numbered hrun
    rw [hreader] at hr
    cases hr
    obtain ⟨rfl, hlt⟩ := hnumbered lineno hlineno
    rw [← recordLines_records hcsv] at hlt
    have hline := List.getElem?_eq_getElem hlt
    have hplace := recordLines_place hline
    refine ⟨_, hline, by omega, fun hcr => ?_⟩
    have hshared := sharedLines_eq_zero hcr hline
    have hidle : failingRecord env + 1 = (recordLines env.content)[failingRecord env] ↔
        idleLines env.content (recordLines env.content)[failingRecord env] = 0 := by omega
    rw [hidle, idleLines, Csv.lacked_eq_zero]
    constructor
    · exact fun hall n hn hbefore => hall n hn (by omega)
    · exact fun hall n hn hle => hall n hn (by omega)
  · intro scan scanConcurrency loopFiles capacity tr s lineno source hrun hreader
    obtain ⟨r, hr, hnumbered⟩ := Run.dir_numbered hrun
    rw [hreader] at hr
    cases hr
    exact hnumbered lineno source rfl

theorem Small.csvOf_perRecord (content : String) : (Small.csvOf content).PerRecord := by
  intro text
  rw [Small.csvOf, List.forall₂_map_left_iff]
  exact List.forall₂_same.mpr fun record _ => .inl rfl

def Small.passSteps : List DeliveryAct := List.replicate 8 (.reader (.csv .run))

/-- The second record is on the second line, after one of a single line. -/
theorem error_line_iff_small :
    ∃ line, (recordLines "a\n/etc\n")[1]? = some line ∧
      (2 = line ↔ idleLines "a\n/etc\n" line = sharedLines "a\n/etc\n" 1) := by
  have hrun := (delivery (.csv (Small.csvOf "a\n/etc\n")) false 8).run_play
    (.init (.csv (Small.csvOf "a\n/etc\n")) 8) Small.passSteps
  obtain ⟨line, hline, hiff, _⟩ := (error_line_iff (Small.csvOf_perRecord "a\n/etc\n")).1 false 8
    _ _ (.pathSafe 2 (.mustBeRelative "/etc")) 2 hrun rfl rfl
  exact ⟨line, hline, hiff⟩

/-- After a comment, the number is one too low. -/
theorem error_line_comment :
    ¬ ∀ (env : CsvEnv), env.PerRecord →
      ∀ (loopFiles : Bool) (capacity : Nat) (tr : DeliveryTrace) (s : Delivery)
        (err : ReaderError) (lineno : Nat),
        (delivery (.csv env) loopFiles capacity).Run (.init (.csv env) capacity) tr s →
        s.reader = .csv (.finished (.error err)) → err.lineno? = some lineno →
        (recordLines env.content)[failingRecord env]? = some lineno := by
  intro hall
  have hrun := (delivery (.csv (Small.csvOf "# all\n/etc\n")) false 8).run_play
    (.init (.csv (Small.csvOf "# all\n/etc\n")) 8) Small.passSteps
  have hline := hall (Small.csvOf "# all\n/etc\n") (Small.csvOf_perRecord _) false 8 _ _
    (.pathSafe 1 (.mustBeRelative "/etc")) 1 hrun rfl rfl
  exact absurd hline (by decide)

end CvdBench.Manifest
