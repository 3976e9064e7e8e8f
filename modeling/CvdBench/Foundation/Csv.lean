import CvdBench.Foundation.Text

/-!
Comma-separated values: a reader that goes over a text character by character, and the
writer that quotes every field. The reader takes what RFC 4180 leaves open the lenient
way, so that every text is some list of records.
-/

set_option autoImplicit false

namespace CvdBench.Foundation.Csv

abbrev Record := List (List Char)

/-- Where the reader stands, with what it has of the record and of the field. -/
inductive Reader where
  | bof
  | startRecord
  | startField (record : Record)
  | inField (record : Record) (field : List Char)
  | inQuoted (record : Record) (field : List Char)
  /-- after a quote that ends the field or is the first of two -/
  | quoteInQuoted (record : Record) (field : List Char)
  deriving DecidableEq, Repr

namespace Reader

def isTerm (c : Char) : Bool := c == '\n' || c == '\r'

def fieldChar (record : Record) (field : List Char) (c : Char) : Reader × List Record :=
  if c = ',' then (startField (record ++ [field]), [])
  else if isTerm c then (startRecord, [record ++ [field]])
  else (inField record (field ++ [c]), [])

def fieldStart (record : Record) (c : Char) : Reader × List Record :=
  if c = '"' then (inQuoted record [], []) else fieldChar record [] c

/-- Line ends before a record are passed over: blank lines, and the second half of CRLF. -/
def recordStart (c : Char) : Reader × List Record :=
  if isTerm c then (startRecord, []) else fieldStart [] c

def step (r : Reader) (c : Char) : Reader × List Record :=
  match r with
  | bof => if c = Char.ofNat 0xFEFF then (startRecord, []) else recordStart c
  | startRecord => recordStart c
  | startField record => fieldStart record c
  | inField record field => fieldChar record field c
  | inQuoted record field =>
      if c = '"' then (quoteInQuoted record field, []) else (inQuoted record (field ++ [c]), [])
  | quoteInQuoted record field =>
      if c = '"' then (inQuoted record (field ++ ['"']), []) else fieldChar record field c

def run : Reader → List Char → Reader × List Record
  | r, [] => (r, [])
  | r, c :: cs =>
      let next := (r.step c).1.run cs
      (next.1, (r.step c).2 ++ next.2)

/-- The end of the text ends a record that has begun, also inside quotes. -/
def flush : Reader → List Record
  | bof | startRecord => []
  | startField record => [record ++ [[]]]
  | inField record field | inQuoted record field | quoteInQuoted record field =>
      [record ++ [field]]

def atStart : Reader → Bool
  | bof | startRecord => true
  | _ => false

def finish (r : Reader) (cs : List Char) : List Record := (r.run cs).2 ++ (r.run cs).1.flush

@[simp] theorem run_nil (r : Reader) : r.run [] = (r, []) := rfl

theorem run_cons (r : Reader) (c : Char) (cs : List Char) :
    r.run (c :: cs) = (((r.step c).1.run cs).1, (r.step c).2 ++ ((r.step c).1.run cs).2) := rfl

theorem run_append (r : Reader) (cs cs' : List Char) :
    r.run (cs ++ cs') = (((r.run cs).1.run cs').1, (r.run cs).2 ++ ((r.run cs).1.run cs').2) := by
  induction cs generalizing r with
  | nil => simp
  | cons c cs ih =>
    rw [List.cons_append, run_cons, run_cons, ih]
    simp

theorem finish_append (r : Reader) (cs cs' : List Char) :
    r.finish (cs ++ cs') = (r.run cs).2 ++ (r.run cs).1.finish cs' := by
  unfold finish
  rw [run_append]
  simp

theorem flush_atStart {r : Reader} (h : r.atStart = true) : r.flush = [] := by
  cases r <;> first | rfl | cases h

theorem run_newline {r : Reader} (h : r.atStart = true) : r.run ['\n'] = (startRecord, []) := by
  cases r <;> first | rfl | cases h

end Reader

def parse (cs : List Char) : List Record := Reader.bof.finish cs

def located (last : List Char) : Reader → List (List Char) → List (List Char × Record)
  | r, [] => r.flush.map (Prod.mk last)
  | r, line :: lines =>
      (r.run line).2.map (Prod.mk line) ++ located line (r.run line).1 lines

/-- No line that `skip` picks out begins inside a record, nor does the line after it. -/
def Separate (skip : List Char → Bool) : Reader → List (List Char) → Prop
  | _, [] => True
  | r, line :: lines =>
      (skip line = true → r.atStart = true ∧ (lines = [] ∨ (r.run line).1 = .startRecord)) ∧
        Separate skip (r.run line).1 lines

instance decidableSeparate (skip : List Char → Bool) :
    ∀ (r : Reader) (lines : List (List Char)), Decidable (Separate skip r lines)
  | _, [] => .isTrue trivial
  | r, line :: lines =>
      have := decidableSeparate skip (r.run line).1 lines
      inferInstanceAs (Decidable (_ ∧ _))

/-- Separate lines can be blanked before the text is read: it is the same as to leave out
the records that end on them. -/
theorem finish_blanked {skip : List Char → Bool} {last : List Char} {r : Reader}
    {lines : List (List Char)} (hsep : Separate skip r lines)
    (hlast : skip last = true → r.atStart = true) :
    r.finish (lines.flatMap fun line => if skip line then ['\n'] else line) =
      ((located last r lines).filter fun e => !skip e.1).map Prod.snd := by
  induction lines generalizing last r with
  | nil =>
    cases hskip : skip last with
    | true => simp [located, Reader.finish, Reader.flush_atStart (hlast hskip)]
    | false => cases r <;> simp [located, Reader.finish, Reader.flush, hskip]
  | cons line lines ih =>
    obtain ⟨hline, hrest⟩ := hsep
    rw [List.flatMap_cons, Reader.finish_append, located, List.filter_append, List.map_append]
    cases hskip : skip line with
    | false =>
      have htail := @ih line _ hrest (by simp [hskip])
      simp [hskip, htail, List.filter_map, Function.comp_def]
    | true =>
      obtain ⟨hstart, hnext⟩ := hline hskip
      rw [if_pos rfl, Reader.run_newline hstart]
      rcases hnext with rfl | hnext
      · have hflush : ∀ records : List Record,
            (records.map (Prod.mk line)).filter (fun e => !skip e.1) = [] := by
          intro records
          simp [hskip]
        rw [located, hflush, hflush]
        rfl
      · have htail := @ih line _ hrest fun _ => by rw [hnext, Reader.atStart]
        rw [hnext] at htail ⊢
        simp [hskip, htail]

def escape (field : List Char) : List Char :=
  field.flatMap fun c => if c = '"' then ['"', '"'] else [c]

def quote (field : List Char) : List Char := '"' :: (escape field ++ ['"'])

def renderRecord : Record → List Char
  | [] => ['\n']
  | [field] => quote field ++ ['\n']
  | field :: fields => quote field ++ ',' :: renderRecord fields

def render (records : List Record) : List Char := records.flatMap renderRecord

namespace Reader

theorem run_escape (record : Record) (field rest : List Char) :
    (inQuoted record field).run (escape rest) = (inQuoted record (field ++ rest), []) := by
  induction rest generalizing field with
  | nil => simp [escape]
  | cons c rest ih =>
    have hcons : escape (c :: rest) = (if c = '"' then ['"', '"'] else [c]) ++ escape rest := by
      simp [escape]
    rw [hcons, run_append]
    by_cases hc : c = '"'
    · subst hc
      have hrun : (inQuoted record field).run ['"', '"'] = (inQuoted record (field ++ ['"']), []) :=
        rfl
      simp [hrun, ih]
    · have hrun : (inQuoted record field).run [c] = (inQuoted record (field ++ [c]), []) := by
        simp [run_cons, step, hc]
      simp [hc, hrun, ih]

theorem run_quote (record : Record) (field : List Char) :
    (startField record).run (quote field) = (quoteInQuoted record field, []) := by
  have hopen : (startField record).step '"' = (inQuoted record [], []) := rfl
  have hclose : (inQuoted record field).run ['"'] = (quoteInQuoted record field, []) := rfl
  unfold quote
  rw [run_cons, hopen]
  simp only
  rw [run_append, run_escape]
  simp [hclose]

theorem run_renderFields (record : Record) (field : List Char) (fields : List (List Char)) :
    (startField record).run (renderRecord (field :: fields)) =
      (startRecord, [record ++ field :: fields]) := by
  induction fields generalizing record field with
  | nil =>
    have hend : (quoteInQuoted record field).run ['\n'] = (startRecord, [record ++ [field]]) := rfl
    rw [renderRecord, run_append, run_quote]
    simp [hend]
  | cons field' fields ih =>
    have hcomma : (quoteInQuoted record field).step ',' = (startField (record ++ [field]), []) :=
      rfl
    rw [renderRecord, run_append, run_quote, run_cons]
    · simp only
      rw [hcomma, ih]
      simp
    · simp

theorem run_renderRecord {r : Reader} {record : Record} (hr : r.atStart = true)
    (hrecord : record ≠ []) : r.run (renderRecord record) = (startRecord, [record]) := by
  obtain ⟨field, fields, rfl⟩ := List.exists_cons_of_ne_nil hrecord
  have hfirst : ∃ cs, renderRecord (field :: fields) = '"' :: cs := by
    cases fields with
    | nil => exact ⟨_, rfl⟩
    | cons field' fields => exact ⟨_, rfl⟩
  obtain ⟨cs, hcs⟩ := hfirst
  have hfields := run_renderFields [] field fields
  rw [hcs] at hfields ⊢
  cases r with
  | bof => exact hfields
  | startRecord => exact hfields
  | _ => cases hr

end Reader

theorem parse_render {records : List Record} (h : ∀ record ∈ records, record ≠ []) :
    parse (render records) = records := by
  have key : ∀ {r : Reader}, r.atStart = true → r.finish (render records) = records := by
    induction records with
    | nil =>
      intro r hr
      simp [render, Reader.finish, Reader.flush_atStart hr]
    | cons record records ih =>
      intro r hr
      have hcons : render (record :: records) = renderRecord record ++ render records := by
        simp [render]
      rw [hcons, Reader.finish_append, Reader.run_renderRecord hr (h record (by simp)),
        ih (fun record' hmem => h record' (by simp [hmem])) rfl]
      rfl
  exact key rfl

end CvdBench.Foundation.Csv
