import CvdBench.Spec.Validate

/-!
Redaction against parsing and validation: a spec is read the same before and after, up to
its credentials, and keys that are set pass the checks that redacted ones pass.
-/

set_option autoImplicit false

namespace CvdBench.Spec

/-- The credentials of the spec, if it has any, have keys that are neither empty nor the
redaction literal. -/
def KeysSet (spec : Proto.BenchSpec) : Prop :=
  ∀ creds, extractCredentials spec = some creds →
    creds.accessKey ≠ "" ∧ creds.accessKey ≠ redacted ∧
      creds.secretKey ≠ "" ∧ creds.secretKey ≠ redacted

def withCredentials (creds : Proto.S3CredentialMaterial) (spec : Proto.BenchSpec) :
    Proto.BenchSpec :=
  { spec with
    read := spec.read.map fun read =>
      { read with
        s3ConsistencyCheck := read.s3ConsistencyCheck.map fun s3 =>
          { s3 with
            accessKey := creds.accessKey
            secretKey := creds.secretKey
            sessionToken := creds.sessionToken } } }

theorem redactInPlace_withCredentials (creds : Proto.S3CredentialMaterial)
    (spec : Proto.BenchSpec) : redactInPlace (withCredentials creds spec) = redactInPlace spec := by
  unfold redactInPlace withCredentials
  cases spec.read with
  | none => rfl
  | some read =>
    cases hs3 : read.s3ConsistencyCheck with
    | none => simp only [Option.map_some, Option.map_none, hs3]
    | some s3 =>
      simp only [Option.map_some, hs3]
      rfl

def ReadConfig.redact (read : ReadConfig) : ReadConfig :=
  { read with s3ConsistencyCheck := read.s3ConsistencyCheck.map redactConsistency }

def BenchSpec.redact (spec : BenchSpec) : BenchSpec :=
  { spec with read := spec.read.map ReadConfig.redact }

section

variable {ε α β γ : Type}

theorem exceptBind_map (x : Except ε α) {f : α → Except ε β} {f' : α → Except ε γ} {g : β → γ}
    (h : ∀ a, f' a = (f a).map g) : (x >>= f') = (x >>= f).map g := by
  cases x with
  | error e => rfl
  | ok a => exact h a

theorem exceptMap_bind_map {δ : Type} (x : Except ε α) {k : α → δ} {f : α → Except ε β}
    {f' : δ → Except ε γ} {g : β → γ} (h : ∀ a, f' (k a) = (f a).map g) :
    (x.map k >>= f') = (x >>= f).map g := by
  cases x with
  | error e => rfl
  | ok a => exact h a

end

theorem readFromProto_redact (read : Proto.ReadConfig) :
    readFromProto { read with
      s3ConsistencyCheck := read.s3ConsistencyCheck.map redactConsistency } =
      (readFromProto read).map ReadConfig.redact := by
  unfold readFromProto
  refine exceptBind_map _ fun source => ?_
  refine exceptBind_map _ fun concurrency => ?_
  refine exceptBind_map _ fun thinkTime => ?_
  exact exceptBind_map _ fun rateLimit => rfl

theorem tryFromProto_redact (spec : Proto.BenchSpec) :
    BenchSpec.tryFromProto (redactInPlace spec) =
      (BenchSpec.tryFromProto spec).map BenchSpec.redact := by
  have hread : traverseOption readFromProto (redactInPlace spec).read =
      (traverseOption readFromProto spec.read).map (·.map ReadConfig.redact) := by
    unfold redactInPlace
    cases spec.read with
    | none => rfl
    | some read =>
      show (readFromProto _).map some = ((readFromProto read).map some).map _
      rw [readFromProto_redact]
      cases readFromProto read with
      | error e => rfl
      | ok read => rfl
  unfold BenchSpec.tryFromProto
  rw [hread]
  refine exceptBind_map _ fun ioMode => ?_
  refine exceptBind_map _ fun blockSize => ?_
  refine exceptBind_map _ fun duration => ?_
  refine exceptBind_map _ fun warmup => ?_
  refine exceptMap_bind_map _ fun read => ?_
  refine exceptBind_map _ fun write => ?_
  refine exceptBind_map _ fun metadata => ?_
  exact exceptBind_map _ fun targetWorkers => rfl

theorem tryFromProto_s3 {spec : Proto.BenchSpec} {b : BenchSpec}
    (h : BenchSpec.tryFromProto spec = .ok b) :
    b.read.bind (·.s3ConsistencyCheck) = spec.read.bind (·.s3ConsistencyCheck) := by
  simp only [BenchSpec.tryFromProto, exceptBind_ok] at h
  obtain ⟨_, _, _, _, _, _, _, _, read, hread, _, _, _, _, _, _, hb⟩ := h
  obtain rfl := Except.ok.inj hb
  cases hspec : spec.read with
  | none =>
    rw [hspec] at hread
    obtain rfl := Except.ok.inj hread
    rfl
  | some proto =>
    rw [hspec] at hread
    cases hr : readFromProto proto with
    | error e =>
      rw [traverseOption, hr] at hread
      cases hread
    | ok r =>
      rw [traverseOption, hr] at hread
      obtain rfl := Except.ok.inj hread
      simp only [readFromProto, exceptBind_ok] at hr
      obtain ⟨_, _, _, _, _, _, _, _, hr⟩ := hr
      obtain rfl := Except.ok.inj hr
      rfl

theorem validateConsistency_redact {s3 : Proto.ConsistencyConfig} (ha : s3.accessKey ≠ "")
    (ha' : s3.accessKey ≠ redacted) (hs : s3.secretKey ≠ "") (hs' : s3.secretKey ≠ redacted) :
    validateConsistency s3 false = validateConsistency (redactConsistency s3) true := by
  have hkey : ∀ key : String, key ≠ "" → key ≠ redacted →
      (key.isEmpty || (!false && key == redacted)) = false := by
    intro key hne hred
    simp [hne, hred]
  have hred : (redacted.isEmpty || (!true && redacted == redacted)) = false := by decide
  simp only [validateConsistency, redactConsistency, hkey _ ha ha', hkey _ hs hs', hred]

theorem validateInto_redact {spec : BenchSpec}
    (hkeys : ∀ read s3, spec.read = some read → read.s3ConsistencyCheck = some s3 →
      validateConsistency s3 false = validateConsistency (redactConsistency s3) true) :
    validateInto spec {} =
      validateInto spec.redact { allowRedactedConsistencyCredentials := true } := by
  have hread : ∀ read, spec.read = some read →
      validateRead read false = validateRead read.redact true := by
    intro read hread
    unfold validateRead ReadConfig.redact
    cases hs3 : read.s3ConsistencyCheck with
    | none => rfl
    | some s3 => simp only [Option.map_some, hkeys read s3 hread hs3]
  unfold validateInto BenchSpec.redact
  cases hspec : spec.read with
  | none => rfl
  | some read => simp only [Option.map_some, hread read hspec, Option.isNone_some]

theorem validate_redact {spec : Proto.BenchSpec} {b : BenchSpec} (hkeys : KeysSet spec)
    (h : BenchSpec.tryFromProto spec = .ok b) :
    validate b {} = validate b.redact { allowRedactedConsistencyCredentials := true } := by
  unfold validate
  rw [validateInto_redact]
  intro read s3 hread hs3
  have hextract : extractCredentials spec = some ⟨s3.accessKey, s3.secretKey, s3.sessionToken⟩ := by
    have hs := tryFromProto_s3 h
    rw [hread, Option.bind_some, hs3] at hs
    obtain ⟨proto, hproto, hps⟩ := Option.bind_eq_some_iff.mp hs.symm
    simp [extractCredentials, hproto, hps]
  obtain ⟨ha, ha', hs, hs'⟩ := hkeys _ hextract
  exact validateConsistency_redact ha ha' hs hs'

/-- Keys that pass the check of the master pass the check that lets redacted ones through. -/
theorem validate_redact_of_ok {spec : BenchSpec} (h : validate spec {} = .ok ()) :
    validate spec.redact { allowRedactedConsistencyCredentials := true } = .ok () := by
  have hnone := validateInto_eq_nil h
  have hread : ∀ read s3, spec.read = some read → read.s3ConsistencyCheck = some s3 →
      validateConsistency s3 false = validateConsistency (redactConsistency s3) true := by
    intro read s3 hread hs3
    have hkeys : validateConsistency s3 false = [] := by
      simp only [validateInto, List.append_eq_nil_iff, hread, validateRead, hs3] at hnone
      exact hnone.1.1.2.2
    simp only [validateConsistency, List.append_eq_nil_iff, violates_eq_nil] at hkeys
    obtain ⟨⟨⟨⟨_, _⟩, _⟩, haccess⟩, hsecret⟩ := hkeys
    simp only [Bool.not_false, Bool.true_and, Bool.or_eq_false_iff, String.isEmpty_eq_false_iff,
      beq_eq_false_iff_ne] at haccess hsecret
    exact validateConsistency_redact haccess.1 haccess.2 hsecret.1 hsecret.2
  have hsame := validateInto_redact hread
  unfold validate
  rw [← hsame, hnone]

theorem targetWorkersFromProto_one {raw : Int} (h : raw ≤ 0) :
    targetWorkersFromProto 1 = targetWorkersFromProto raw := by
  unfold targetWorkersFromProto u32TryFrom
  rw [if_pos h]
  rfl

/-- A worker target that is not positive reads as 1, which the master stores for it. -/
theorem tryFromProto_targetOne {spec : Proto.BenchSpec} (h : spec.targetWorkers ≤ 0) :
    BenchSpec.tryFromProto { spec with targetWorkers := 1 } = BenchSpec.tryFromProto spec := by
  unfold BenchSpec.tryFromProto
  rw [targetWorkersFromProto_one h]

end CvdBench.Spec
