import CvdBench.Spec.Redact

/-!
How a worker reads the spec of the job it was assigned (`parse_and_validate`).
-/

set_option autoImplicit false

namespace CvdBench.Worker

/-- Why a worker refuses a job before it has done anything for it. -/
inductive SpecRefusal where
  | missing
  | parse (e : Spec.SpecConvertError)
  | validate (report : List Spec.Violation)

/-- The credentials of the spec that a worker gets are redacted. -/
def validationContext : Spec.ValidationContext :=
  { allowRedactedConsistencyCredentials := true }

def parseAndValidate (protoSpec : Option Proto.BenchSpec) :
    Except SpecRefusal Spec.BenchSpec := do
  let some protoSpec := protoSpec | .error .missing
  let business ← (Spec.BenchSpec.tryFromProto protoSpec).mapError .parse
  (Spec.validate business validationContext).mapError .validate
  return business

theorem parseAndValidate_ok {protoSpec : Proto.BenchSpec} {business : Spec.BenchSpec} :
    parseAndValidate (some protoSpec) = .ok business ↔
      Spec.BenchSpec.tryFromProto protoSpec = .ok business ∧
        Spec.validate business validationContext = .ok () := by
  simp only [parseAndValidate, Spec.exceptBind_ok, Spec.exceptMapError_ok]
  constructor
  · rintro ⟨b, hparse, _, hvalid, hb⟩
    obtain rfl := Except.ok.inj hb
    exact ⟨hparse, hvalid⟩
  · rintro ⟨hparse, hvalid⟩
    exact ⟨business, hparse, (), hvalid, rfl⟩

end CvdBench.Worker
