import AtsEndpoint.Fault

/-!
# Configuration

The granule sets how far a fill is widened and in which strides a range is
translated ahead. It must be a power of two. The failure policy says what a
failed physical access does to the endpoint.
-/

namespace AtsEndpoint

/-- What a failed physical access does to the endpoint. -/
inductive FailurePolicy
  /-- The endpoint halts until it is reset, and the scheduler reports the fault. -/
  | failFast
  /-- The operation ends with the failure bit of STATUS, and work goes on. -/
  | report
deriving DecidableEq, Repr

/-- The name of a policy. -/
def FailurePolicy.text : FailurePolicy → String
  | .failFast => "FailFast"
  | .report => "ReportError"

/-- How an endpoint is set up. -/
structure Config where
  /-- The translation granule in bytes. -/
  granule : UInt64 := 4096
  /-- What a failed physical access does. -/
  onFailure : FailurePolicy := .failFast
  /-- A reset empties the translation cache. -/
  flushOnReset : Bool := false
deriving DecidableEq, Repr

namespace Config

/-- A configuration is valid when its granule is a power of two. -/
def IsValid (config : Config) : Prop :=
  IsPowerOfTwo config.granule

instance (config : Config) : Decidable config.IsValid := by
  unfold IsValid
  infer_instance

/-- The fault of a configuration that is not valid. -/
def invalid (config : Config) : Fault :=
  .config (.granule config.granule)

/-- Refuse a configuration that is not valid. -/
def check (config : Config) : Except Fault Unit :=
  if config.IsValid then .ok () else .error config.invalid

/-- A configuration as text, field by field. -/
def text (config : Config) : String :=
  "AcceleratorConfig \x7b granule: " ++ toString config.granule.toNat
    ++ ", transport_failure: " ++ config.onFailure.text
    ++ ", flush_atc_on_reset: " ++ toString config.flushOnReset ++ " \x7d"

theorem isValid_default : IsValid {} :=
  ⟨⟨12, by decide⟩, by decide⟩

theorem check_eq_ok_iff {config : Config} : config.check = .ok () ↔ config.IsValid := by
  unfold check
  split <;> simp [*]

end Config

end AtsEndpoint
