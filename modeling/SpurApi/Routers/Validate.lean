/-
`POST /v1/validate`: every problem of a draft at once.

`spur.validation` checks the four sections of a project, and `ProjectEnvelope` the other
fields.
-/
import SpurApi.Main

namespace SpurApi

/-- A field of `ProjectEnvelope` that fails its check, and pydantic's type of the error. -/
structure EnvelopeError where
  field : String
  type : String
deriving DecidableEq

/-- A field that has to be there. -/
def requiredField (d : Json.Object) (name : String) (accepts : Json → Bool) (type : String) :
    List EnvelopeError :=
  match d.fields.lookup name with
  | none => [⟨name, "missing"⟩]
  | some v => if accepts v then [] else [⟨name, type⟩]

/-- An `Optional` field with the default `None`. -/
def nullableField (d : Json.Object) (name : String) (accepts : Json → Bool) (type : String) :
    List EnvelopeError :=
  match d.fields.lookup name with
  | none | some .null => []
  | some v => if accepts v then [] else [⟨name, type⟩]

def isText : Json → Bool
  | .str _ => true
  | _ => false

def isDict : Json → Bool
  | .obj _ => true
  | _ => false

/-- `Literal["SpurProject"]` -/
def isProjectType : Json → Bool
  | .str t => t == "SpurProject"
  | _ => false

/-- The errors of `ProjectEnvelope.model_validate`. -/
def envelopeErrors (d : Json.Object) : List EnvelopeError :=
  requiredField d "type" isProjectType "literal_error" ++
    requiredField d "spur_version" isText "string_type" ++
    nullableField d "name" isText "string_type" ++
    nullableField d "extensions" isDict "dict_type"

/-- What is used of `spur.validation` besides `validate`. -/
structure Validation where
  /-- what `validate` returns for anything that is no object -/
  notAnObject : ValidationResult
  /-- `issues_from_validation_error` -/
  issuesFrom : List EnvelopeError → List Issue

/-- `validate_project`. -/
def validateProject {μ : Type} (spur : Spur μ) (validation : Validation) :
    RawBody → Except Refusal ValidationResult
  | .malformed => .error .invalidJson
  | .absent | .other => .ok validation.notAnObject
  | .json d =>
      let result := spur.validate d
      match envelopeErrors d with
      | [] => .ok result
      | errors => .ok ⟨false, validation.issuesFrom errors ++ result.issues⟩

end SpurApi
