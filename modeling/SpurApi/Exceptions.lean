/-
The errors a request can end with, and the HTTP status each is answered with.
-/
import SpurApi.Spur

namespace SpurApi

/-- The service's own errors, the router's `HTTPException` for a bad `If-Match`, and any
exception that nothing handles. -/
inductive ApiError
  | badVersion
  | notFound (detail : String)
  | staleProject (detail : String) (version : Int)
  | projectInvalid (detail : String) (issues : List Issue)
  | runNotReady (detail : String)
  | runAnalysis (detail : String)
  | unhandled (e : Exn)
deriving DecidableEq

/-- The status codes of `create_app`'s exception handlers. -/
def ApiError.status : ApiError → Nat
  | .badVersion => 400
  | .notFound _ => 404
  | .staleProject _ _ => 412
  | .projectInvalid _ _ => 422
  | .runNotReady _ => 409
  | .runAnalysis _ => 422
  | .unhandled _ => 500

/-- The text under `detail`. -/
def ApiError.detail : ApiError → String
  | .badVersion => "If-Match must be a project version, such as 3"
  | .notFound detail => detail
  | .staleProject detail _ => detail
  | .projectInvalid detail _ => detail
  | .runNotReady detail => detail
  | .runAnalysis detail => detail
  | .unhandled _ => "Internal Server Error"

def projectNotFound (id : Uuid) : ApiError := .notFound s!"Project {id.text} not found"

def runNotFound (id : Uuid) : ApiError := .notFound s!"Run {id.text} not found"

end SpurApi
