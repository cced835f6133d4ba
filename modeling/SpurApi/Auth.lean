/-
Authentication: `current_principal`, which every route but the health checks depends on.

A header that is refused is answered with 401.  Whatever else is raised on the way to a
principal, nothing handles, and the server answers 500.
-/
import SpurApi.Basic
import SpurApi.Lib.PyText
import SpurApi.Lib.Sha256

namespace SpurApi

/-- The settings that authentication reads; a key is its list of characters. -/
structure AuthSettings where
  authEnabled : Bool := false
  apiKeys : List (List Char) := []

/-- `key_fingerprint`. -/
def keyFingerprint (key : List Char) : String :=
  "key:" ++ String.ofList ((Sha256.hexdigest (key.flatMap String.utf8EncodeChar)).take 12)

example : keyFingerprint ['a', 'b', 'c'] = "key:ba7816bf8f01" := by decide +kernel

/-- `StaticPrincipal`. -/
structure StaticPrincipal where
  id : String
deriving DecidableEq

/-- `ANONYMOUS`. -/
def anonymous : StaticPrincipal := ⟨"anonymous"⟩

/-- What `current_principal` ends with instead of a principal. -/
inductive AuthError
  | httpException (statusCode : Nat) (detail : String)
  | unhandled (e : Exn)
deriving DecidableEq

/-- What `hmac.compare_digest` raises at two texts of which one is not ASCII. -/
def notAscii : Exn := ⟨.typeError, "comparing strings with non-ASCII characters is not supported"⟩

/-- `hmac.compare_digest` of two texts. -/
def compareDigest (a b : List Char) : Except Exn Bool :=
  if PyText.isAscii a && PyText.isAscii b then .ok (a == b) else .error notAscii

/-- The scheme that the header has to start with. -/
def bearer : List Char := ['B', 'e', 'a', 'r', 'e', 'r', ' ']

/-- `current_principal`. -/
def currentPrincipal (settings : AuthSettings) (authorization : Option HeaderValue) :
    Except AuthError StaticPrincipal :=
  if !settings.authEnabled then .ok anonymous
  else
    match authorization with
    | none => .error (.httpException 401 "Missing or malformed Authorization header")
    | some header =>
        if !bearer.isPrefixOf header.chars then
          .error (.httpException 401 "Missing or malformed Authorization header")
        else
          let token := PyText.strip PyText.isSpace (header.chars.drop bearer.length)
          -- the keys are compared in their order, up to the first that is equal
          match settings.apiKeys.anyM (compareDigest token) with
          | .error e => .error (.unhandled e)
          | .ok false => .error (.httpException 401 "Invalid API key")
          | .ok true => .ok ⟨keyFingerprint token⟩

end SpurApi
