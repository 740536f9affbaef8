import Mathlib.Tactic.Common

/-!
# Errors

`backend/src/errors/api.rs` and the `WaraError` of the libraries. A request that
panics never becomes an `ApiError`, so services leave early with an `Abort`.
-/

namespace Wara

inductive ApiError where
  | unauthorized
  | forbidden
  | notFound (what : String)
  | badRequest (message : String)
  | internal (message : String)
  deriving DecidableEq, Repr

structure ErrorResponse where
  code : String
  message : String
  details : Option String
  deriving DecidableEq, Repr

namespace ApiError

def status : ApiError → Nat
  | .unauthorized => 401
  | .forbidden => 403
  | .notFound _ => 404
  | .badRequest _ => 400
  | .internal _ => 500

def code : ApiError → String
  | .unauthorized => "unauthorized"
  | .forbidden => "forbidden"
  | .notFound _ => "not_found"
  | .badRequest _ => "bad_request"
  | .internal _ => "internal_error"

/-- The `Display` text. -/
def toString : ApiError → String
  | .unauthorized => "authentication required"
  | .forbidden => "forbidden"
  | .notFound what => what ++ " not found"
  | .badRequest message => "invalid request: " ++ message
  | .internal message => "internal error: " ++ message

def publicMessage : ApiError → String
  | .internal _ => "internal server error"
  | e => e.toString

def responseBody (e : ApiError) : ErrorResponse where
  code := e.code
  message := e.publicMessage
  details := none

end ApiError

/-- `backend/src/errors/wara.rs`. -/
inductive WaraError where
  | missingConfiguration (what : String)
  | invalidConfiguration (what error : String)
  | jwtSigning (error : String)
  | jwtVerification (error : String)
  | crypto (error : String)
  | ssh (error : String)
  | deploymentExecution (error : String)
  deriving DecidableEq, Repr

def WaraError.toString : WaraError → String
  | .missingConfiguration what => what ++ " cannot be empty or missing"
  | .invalidConfiguration what error => "invalid " ++ what ++ " configuration: " ++ error
  | .jwtSigning error => "JWT key signing error: " ++ error
  | .jwtVerification error => "JWT key verification error: " ++ error
  | .crypto error => "cryptography error: " ++ error
  | .ssh error => "SSH error: " ++ error
  | .deploymentExecution error => "deployment execution error: " ++ error

def ApiError.fromWara (error : WaraError) : ApiError := .internal error.toString

/-- How a service call ends early: an error it returns, or a panic of its task. -/
inductive Abort where
  | api (e : ApiError)
  | panic (message : String)
  deriving DecidableEq, Repr

end Wara
