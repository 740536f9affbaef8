import Wara.External.Json
import Wara.Rust.Text

/-!
# Error responses in one envelope

`normalize_error_response` of `backend/src/errors/api.rs`, the middleware around
every route. An error response whose body is no envelope yet gets one that is
made from its status. A body that cannot be buffered within 64 KiB is replaced
together with its status.
-/

namespace Wara

/-! ## Responses -/

structure StatusCode where
  code : Nat
  low : 100 ≤ code
  high : code ≤ 999
  deriving DecidableEq, Repr

namespace StatusCode

def isClientError (s : StatusCode) : Bool := 400 ≤ s.code && s.code < 500

def isServerError (s : StatusCode) : Bool := 500 ≤ s.code && s.code < 600

end StatusCode

/-- A stream of bytes, which may fail after them. -/
structure Body where
  bytes : List UInt8
  failure : Option String
  deriving DecidableEq, Repr

def Body.from (bytes : List UInt8) : Body := ⟨bytes, none⟩

/-- `axum::body::to_bytes`. -/
abbrev ToBytes := Body → Nat → Except String (List UInt8)

/-- All the bytes of a body within the limit that does not fail, else an error. -/
structure ToBytes.Lawful (toBytes : ToBytes) : Prop where
  whole : ∀ {body limit}, body.bytes.length ≤ limit → body.failure = none →
    toBytes body limit = .ok body.bytes
  overlong : ∀ {body limit}, limit < body.bytes.length → ∃ e, toBytes body limit = .error e
  failed : ∀ {body limit}, body.failure ≠ none → ∃ e, toBytes body limit = .error e

abbrev HeaderMap := List (String × String)

/-- `HeaderMap::insert`. -/
def HeaderMap.insert (headers : HeaderMap) (name value : String) : HeaderMap :=
  (headers.filter fun h => h.1 ≠ name) ++ [(name, value)]

structure Response where
  status : StatusCode
  headers : HeaderMap
  body : Body
  deriving DecidableEq, Repr

def ApiError.statusCode (e : ApiError) : StatusCode where
  code := e.status
  low := by cases e <;> simp [ApiError.status]
  high := by cases e <;> simp [ApiError.status]

section normalize

variable (j : SerdeJson)

/-- `(status, Json(body)).into_response()`. -/
def jsonResponse (status : StatusCode) (body : ErrorResponse) : Response :=
  ⟨status, [("content-type", "application/json")], .from (j.toVec body)⟩

def ApiError.intoResponse (e : ApiError) : Response := jsonResponse j e.statusCode e.responseBody

def ErrorResponse.fromStatus (status : StatusCode) (details : Option String) : ErrorResponse :=
  let (code, message) :=
    if status.code = 400 then ("bad_request", "invalid request")
    else if status.code = 401 then ("unauthorized", "authentication required")
    else if status.code = 403 then ("forbidden", "forbidden")
    else if status.code = 404 then ("not_found", "route not found")
    else if status.code = 405 then ("method_not_allowed", "method not allowed")
    else if status.code = 422 then ("bad_request", "invalid request")
    else if status.isServerError then ("internal_error", "internal server error")
    else ("request_error", "request failed")
  ⟨code, message, if status.isServerError then none else details⟩

/-- The text of a body, if it has any. -/
def bodyDetails (bytes : List UInt8) : Option String :=
  ((Rust.ofBytes bytes).map Rust.trim).filter fun body => !body.toList.isEmpty

/-- On the response of the inner service. -/
def normalizeErrorResponse (toBytes : ToBytes) (response : Response) : Response :=
  let status := response.status
  if !status.isClientError && !status.isServerError then response
  else match toBytes response.body (64 * 1024) with
    | .error _ => (ApiError.internal "failed to serialize error response").intoResponse j
    | .ok bytes =>
      if (j.fromSlice bytes).isOk then { response with body := .from bytes }
      else
        let body := ErrorResponse.fromStatus status (bodyDetails bytes)
        let response := jsonResponse j status body
        { response with
          headers := HeaderMap.insert response.headers "content-type" "application/json" }

end normalize

/-! ## What comes out -/

/-- The response is an error. -/
def StatusCode.IsError (s : StatusCode) : Prop := s.isClientError = true ∨ s.isServerError = true

/-- The body can be read to its end within 64 KiB. -/
def Body.Buffers (body : Body) : Prop := body.bytes.length ≤ 64 * 1024 ∧ body.failure = none

/-- The response carries this envelope. -/
def Response.Carries (j : SerdeJson) (r : Response) (e : ErrorResponse) : Prop :=
  j.fromSlice r.body.bytes = .ok e ∧ r.body.failure = none

section spec

variable {j : SerdeJson} {toBytes : ToBytes} {r : Response}

theorem toBytes_error (hb : toBytes.Lawful) (h : ¬ r.body.Buffers) :
    ∃ e, toBytes r.body (64 * 1024) = .error e := by
  by_cases hlen : r.body.bytes.length ≤ 64 * 1024
  · exact hb.failed fun hfail => h ⟨hlen, hfail⟩
  · exact hb.overlong (Nat.lt_of_not_le hlen)

theorem carries_jsonResponse (hj : j.Lawful) (status : StatusCode) (e : ErrorResponse) :
    (jsonResponse j status e).Carries j e := ⟨hj e, rfl⟩

theorem details_fromStatus {status : StatusCode} (h : status.isServerError = true)
    (details : Option String) : (ErrorResponse.fromStatus status details).details = none := by
  unfold ErrorResponse.fromStatus
  exact if_pos h

theorem normalize_other (h : ¬ r.status.IsError) : normalizeErrorResponse j toBytes r = r := by
  unfold StatusCode.IsError at h
  rw [not_or, Bool.not_eq_true, Bool.not_eq_true] at h
  unfold normalizeErrorResponse
  simp only [h.1, h.2, Bool.not_false, Bool.and_self, if_true]

theorem not_other (h : r.status.IsError) :
    (!r.status.isClientError && !r.status.isServerError) = false := by
  rcases h with h | h
  · rw [h]
    rfl
  · rw [h, Bool.not_true, Bool.and_false]

theorem normalize_overlong (hb : toBytes.Lawful) (h : r.status.IsError) (hbody : ¬ r.body.Buffers) :
    normalizeErrorResponse j toBytes r =
      (ApiError.internal "failed to serialize error response").intoResponse j := by
  obtain ⟨e, he⟩ := toBytes_error hb hbody
  unfold normalizeErrorResponse
  simp only [not_other h, he, Bool.false_eq_true, if_false]

theorem normalize_envelope (hb : toBytes.Lawful) (h : r.status.IsError) (hbody : r.body.Buffers)
    (henvelope : (j.fromSlice r.body.bytes).isOk = true) :
    normalizeErrorResponse j toBytes r = r := by
  have hfrom : Body.from r.body.bytes = r.body := by
    rw [Body.from, ← hbody.2]
  unfold normalizeErrorResponse
  simp only [not_other h, hb.whole hbody.1 hbody.2, henvelope, Bool.false_eq_true, if_false,
    if_true, hfrom]

theorem normalize_built (hb : toBytes.Lawful) (h : r.status.IsError) (hbody : r.body.Buffers)
    (henvelope : (j.fromSlice r.body.bytes).isOk = false) :
    normalizeErrorResponse j toBytes r = jsonResponse j r.status
      (ErrorResponse.fromStatus r.status (bodyDetails r.body.bytes)) := by
  unfold normalizeErrorResponse
  simp only [not_other h, hb.whole hbody.1 hbody.2, henvelope, Bool.false_eq_true, if_false]
  rfl

/-- **Errors in one envelope.** A response that is no error comes out as it is. An error comes out
with an envelope: with its own status if its body buffers, unchanged if that body is an envelope
already, and as a 500 if it does not buffer. A 5xx envelope that is made here has no details. -/
theorem normalizeErrorResponse_spec (hj : j.Lawful) (hb : toBytes.Lawful) (r : Response) :
    (¬ r.status.IsError → normalizeErrorResponse j toBytes r = r) ∧
    (r.status.IsError →
      (r.body.Buffers → (normalizeErrorResponse j toBytes r).status = r.status) ∧
      (¬ r.body.Buffers → (normalizeErrorResponse j toBytes r).status.code = 500) ∧
      (r.body.Buffers → (j.fromSlice r.body.bytes).isOk = true →
        normalizeErrorResponse j toBytes r = r) ∧
      ∃ e, (normalizeErrorResponse j toBytes r).Carries j e ∧
        (¬ (r.body.Buffers ∧ (j.fromSlice r.body.bytes).isOk = true) →
          (normalizeErrorResponse j toBytes r).status.isServerError = true → e.details = none)) := by
  refine ⟨normalize_other, fun h => ?_⟩
  by_cases hbody : r.body.Buffers
  · cases henvelope : (j.fromSlice r.body.bytes).isOk with
    | true =>
      rw [normalize_envelope hb h hbody henvelope]
      refine ⟨fun _ => rfl, fun hno => absurd hbody hno, fun _ _ => rfl, ?_⟩
      cases he : j.fromSlice r.body.bytes with
      | error e => rw [he] at henvelope; cases henvelope
      | ok e => exact ⟨e, ⟨he, hbody.2⟩, fun hno => absurd ⟨hbody, rfl⟩ hno⟩
    | false =>
      rw [normalize_built hb h hbody henvelope]
      exact ⟨fun _ => rfl, fun hno => absurd hbody hno, nofun, _, carries_jsonResponse hj _ _,
        fun _ hserver => details_fromStatus hserver _⟩
  · rw [normalize_overlong hb h hbody]
    exact ⟨fun hyes => absurd hyes hbody, fun _ => rfl, fun hyes => absurd hyes hbody, _,
      carries_jsonResponse hj _ _, fun _ _ => rfl⟩

end spec

/-! ## A body that does not buffer -/

/-- A body that is read to its end. -/
def readToEnd : ToBytes := fun body limit =>
  if limit < body.bytes.length then .error "length limit exceeded"
  else match body.failure with
    | some error => .error error
    | none => .ok body.bytes

theorem readToEnd_lawful : readToEnd.Lawful where
  whole {body limit} hlen hfail := by
    simp only [readToEnd, if_neg (Nat.not_lt.mpr hlen), hfail]
  overlong {body limit} hlen := ⟨_, if_pos hlen⟩
  failed {body limit} hfail := by
    obtain ⟨error, herror⟩ := Option.ne_none_iff_exists'.mp hfail
    by_cases hlen : limit < body.bytes.length
    · exact ⟨_, if_pos hlen⟩
    · exact ⟨error, by simp only [readToEnd, if_neg hlen, herror]⟩

def notFound (bytes : List UInt8) : Response :=
  ⟨⟨404, by decide, by decide⟩, [("content-type", "text/plain")], .from bytes⟩

/-- A 404 with one byte too many comes out as a 500. -/
theorem normalizeErrorResponse_status : ¬ ∀ (j : SerdeJson) (toBytes : ToBytes), j.Lawful →
    toBytes.Lawful → ∀ r : Response, r.status.IsError →
      (normalizeErrorResponse j toBytes r).status = r.status := by
  intro hclaim
  have herror : (notFound (List.replicate (64 * 1024 + 1) 0)).status.IsError := .inl rfl
  have hbody : ¬ (notFound (List.replicate (64 * 1024 + 1) 0)).body.Buffers := by
    rintro ⟨hlen, -⟩
    unfold notFound Body.from at hlen
    rw [List.length_replicate] at hlen
    omega
  have hstatus := hclaim Json.compact readToEnd Json.compact_lawful readToEnd_lawful _ herror
  rw [normalize_overlong readToEnd_lawful herror hbody] at hstatus
  exact absurd (congrArg StatusCode.code hstatus) (by decide)

/-- A rejection in plain text keeps its status. -/
theorem normalizeErrorResponse_spec_text :
    (normalizeErrorResponse Json.compact readToEnd
      (notFound (Rust.asBytes "no such page"))).status.code = 404 :=
  congrArg StatusCode.code
    (((normalizeErrorResponse_spec Json.compact_lawful readToEnd_lawful
      (notFound (Rust.asBytes "no such page"))).2 (.inl rfl)).1 ⟨by decide +kernel, rfl⟩)

end Wara
