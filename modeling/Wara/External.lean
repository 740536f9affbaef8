import Mathlib.Data.Set.Operations
import Wara.Db
import Wara.Errors
import Wara.Rust.Str

/-!
# Third-party functions and configuration

The crates the services call (`uuid`, `chrono`, `sha2`, `base64`, `argon2`,
`rsa`, `jsonwebtoken`, `validator`) are the fields of `Ext`; what the services
rely on is `Ext.Lawful`. Standard time arithmetic and the clock, which decide
between a value and a panic, are spelled out.
-/

namespace Wara

/-! ## Tokens -/

/-- A value of a JSON claim set. -/
inductive Claim where
  | str (s : String)
  | num (n : UInt64)
  deriving DecidableEq, Repr

abbrev Payload := List (String × Claim)

/-- `Header::new(Algorithm::RS256)` with its `kid`. -/
structure Header where
  kid : Option String
  deriving DecidableEq, Repr

structure EncodingKey where
  der : List UInt8
  deriving DecidableEq, Repr

structure DecodingKey where
  der : List UInt8
  deriving DecidableEq, Repr

/-- `Validation::new(Algorithm::RS256)` with what the services set. -/
structure Validation where
  aud : String
  iss : String
  requiredSpecClaims : List String
  deriving DecidableEq, Repr

structure Ext where
  /-- `Uuid::to_string`. -/
  uuidToString : Uuid → String
  /-- `Uuid::simple`, displayed. -/
  uuidSimple : Uuid → String
  /-- `Uuid::parse_str`. -/
  uuidParseStr : String → Option Uuid
  /-- `DateTime::to_rfc3339`. -/
  toRfc3339 : DateTime → String
  /-- `DateTime::parse_from_rfc3339`, in UTC. -/
  parseFromRfc3339 : String → Except String DateTime
  /-- `DateTime::<Utc>::from_str`. -/
  dateTimeFromStr : String → Option DateTime
  /-- `Sha256::digest` of a string's bytes. -/
  sha256 : String → List UInt8
  /-- `URL_SAFE_NO_PAD.encode`. -/
  urlSafeEncode : List UInt8 → String
  /-- `STANDARD.encode`. -/
  standardEncode : List UInt8 → String
  /-- `STANDARD.decode`. -/
  standardDecode : String → Except String (List UInt8)
  /-- `Argon2::default().hash_password` with the given salt bytes. -/
  argon2Hash : String → List UInt8 → Except String String
  /-- The stored hash parses and `Argon2::default().verify_password` accepts the password. -/
  argon2Verify : String → String → Bool
  /-- `RsaPublicKey::from_public_key_pem`: modulus and exponent, big endian. -/
  rsaPublicKeyFromPem : String → Except String (List UInt8 × List UInt8)
  /-- `EncodingKey::from_rsa_pem`. -/
  encodingKeyFromRsaPem : String → Except String EncodingKey
  /-- `DecodingKey::from_rsa_pem`. -/
  decodingKeyFromRsaPem : String → Except String DecodingKey
  /-- `DecodingKey::from_rsa_components`. -/
  decodingKeyFromRsaComponents : String → String → Except String DecodingKey
  /-- `jsonwebtoken::encode`. -/
  encode : Header → Payload → EncodingKey → Except String String
  /-- `jsonwebtoken::decode_header`. -/
  decodeHeader : String → Option Header
  /-- `jsonwebtoken::decode` at a clock reading, up to the claim set. -/
  decode : UInt64 → String → DecodingKey → Validation → Except String Payload
  /-- The RS256 signature of the token verifies under the key. -/
  verifySignature : String → DecodingKey → Bool
  /-- `validator`'s email check. -/
  validateEmail : String → Bool
  /-- `validator`'s URL check. -/
  validateUrl : String → Bool
  /-- The characters beyond ASCII that `{:?}` prints as they are. -/
  debugPrints : Char → Bool

/-- What the services rely on. Parsing inverts printing; a token carries the header and the claims
it was made of, begins with the encoding of a JSON object and has dots between its parts; it is
decoded if its signature verifies, it has not expired and the claims are as required; a public key
that verifies one signature of a private key, both given as PEM, is of its pair and verifies them
all, also when it is given by components; URL-safe base64 has the length of its bytes and no dots;
a password hash and a time are non-empty texts. -/
structure Ext.Lawful (x : Ext) : Prop where
  parse_uuid : ∀ u, x.uuidParseStr (x.uuidToString u) = some u
  decodeHeader_encode : ∀ {h p k s}, x.encode h p k = .ok s → x.decodeHeader s = some h
  encode_eyJ : ∀ {h p k s}, x.encode h p k = .ok s → Rust.startsWith s "eyJ" = true
  encode_dot : ∀ {h p k s}, x.encode h p k = .ok s → '.' ∈ s.toList
  decodeHeader_dot : ∀ {s h}, x.decodeHeader s = some h → '.' ∈ s.toList
  decode_encode : ∀ {h p k s now key v q}, x.encode h p k = .ok s →
    x.decode now s key v = .ok q → q = p
  decode_verifies : ∀ {now s key v q}, x.decode now s key v = .ok q →
    x.verifySignature s key = true
  decode_accepts : ∀ {h p k s now key v exp}, x.encode h p k = .ok s →
    x.verifySignature s key = true → p.lookup "exp" = some (.num exp) → now ≤ exp →
    p.lookup "aud" = some (.str v.aud) → p.lookup "iss" = some (.str v.iss) →
    (∀ field ∈ v.requiredSpecClaims, (p.lookup field).isSome = true) → x.decode now s key v = .ok p
  verify_pair : ∀ {pem k pem' key h h' p p' s s'}, x.encodingKeyFromRsaPem pem = .ok k →
    x.decodingKeyFromRsaPem pem' = .ok key → x.encode h p k = .ok s → x.encode h' p' k = .ok s' →
    x.verifySignature s key = true → x.verifySignature s' key = true
  verify_components : ∀ {pem n e key}, x.rsaPublicKeyFromPem pem = .ok (n, e) →
    x.decodingKeyFromRsaPem pem = .ok key →
    ∃ key', x.decodingKeyFromRsaComponents (x.urlSafeEncode n) (x.urlSafeEncode e) = .ok key' ∧
      ∀ s, x.verifySignature s key' = x.verifySignature s key
  urlSafe_dot : ∀ bs, '.' ∉ (x.urlSafeEncode bs).toList
  urlSafe_length : ∀ bs, (x.urlSafeEncode bs).toList.length = (bs.length * 4 + 2) / 3
  argon2_nonempty : ∀ {password salt hash}, x.argon2Hash password salt = .ok hash → hash ≠ ""
  rfc3339_nonempty : ∀ t, x.toRfc3339 t ≠ ""

/-- No two of these texts have one digest. -/
def Ext.CollisionFree (x : Ext) (texts : Set String) : Prop :=
  Set.InjOn (fun text => x.urlSafeEncode (x.sha256 text)) texts

/-! ## Configuration -/

/-- The fields of `libs/config.rs` that a service or a handler reads. -/
structure Config where
  secretKey : String
  remoteServicesRoot : String
  dockerfileContextDir : String
  jwtPrivateKeyPem : String
  jwtPublicKey : String
  jwtIssuer : String
  jwtAudience : String
  jwtAccessTokenTtlSeconds : UInt64
  refreshTokenTtlSeconds : UInt64
  appBaseUrl : String
  inviteTokenTtlSeconds : UInt64
  bootstrapAdminEmail : String
  bootstrapAdminPassword : String
  bootstrapAdminName : String
  telemetryEnabled : Bool
  otelServiceName : String
  otelExporterOtlpEndpoint : Option String
  deriving DecidableEq, Repr, Inhabited

/-! ## Time -/

/-- `chrono::Duration::seconds`, in nanoseconds. -/
def durationSeconds (seconds : Int) : Except String Int :=
  if -9223372036854775 ≤ seconds ∧ seconds ≤ 9223372036854775 then .ok (seconds * 1000000000)
  else .error "TimeDelta::seconds out of bounds"

/-- `DateTime + TimeDelta`, from the first second of year -262143 to the last of 262142. -/
def DateTime.add (t : DateTime) (nanos : Int) : Except String DateTime :=
  let sum : DateTime := ⟨t.nanos + nanos⟩
  if -8334601228800 ≤ sum.timestamp ∧ sum.timestamp ≤ 8210266876799 then .ok sum
  else .error "`DateTime + TimeDelta` overflowed"

end Wara
