import Wara.External

/-!
# Key configuration

`Config::validate_jwt_key_config` of `backend/src/libs/config.rs`, run once when
an instance starts, at the given clock reading.
-/

namespace Wara

structure JwtKeyProbeClaims where
  sub : String
  iss : String
  aud : String
  iat : UInt64
  exp : UInt64
  deriving DecidableEq, Repr

def JwtKeyProbeClaims.serialize (c : JwtKeyProbeClaims) : Payload :=
  [("sub", .str c.sub), ("iss", .str c.iss), ("aud", .str c.aud), ("iat", .num c.iat),
    ("exp", .num c.exp)]

namespace Config

variable (x : Ext)

/-- A probe token signed with the private key has to verify under the public key. -/
def verifyActivePrivateKeyMatchesPublicKey (config : Config) (now : UInt64) :
    Except WaraError Unit := do
  let signingKey ← (x.encodingKeyFromRsaPem config.jwtPrivateKeyPem).mapError
    (.invalidConfiguration "WARA_JWT_PRIVATE_KEY PEM")
  let verificationKey ← (x.decodingKeyFromRsaPem config.jwtPublicKey).mapError
    (.invalidConfiguration "JWT public key")
  let claims : JwtKeyProbeClaims :=
    ⟨"jwt-key-config-probe", config.jwtIssuer, config.jwtAudience, now, now + 60⟩
  let token ← (x.encode ⟨none⟩ claims.serialize signingKey).mapError .jwtSigning
  let _ ← (x.decode now token verificationKey
    ⟨config.jwtAudience, config.jwtIssuer, ["exp", "iss", "aud", "sub"]⟩).mapError fun error =>
      .jwtVerification ("active JWT private key does not match configured public key: " ++ error)

def validateJwtKeyConfig (config : Config) (now : UInt64) : Except WaraError Unit :=
  if Rust.isBlank config.jwtPrivateKeyPem then
    .error (.missingConfiguration "WARA_JWT_PRIVATE_KEY_PEM must not be empty")
  else do
    let _ ← (x.encodingKeyFromRsaPem config.jwtPrivateKeyPem).mapError
      (.invalidConfiguration "WARA_JWT_PRIVATE_KEY")
    if Rust.isBlank config.jwtPublicKey then
      .error (.missingConfiguration "WARA_JWT_PUBLIC_KEY must not be empty")
    else do
      let _ ← (x.decodingKeyFromRsaPem config.jwtPublicKey).mapError
        (.invalidConfiguration "JWT public key")
      config.verifyActivePrivateKeyMatchesPublicKey x now

variable {x} {config : Config} {now : UInt64}

theorem bind_ok {ε α β : Type} {e : Except ε α} {f : α → Except ε β} {b : β} :
    (e >>= f) = .ok b ↔ ∃ a, e = .ok a ∧ f a = .ok b := by
  cases e <;> simp [bind, Except.bind]

theorem mapError_ok {ε ε' α : Type} {e : Except ε α} {f : ε → ε'} {a : α} :
    e.mapError f = .ok a ↔ e = .ok a := by
  cases e <;> simp [Except.mapError]

/-- An accepted configuration has a public key under which what its private key signs verifies. -/
theorem pair_of_validate (hx : x.Lawful) (h : config.validateJwtKeyConfig x now = .ok ()) :
    ∃ key, x.decodingKeyFromRsaPem config.jwtPublicKey = .ok key ∧
      ∀ k header payload token, x.encodingKeyFromRsaPem config.jwtPrivateKeyPem = .ok k →
        x.encode header payload k = .ok token → x.verifySignature token key = true := by
  have hverify : config.verifyActivePrivateKeyMatchesPublicKey x now = .ok () := by
    unfold validateJwtKeyConfig at h
    split at h
    · cases h
    · obtain ⟨_, -, h⟩ := bind_ok.mp h
      split at h
      · cases h
      · obtain ⟨_, -, h⟩ := bind_ok.mp h
        exact h
  unfold verifyActivePrivateKeyMatchesPublicKey at hverify
  simp only [bind_ok, mapError_ok] at hverify
  obtain ⟨k, hk, key, hkey, probe, hprobe, payload, hdecode, -⟩ := hverify
  refine ⟨key, hkey, fun k' header payload token hk' htoken => ?_⟩
  cases hk.symm.trans hk'
  exact hx.verify_pair hk hkey hprobe htoken (hx.decode_verifies hdecode)

end Config

end Wara
