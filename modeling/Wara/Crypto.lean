import Wara.Cipher.Repeating
import Wara.Rust.Utf8
import Wara.External.Symbolic

/-!
# Secrets at rest

`backend/src/libs/crypto.rs`: a secret is xored with the digest of the master
key and written in base64. The two functions are inverse to each other. The key
stream is the same for every secret, so one known secret of 32 bytes gives all
the others away, whatever the digest.
-/

namespace Wara

open Cipher

section crypto

variable (x : Ext)

def encryptSecret (masterKey plaintext : String) : String :=
  let key := x.sha256 masterKey
  x.standardEncode (xorRepeating key (Rust.asBytes plaintext))

def decryptSecret (masterKey ciphertext : String) : Except WaraError String := do
  let bytes ← (x.standardDecode ciphertext).mapError .crypto
  let key := x.sha256 masterKey
  (Rust.fromUtf8 (xorRepeating key bytes)).mapError .crypto

/-- The STANDARD engine decodes the canonical encodings and nothing else. -/
structure Ext.Canonical (x : Ext) : Prop where
  decode_encode : ∀ bs, x.standardDecode (x.standardEncode bs) = .ok bs
  encode_decode : ∀ {s bs}, x.standardDecode s = .ok bs → x.standardEncode bs = s

variable {x} {k c p : String}

theorem decryptSecret_encryptSecret (hx : x.Canonical) :
    decryptSecret x k (encryptSecret x k p) = .ok p := by
  unfold decryptSecret encryptSecret
  simp only [hx.decode_encode, Except.mapError, bind, Except.bind, xorRepeating_xorRepeating,
    Rust.fromUtf8_asBytes]

theorem encryptSecret_of_decryptSecret (hx : x.Canonical) (h : decryptSecret x k c = .ok p) :
    encryptSecret x k p = c := by
  unfold decryptSecret at h
  cases hbytes : x.standardDecode c with
  | error e =>
    rw [hbytes] at h
    cases h
  | ok bytes =>
    rw [hbytes] at h
    cases htext : Rust.fromUtf8 (xorRepeating (x.sha256 k) bytes) with
    | error e =>
      simp only [Except.mapError, bind, Except.bind, htext] at h
      cases h
    | ok text =>
      simp only [Except.mapError, bind, Except.bind, htext] at h
      cases h
      unfold encryptSecret
      rw [Rust.asBytes_of_fromUtf8 htext]
      simp only [xorRepeating_xorRepeating]
      exact hx.encode_decode hbytes

/-- **Inverse to each other.** For every key: what is encrypted decrypts to the plaintext, and
what decrypts is the encryption of the result. -/
theorem crypto_inverse (hx : x.Canonical) :
    (∀ k p, decryptSecret x k (encryptSecret x k p) = .ok p) ∧
      ∀ k c p, decryptSecret x k c = .ok p → encryptSecret x k p = c :=
  ⟨fun _ _ => decryptSecret_encryptSecret hx, fun _ _ _ => encryptSecret_of_decryptSecret hx⟩

/-! ## One secret gives the others away -/

variable (x) in
/-- `F` decrypts any secret, given another one in plain and both in encrypted form. -/
def Reveals (F : String → String → String → String) : Prop :=
  ∀ k p₁ p₂, 32 ≤ (Rust.asBytes p₁).length → F p₁ (encryptSecret x k p₁) (encryptSecret x k p₂) = p₂

variable (x) in
/-- Decode both, xor the first with its plaintext for the key stream, and the second with that. -/
def reveal (known cipher₁ cipher₂ : String) : String :=
  match x.standardDecode cipher₁, x.standardDecode cipher₂ with
  | .ok bytes₁, .ok bytes₂ =>
    let key := recoverKey 32 (Rust.asBytes known) bytes₁
    match Rust.fromUtf8 (xorRepeating key bytes₂) with
    | .ok text => text
    | .error _ => ""
  | _, _ => ""

theorem reveal_reveals (hsha : ∀ s, (x.sha256 s).length = 32)
    (hx : ∀ bs, x.standardDecode (x.standardEncode bs) = .ok bs) : Reveals x (reveal x) := by
  intro k p₁ p₂ hlong
  have hkey : recoverKey 32 (Rust.asBytes p₁) (xorRepeating (x.sha256 k) (Rust.asBytes p₁)) =
      x.sha256 k := by
    rw [← hsha k]
    exact recoverKey_eq (by rw [hsha k]; exact hlong)
  unfold reveal encryptSecret
  simp only [hx, hkey, xorRepeating_xorRepeating, Rust.fromUtf8_asBytes]

/-- **Not confidential.** Whatever function into 32 bytes the digest is, there is a function that
knows no key and decrypts every secret under every key. -/
theorem secrets_reveal_others (hsha : ∀ s, (x.sha256 s).length = 32)
    (hx : ∀ bs, x.standardDecode (x.standardEncode bs) = .ok bs) : ∃ F, Reveals x F :=
  ⟨reveal x, reveal_reveals hsha hx⟩

end crypto

/-! ## A canonical engine -/

namespace Symbolic

/-- Only what is the encoding of its bytes is decoded. -/
def canonicalDecode (s : String) : Except String (List UInt8) :=
  match unstandard s with
  | .ok bs => if standard bs = s then .ok bs else .error "Invalid padding"
  | .error e => .error e

/-- A digest of 32 bytes. -/
def digest32 (s : String) : List UInt8 := (digest s ++ List.replicate 32 0).take 32

def sealing : Ext := { ext with sha256 := digest32, standardDecode := canonicalDecode }

theorem length_digest32 (s : String) : (digest32 s).length = 32 := by
  unfold digest32
  rw [List.length_take, List.length_append, List.length_replicate]
  omega

theorem sealing_canonical : sealing.Canonical where
  decode_encode bs := by
    show canonicalDecode (standard bs) = .ok bs
    unfold canonicalDecode
    rw [unstandard_standard]
    exact if_pos rfl
  encode_decode {s bs} h := by
    replace h : canonicalDecode s = .ok bs := h
    show standard bs = s
    unfold canonicalDecode at h
    split at h
    · split at h
      · next heq =>
        cases h
        exact heq
      · cases h
    · cases h

/-- The round trip of a registry token, and back from what it is encrypted to. -/
theorem crypto_inverse_sealing :
    let c := encryptSecret sealing "key" "registry-token"
    decryptSecret sealing "key" c = .ok "registry-token" ∧
      (decryptSecret sealing "key" c = .ok "registry-token" →
        encryptSecret sealing "key" "registry-token" = c) :=
  ⟨(crypto_inverse sealing_canonical).1 _ _, (crypto_inverse sealing_canonical).2 _ _ _⟩

theorem secrets_reveal_others_sealing : ∃ F, Reveals sealing F :=
  secrets_reveal_others length_digest32 sealing_canonical.decode_encode

/-- No function may reveal a secret, and one does. -/
theorem secrets_not_confidential : ¬ ∀ x : Ext, (∀ s, (x.sha256 s).length = 32) → x.Canonical →
    ¬ ∃ F, Reveals x F :=
  fun hclaim => hclaim sealing length_digest32 sealing_canonical
    ⟨reveal sealing, reveal_reveals length_digest32 sealing_canonical.decode_encode⟩

end Symbolic

end Wara
