import Mathlib.Algebra.Order.Ring.Nat
import Wara.External

/-!
# A symbolic instance

Concrete functions for `Ext`, to evaluate the model on. Identifiers and base64
are the real ones. Cryptography is symbolic: a digest is the text itself, a PEM
names its key pair, and a token lists its header, its claims and the key that
signed it.
-/

namespace Wara.Symbolic

/-! ## Identifiers -/

/-- The last `n` hexadecimal digits of `v`. -/
def hex : Nat → Nat → List Char
  | 0, _ => []
  | n + 1, v => hex n (v / 16) ++ [Nat.digitChar (v % 16)]

def unhexDigit (c : Char) : Option Nat := (List.range 16).find? fun d => Nat.digitChar d = c

def unhex (cs : List Char) : Option Nat :=
  cs.foldlM (fun acc c => (unhexDigit c).map (acc * 16 + ·)) 0

theorem unhexDigit_digitChar : ∀ d < 16, unhexDigit (Nat.digitChar d) = some d := by decide

theorem unhex_hex (n v : Nat) : unhex (hex n v) = some (v % 16 ^ n) := by
  induction n generalizing v with
  | zero => simp [hex, unhex, Nat.mod_one]
  | succ n ih =>
    have hd := unhexDigit_digitChar (v % 16) (Nat.mod_lt _ (by decide))
    have hm : v % 16 ^ (n + 1) = v / 16 % 16 ^ n * 16 + v % 16 := by
      rw [Nat.pow_succ', Nat.mod_mul, Nat.mul_comm, Nat.add_comm]
    unfold unhex at ih ⊢
    rw [hex, List.foldlM_append, ih]
    simp [hd, hm]

theorem length_hex (n v : Nat) : (hex n v).length = n := by
  induction n generalizing v with
  | zero => rfl
  | succ n ih => simp [hex, ih]

theorem hyphen_notMem_hex (n v : Nat) : '-' ∉ hex n v := by
  induction n generalizing v with
  | zero => simp [hex]
  | succ n ih =>
    have hd : ∀ d < 16, '-' ≠ Nat.digitChar d := by decide
    rw [hex, List.mem_append, List.mem_singleton, not_or]
    exact ⟨ih _, hd _ (Nat.mod_lt _ (by decide))⟩

/-- Hyphens after groups of the given lengths. -/
def hyphenate : List Nat → List Char → List Char
  | [], cs => cs
  | n :: ns, cs => cs.take n ++ '-' :: hyphenate ns (cs.drop n)

theorem filter_hyphenate {cs : List Char} (h : '-' ∉ cs) (ns : List Nat) :
    (hyphenate ns cs).filter (· ≠ '-') = cs := by
  have hfilter : ∀ l : List Char, '-' ∉ l → l.filter (· ≠ '-') = l := fun l hl =>
    List.filter_eq_self.mpr fun c hc => decide_eq_true fun e => hl (e ▸ hc)
  induction ns generalizing cs with
  | nil => exact hfilter cs h
  | cons n ns ih =>
    have htake := hfilter (cs.take n) fun hc => h (List.mem_of_mem_take hc)
    have hdrop := ih (fun hc => h (List.mem_of_mem_drop (i := n) hc))
    rw [hyphenate, List.filter_append, htake, List.filter_cons_of_neg (by decide), hdrop,
      List.take_append_drop]

def simple (u : Uuid) : String := String.ofList (hex 32 u.toNat)

def hyphenated (u : Uuid) : String := String.ofList (hyphenate [8, 4, 4, 4] (hex 32 u.toNat))

/-- Hyphens are skipped wherever they stand. -/
def parseUuid (s : String) : Option Uuid :=
  let cs := s.toList.filter (· ≠ '-')
  if cs.length = 32 then (unhex cs).map (BitVec.ofNat 128) else none

theorem parseUuid_hyphenated (u : Uuid) : parseUuid (hyphenated u) = some u := by
  have hlt : u.toNat % 16 ^ 32 = u.toNat := Nat.mod_eq_of_lt u.isLt
  have hf := filter_hyphenate (hyphen_notMem_hex 32 u.toNat) [8, 4, 4, 4]
  unfold parseUuid hyphenated
  simp only [String.toList_ofList, hf, length_hex, unhex_hex, hlt, if_true, Option.map_some,
    BitVec.ofNat_toNat, BitVec.setWidth_eq]

/-! ## Base64 -/

def alphabet : List Char :=
  "ABCDEFGHIJKLMNOPQRSTUVWXYZabcdefghijklmnopqrstuvwxyz0123456789".toList

/-- The character of a sextet, with the two last of the alphabet given. -/
def sextet (last : List Char) (n : Nat) : Char := (alphabet ++ last).getD n 'A'

def unsextet (last : List Char) (c : Char) : Option Nat :=
  (List.range 64).find? fun n => sextet last n = c

/-- Bytes in groups of six bits, the last one filled up with zeros. -/
def sextets : List UInt8 → List Nat
  | [] => []
  | [a] => [a.toNat / 4, a.toNat % 4 * 16]
  | [a, b] => [a.toNat / 4, a.toNat % 4 * 16 + b.toNat / 16, b.toNat % 16 * 4]
  | a :: b :: c :: bs => a.toNat / 4 :: (a.toNat % 4 * 16 + b.toNat / 16) ::
      (b.toNat % 16 * 4 + c.toNat / 64) :: c.toNat % 64 :: sextets bs

def unsextets : List Nat → List UInt8
  | s :: t :: u :: v :: ss => UInt8.ofNat (s * 4 + t / 16) :: UInt8.ofNat (t % 16 * 16 + u / 4) ::
      UInt8.ofNat (u % 4 * 64 + v) :: unsextets ss
  | [s, t, u] => [UInt8.ofNat (s * 4 + t / 16), UInt8.ofNat (t % 16 * 16 + u / 4)]
  | [s, t] => [UInt8.ofNat (s * 4 + t / 16)]
  | _ => []

theorem uint8_ofNat_eq {a : UInt8} {n : Nat} (h : n = a.toNat) : UInt8.ofNat n = a := by
  subst h; exact UInt8.ofNat_toNat

theorem unsextets_sextets (bs : List UInt8) : unsextets (sextets bs) = bs := by
  induction bs using sextets.induct with
  | case1 => rfl
  | case2 a =>
    have ha : UInt8.ofNat (a.toNat / 4 * 4 + a.toNat % 4 * 16 / 16) = a :=
      uint8_ofNat_eq (by omega)
    simp only [sextets, unsextets, ha]
  | case3 a b =>
    have hb := b.toNat_lt
    have h1 : UInt8.ofNat (a.toNat / 4 * 4 + (a.toNat % 4 * 16 + b.toNat / 16) / 16) = a :=
      uint8_ofNat_eq (by omega)
    have h2 : UInt8.ofNat ((a.toNat % 4 * 16 + b.toNat / 16) % 16 * 16 + b.toNat % 16 * 4 / 4) = b :=
      uint8_ofNat_eq (by omega)
    simp only [sextets, unsextets, h1, h2]
  | case4 a b c bs ih =>
    have hb := b.toNat_lt
    have hc := c.toNat_lt
    have h1 : UInt8.ofNat (a.toNat / 4 * 4 + (a.toNat % 4 * 16 + b.toNat / 16) / 16) = a :=
      uint8_ofNat_eq (by omega)
    have h2 : UInt8.ofNat ((a.toNat % 4 * 16 + b.toNat / 16) % 16 * 16 +
        (b.toNat % 16 * 4 + c.toNat / 64) / 4) = b := uint8_ofNat_eq (by omega)
    have h3 : UInt8.ofNat ((b.toNat % 16 * 4 + c.toNat / 64) % 4 * 64 + c.toNat % 64) = c :=
      uint8_ofNat_eq (by omega)
    simp only [sextets, unsextets, h1, h2, h3, ih]

theorem sextets_lt {bs : List UInt8} {n : Nat} (h : n ∈ sextets bs) : n < 64 := by
  induction bs using sextets.induct with
  | case1 => cases h
  | case2 a =>
    have ha := a.toNat_lt
    simp only [sextets, List.mem_cons, List.not_mem_nil, or_false] at h
    omega
  | case3 a b =>
    have ha := a.toNat_lt
    have hb := b.toNat_lt
    simp only [sextets, List.mem_cons, List.not_mem_nil, or_false] at h
    omega
  | case4 a b c bs ih =>
    have ha := a.toNat_lt
    have hb := b.toNat_lt
    have hc := c.toNat_lt
    simp only [sextets, List.mem_cons] at h
    rcases h with h | h | h | h | h
    · omega
    · omega
    · omega
    · omega
    · exact ih h

theorem length_sextets (bs : List UInt8) : (sextets bs).length = (bs.length * 4 + 2) / 3 := by
  induction bs using sextets.induct with
  | case1 => rfl
  | case2 a => simp [sextets]
  | case3 a b => simp [sextets]
  | case4 a b c bs ih => simp only [sextets, List.length_cons, ih]; omega

def encodeSextets (last : List Char) (bs : List UInt8) : List Char :=
  (sextets bs).map (sextet last)

/-- Padding at the end is left out. -/
def decodeSextets (last : List Char) (cs : List Char) : Option (List UInt8) :=
  (((cs.reverse.dropWhile (· == '=')).reverse).mapM (unsextet last)).map unsextets

/-- The two last characters make an alphabet of 64, without padding and dots. -/
def IsAlphabet (last : List Char) : Prop :=
  ∀ n < 64, unsextet last (sextet last n) = some n ∧ sextet last n ≠ '=' ∧ sextet last n ≠ '.'

theorem urlSafe_alphabet : IsAlphabet ['-', '_'] := by unfold IsAlphabet; decide +kernel

theorem standard_alphabet : IsAlphabet ['+', '/'] := by unfold IsAlphabet; decide +kernel

theorem mapM_unsextet {last : List Char} (hl : IsAlphabet last) {ns : List Nat}
    (hn : ∀ n ∈ ns, n < 64) : (ns.map (sextet last)).mapM (unsextet last) = some ns := by
  induction ns with
  | nil => rfl
  | cons n ns ih =>
    rw [List.map_cons, List.mapM_cons, (hl n (hn n List.mem_cons_self)).1,
      ih fun m hm => hn m (List.mem_cons_of_mem _ hm)]
    rfl

theorem decodeSextets_encodeSextets {last : List Char} (hl : IsAlphabet last) (k : Nat)
    (bs : List UInt8) :
    decodeSextets last (encodeSextets last bs ++ List.replicate k '=') = some bs := by
  have hne : ∀ c ∈ (encodeSextets last bs).reverse, (c == '=') = false := by
    intro c hc
    obtain ⟨n, hn, rfl⟩ := List.mem_map.mp (List.mem_reverse.mp hc)
    exact beq_false_of_ne (hl n (sextets_lt hn)).2.1
  have hdrop : ((encodeSextets last bs ++ List.replicate k '=').reverse.dropWhile (· == '=')).reverse =
      encodeSextets last bs := by
    rw [List.reverse_append, List.reverse_replicate, List.dropWhile_append_of_pos (by
      intro c hc; rw [List.eq_of_mem_replicate hc]; rfl)]
    cases hr : (encodeSextets last bs).reverse with
    | nil => rw [List.dropWhile_nil, ← hr, List.reverse_reverse]
    | cons c cs =>
      rw [List.dropWhile_cons_of_neg (by rw [hne c (hr ▸ List.mem_cons_self)]; decide), ← hr,
        List.reverse_reverse]
  unfold decodeSextets
  rw [hdrop, encodeSextets, mapM_unsextet hl fun n hn => sextets_lt hn, Option.map_some,
    unsextets_sextets]

def urlSafe (bs : List UInt8) : String := String.ofList (encodeSextets ['-', '_'] bs)

def standard (bs : List UInt8) : String :=
  String.ofList (encodeSextets ['+', '/'] bs ++ List.replicate ((3 - bs.length % 3) % 3) '=')

def unstandard (s : String) : Except String (List UInt8) :=
  match decodeSextets ['+', '/'] s.toList with
  | some bs => .ok bs
  | none => .error "Invalid byte"

theorem unstandard_standard (bs : List UInt8) : unstandard (standard bs) = .ok bs := by
  unfold unstandard standard
  rw [String.toList_ofList, decodeSextets_encodeSextets standard_alphabet]

theorem urlSafe_inj {bs bs' : List UInt8} (h : urlSafe bs = urlSafe bs') : bs = bs' := by
  have hlist : encodeSextets ['-', '_'] bs = encodeSextets ['-', '_'] bs' := by
    have := congrArg String.toList h
    simpa only [urlSafe, String.toList_ofList] using this
  have h1 := decodeSextets_encodeSextets urlSafe_alphabet 0 bs
  have h2 := decodeSextets_encodeSextets urlSafe_alphabet 0 bs'
  rw [hlist, h2] at h1
  exact (Option.some.inj h1).symm

theorem dot_notMem_urlSafe (bs : List UInt8) : '.' ∉ (urlSafe bs).toList := by
  unfold urlSafe
  rw [String.toList_ofList]
  intro hmem
  obtain ⟨n, hn, he⟩ := List.mem_map.mp hmem
  exact (urlSafe_alphabet n (sextets_lt hn)).2.2 he

theorem length_urlSafe (bs : List UInt8) :
    (urlSafe bs).toList.length = (bs.length * 4 + 2) / 3 := by
  unfold urlSafe
  rw [String.toList_ofList, encodeSextets, List.length_map, length_sextets]

/-! ## Time -/

/-- The text of a time in the first minute of the epoch; `none` stands for all later ones. -/
def seconds (n : Nat) : String :=
  "1970-01-01T00:00:" ++ String.ofList [Nat.digitChar (n / 10), Nat.digitChar (n % 10)] ++ "+00:00"

theorem seconds_nonempty (n : Nat) : seconds n ≠ "" := by
  intro h
  unfold seconds at h
  generalize "1970-01-01T00:00:" = date at h
  generalize "+00:00" = zone at h
  have hlen := congrArg (fun s => s.toList.length) h
  simp at hlen

def toRfc3339 (t : DateTime) : String := seconds (t.timestamp.toNat % 60)

def parseFromRfc3339 (s : String) : Except String DateTime :=
  match (List.range 60).find? fun n => seconds n = s with
  | some n => .ok ⟨n * 1000000000⟩
  | none => .error "input contains invalid characters"

/-! ## Tokens -/

def bytes (s : String) : List UInt8 := s.toList.map fun c => UInt8.ofNat c.toNat

def charBytes (c : Char) : List UInt8 :=
  [UInt8.ofNat (c.toNat / 65536), UInt8.ofNat (c.toNat / 256), UInt8.ofNat c.toNat]

theorem toNat_lt_of_char (c : Char) : c.toNat < 1114112 := by
  have h : c.toNat < 55296 ∨ 57343 < c.toNat ∧ c.toNat < 1114112 := c.valid
  omega

theorem charBytes_inj {c d : Char} (h : charBytes c = charBytes d) : c = d := by
  have hc : c.toNat < 1114112 := toNat_lt_of_char c
  have hd : d.toNat < 1114112 := toNat_lt_of_char d
  simp only [charBytes, List.cons.injEq, and_true] at h
  obtain ⟨h1, h2, h3⟩ := h
  have h1 := congrArg UInt8.toNat h1
  have h2 := congrArg UInt8.toNat h2
  have h3 := congrArg UInt8.toNat h3
  simp only [UInt8.toNat_ofNat'] at h1 h2 h3
  have hn : c.toNat = d.toNat := by omega
  exact Char.toNat_inj.mp hn

/-- A digest that is the text itself. -/
def digest (s : String) : List UInt8 := s.toList.flatMap charBytes

theorem digest_inj {s t : String} (h : digest s = digest t) : s = t := by
  have hlist : ∀ l m : List Char, l.flatMap charBytes = m.flatMap charBytes → l = m := by
    intro l
    induction l with
    | nil =>
      intro m h
      cases m with
      | nil => rfl
      | cons d m => cases h
    | cons c l ih =>
      intro m h
      cases m with
      | nil => cases h
      | cons d m =>
        rw [List.flatMap_cons, List.flatMap_cons] at h
        obtain ⟨hcd, hlm⟩ := List.append_inj h rfl
        rw [charBytes_inj hcd, ih m hlm]
  exact String.toList_inj.mp (hlist _ _ h)

/-- The key pair named in a PEM with the given label. -/
def pemKey (label s : String) : Except String (List UInt8) :=
  if Rust.startsWith s label then .ok (bytes (String.ofList (s.toList.drop label.length)))
  else .error "InvalidKeyFormat"

/-- A public key is known by its encoded modulus. -/
def publicKey (n : List UInt8) : DecodingKey := ⟨bytes (urlSafe n)⟩

def hexBytes (bs : List UInt8) : List Char := bs.flatMap fun b => hex 2 b.toNat

def unhexBytes : List Char → Option (List UInt8)
  | [] => some []
  | [_] => none
  | a :: b :: cs => do return UInt8.ofNat (← unhex [a, b]) :: (← unhexBytes cs)

theorem unhexBytes_hexBytes (bs : List UInt8) : unhexBytes (hexBytes bs) = some bs := by
  induction bs with
  | nil => rfl
  | cons b bs ih =>
    have hb : unhex (hex 2 b.toNat) = some b.toNat := by
      rw [unhex_hex]
      exact congrArg some (Nat.mod_eq_of_lt b.toNat_lt)
    have htwo : hex 2 b.toNat = [Nat.digitChar (b.toNat / 16 % 16), Nat.digitChar (b.toNat % 16)] :=
      rfl
    rw [htwo] at hb
    have hcons : hexBytes (b :: bs) = Nat.digitChar (b.toNat / 16 % 16) ::
      Nat.digitChar (b.toNat % 16) :: hexBytes bs := rfl
    rw [hcons, unhexBytes, hb, ih]
    simp

/-- A number in as few digits as it takes. -/
def hexNat (n : Nat) : List Char := hex (n.log2 / 4 + 1) n

theorem unhex_hexNat (n : Nat) : unhex (hexNat n) = some n := by
  have hlt : n < 16 ^ (n.log2 / 4 + 1) := by
    have h16 : 16 ^ (n.log2 / 4 + 1) = 2 ^ (4 * (n.log2 / 4 + 1)) := by rw [Nat.pow_mul]
    have hle : n.log2 + 1 ≤ 4 * (n.log2 / 4 + 1) := by omega
    rw [h16]
    exact Nat.lt_of_lt_of_le Nat.lt_log2_self (Nat.pow_le_pow_right (by decide) hle)
  rw [hexNat, unhex_hex, Nat.mod_eq_of_lt hlt]

structure Token where
  header : Header
  payload : Payload
  key : EncodingKey
  deriving DecidableEq, Repr

def claimFields : Payload → List (List Char)
  | [] => []
  | (field, .str s) :: p => field.toList :: ['s'] :: s.toList :: claimFields p
  | (field, .num n) :: p => field.toList :: ['n'] :: hexNat n.toNat :: claimFields p

def claimsOf : List (List Char) → Option Payload
  | [] => some []
  | field :: kind :: value :: p => do
    let claim ← if kind = ['s'] then some (.str (String.ofList value)) else
      (unhex value).map fun n => .num (UInt64.ofNat n)
    return (String.ofList field, claim) :: (← claimsOf p)
  | _ => none

theorem claimsOf_claimFields (p : Payload) : claimsOf (claimFields p) = some p := by
  induction p with
  | nil => rfl
  | cons c p ih =>
    obtain ⟨field, s | n⟩ := c
    · simp [claimFields, claimsOf, ih]
    · simp [claimFields, claimsOf, ih, unhex_hexNat]

def kidField : Option String → List Char
  | none => []
  | some kid => 'k' :: kid.toList

def kidOf : List Char → Option String
  | [] => none
  | _ :: kid => some (String.ofList kid)

theorem kidOf_kidField (kid : Option String) : kidOf (kidField kid) = kid := by
  cases kid <;> simp [kidField, kidOf]

/-- What every token starts with. -/
def marker : List Char := ['e', 'y', 'J', '.']

def Token.fields (t : Token) : List (List Char) :=
  marker :: kidField t.header.kid :: hexBytes t.key.der :: claimFields t.payload

def Token.ofFields : List (List Char) → Option Token
  | first :: kid :: key :: claims =>
    if first = marker then do
      return ⟨⟨kidOf kid⟩, ← claimsOf claims, ⟨← unhexBytes key⟩⟩
    else none
  | _ => none

theorem Token.ofFields_fields (t : Token) : Token.ofFields t.fields = some t := by
  simp [Token.fields, Token.ofFields, kidOf_kidField, claimsOf_claimFields, unhexBytes_hexBytes]

/-- No line break is left. -/
def escape : List Char → List Char
  | [] => []
  | c :: cs =>
    if c = '\n' then '\\' :: 'n' :: escape cs
    else if c = '\\' then '\\' :: '\\' :: escape cs
    else c :: escape cs

def unescape : List Char → List Char
  | [] => []
  | [c] => [c]
  | c :: d :: cs =>
    if c = '\\' then (if d = 'n' then '\n' else d) :: unescape cs else c :: unescape (d :: cs)

theorem unescape_cons {c : Char} (h : c ≠ '\\') (cs : List Char) :
    unescape (c :: cs) = c :: unescape cs := by
  cases cs <;> simp [unescape, h]

theorem unescape_escape (cs : List Char) : unescape (escape cs) = cs := by
  induction cs with
  | nil => rfl
  | cons c cs ih =>
    by_cases hn : c = '\n'
    · simp [escape, unescape, hn, ih]
    · by_cases hb : c = '\\'
      · simp [escape, unescape, hb, ih]
      · rw [escape, if_neg hn, if_neg hb, unescape_cons hb, ih]

theorem newline_notMem_escape (cs : List Char) : '\n' ∉ escape cs := by
  induction cs with
  | nil => simp [escape]
  | cons c cs ih =>
    by_cases hn : c = '\n'
    · simp [escape, hn, ih]
    · by_cases hb : c = '\\'
      · simp [escape, hb, ih]
      · simp [escape, hn, hb, ih, Ne.symm hn]

def Token.render (t : Token) : String :=
  String.ofList (List.intercalate ['\n'] (t.fields.map escape))

def Token.parse (s : String) : Option Token :=
  Token.ofFields ((s.toList.splitOn '\n').map unescape)

theorem Token.parse_render (t : Token) : Token.parse t.render = some t := by
  have hsplit : List.splitOn '\n' (List.intercalate ['\n'] (t.fields.map escape)) =
      t.fields.map escape := by
    refine List.splitOn_intercalate '\n' ?_ (by simp [Token.fields])
    intro l hl
    obtain ⟨cs, -, rfl⟩ := List.mem_map.mp hl
    exact newline_notMem_escape cs
  have hmap : (t.fields.map escape).map unescape = t.fields := by
    rw [List.map_map]
    exact List.map_id'' unescape_escape _
  unfold Token.parse Token.render
  rw [String.toList_ofList, hsplit, hmap, Token.ofFields_fields]

theorem mem_intercalate {l : List Char} {ls : List (List Char)} {c : Char} (hc : c ∈ l)
    (hl : l ∈ ls) : c ∈ List.intercalate ['\n'] ls := by
  induction ls with
  | nil => cases hl
  | cons a ls ih =>
    cases ls with
    | nil =>
      obtain rfl := List.mem_singleton.mp hl
      simpa using hc
    | cons b ls =>
      rw [List.intercalate_cons_cons]
      rcases List.mem_cons.mp hl with rfl | hl
      · simp [hc]
      · exact List.mem_append_right _ (ih hl)

/-- Only line breaks come out of an escape. -/
theorem mem_of_mem_unescape {c : Char} {cs : List Char} (hn : c ≠ '\n') (h : c ∈ unescape cs) :
    c ∈ cs := by
  induction cs using unescape.induct with
  | case1 => exact h
  | case2 d => exact h
  | case3 e cs ih =>
    simp only [unescape, if_true, List.mem_cons] at h ⊢
    rcases h with h | h
    · split at h
      · exact absurd h hn
      · exact .inr (.inl h)
    · exact .inr (.inr (ih h))
  | case4 d e cs hd ih =>
    rw [unescape, if_neg hd] at h
    rcases List.mem_cons.mp h with rfl | h
    · exact List.mem_cons_self
    · exact List.mem_cons_of_mem _ (ih h)

theorem dot_mem_of_parse {s : String} {t : Token} (h : Token.parse s = some t) :
    '.' ∈ s.toList := by
  unfold Token.parse at h
  have hjoin : List.intercalate ['\n'] (s.toList.splitOn '\n') = s.toList :=
    List.intercalate_splitOn '\n'
  rw [← hjoin]
  generalize s.toList.splitOn '\n' = ls at h
  cases ls with
  | nil => cases h
  | cons l ls =>
    have hmarker : unescape l = marker := by
      rw [List.map_cons] at h
      generalize unescape l = first at h
      generalize ls.map unescape = rest at h
      match rest, h with
      | kid :: key :: claims, h =>
        by_cases hm : first = marker
        · exact hm
        · simp [Token.ofFields, hm] at h
    have hdot : '.' ∈ unescape l := by rw [hmarker]; decide
    exact mem_intercalate (mem_of_mem_unescape (by decide) hdot) List.mem_cons_self

theorem startsWith_render (t : Token) : Rust.startsWith t.render "eyJ" = true := by
  unfold Token.render Token.fields
  rw [List.map_cons, List.map_cons, List.intercalate_cons_cons]
  generalize List.intercalate ['\n'] _ = rest
  have hmarker : escape marker = marker := by decide
  simp only [Rust.startsWith, String.toList_ofList, hmarker]
  rfl

def encode (header : Header) (payload : Payload) (key : EncodingKey) : Except String String :=
  .ok (Token.render ⟨header, payload, key⟩)

theorem parse_of_encode {h : Header} {p : Payload} {k : EncodingKey} {s : String}
    (he : encode h p k = .ok s) : Token.parse s = some ⟨h, p, k⟩ := by
  cases he
  exact Token.parse_render _

def verifySignature (s : String) (key : DecodingKey) : Bool :=
  match Token.parse s with
  | some t => publicKey t.key.der = key
  | none => false

/-- Not expired, with a minute of leeway. -/
def live (now : UInt64) (p : Payload) : Bool :=
  match p.lookup "exp" with
  | some (.num exp) => now.toNat ≤ exp.toNat + 60
  | _ => false

def decode (now : UInt64) (s : String) (key : DecodingKey) (v : Validation) :
    Except String Payload :=
  match Token.parse s with
  | none => .error "InvalidToken"
  | some t =>
    if verifySignature s key && live now t.payload &&
        t.payload.lookup "aud" == some (.str v.aud) && t.payload.lookup "iss" == some (.str v.iss) &&
        v.requiredSpecClaims.all fun field => (t.payload.lookup field).isSome
    then .ok t.payload else .error "InvalidSignature"

def argon2Hash (password : String) (_ : List UInt8) : Except String String :=
  .ok ("$argon2id$" ++ password)

def ext : Ext where
  uuidToString := hyphenated
  uuidSimple := simple
  uuidParseStr := parseUuid
  toRfc3339 := toRfc3339
  parseFromRfc3339 := parseFromRfc3339
  dateTimeFromStr s := (parseFromRfc3339 s).toOption
  sha256 := digest
  urlSafeEncode := urlSafe
  standardEncode := standard
  standardDecode := unstandard
  argon2Hash := argon2Hash
  argon2Verify := fun password hash => hash = "$argon2id$" ++ password
  rsaPublicKeyFromPem := fun s => (pemKey "PUBLIC KEY " s).map fun n => (n, [1, 0, 1])
  encodingKeyFromRsaPem := fun s => (pemKey "RSA PRIVATE KEY " s).map EncodingKey.mk
  decodingKeyFromRsaPem := fun s => (pemKey "PUBLIC KEY " s).map publicKey
  decodingKeyFromRsaComponents := fun n _ => .ok ⟨bytes n⟩
  encode := encode
  decodeHeader := fun s => (Token.parse s).map (·.header)
  decode := decode
  verifySignature := verifySignature
  validateEmail := fun s => s.toList.any (· = '@')
  validateUrl := fun s => Rust.startsWith s "http"
  debugPrints := fun _ => true

theorem decode_of_encode {h : Header} {p q : Payload} {k : EncodingKey} {s : String}
    {now : UInt64} {key : DecodingKey} {v : Validation} (he : encode h p k = .ok s)
    (hd : decode now s key v = .ok q) : q = p := by
  unfold decode at hd
  rw [parse_of_encode he] at hd
  dsimp only at hd
  split at hd
  · cases hd; rfl
  · cases hd

theorem decode_accepts {h : Header} {p : Payload} {k : EncodingKey} {s : String}
    {now exp : UInt64} {key : DecodingKey} {v : Validation} (he : encode h p k = .ok s)
    (hv : verifySignature s key = true) (hexp : p.lookup "exp" = some (.num exp)) (hnow : now ≤ exp)
    (haud : p.lookup "aud" = some (.str v.aud)) (hiss : p.lookup "iss" = some (.str v.iss))
    (hreq : ∀ field ∈ v.requiredSpecClaims, (p.lookup field).isSome = true) :
    decode now s key v = .ok p := by
  have hlive : live now p = true := by
    have hle : now.toNat ≤ exp.toNat := hnow
    simp only [live, hexp, decide_eq_true_eq]
    omega
  unfold decode
  rw [parse_of_encode he]
  simp only [hv, hlive, haud, hiss, List.all_eq_true.mpr hreq, beq_self_eq_true, Bool.and_self,
    if_true]

theorem verifies_of_decode {q : Payload} {s : String} {now : UInt64} {key : DecodingKey}
    {v : Validation} (hd : decode now s key v = .ok q) : verifySignature s key = true := by
  unfold decode at hd
  split at hd
  · cases hd
  · split at hd
    · next h =>
      simp only [Bool.and_eq_true] at h
      exact h.1.1.1.1
    · cases hd

theorem verify_components {pem : String} {n e : List UInt8} {key : DecodingKey}
    (hn : (pemKey "PUBLIC KEY " pem).map (fun n => (n, ([1, 0, 1] : List UInt8))) = .ok (n, e))
    (hk : (pemKey "PUBLIC KEY " pem).map publicKey = .ok key) (s : String) :
    verifySignature s ⟨bytes (urlSafe n)⟩ = verifySignature s key := by
  generalize pemKey "PUBLIC KEY " pem = r at hn hk
  cases r with
  | error error => cases hn
  | ok m => cases hn; cases hk; rfl

theorem argon2Hash_nonempty {password hash : String} {salt : List UInt8}
    (h : argon2Hash password salt = .ok hash) : hash ≠ "" := by
  unfold argon2Hash at h
  injection h with h
  rintro rfl
  have := congrArg String.toList h
  simp at this

theorem ext_lawful : ext.Lawful where
  parse_uuid u := by simp only [ext]; exact parseUuid_hyphenated u
  decodeHeader_encode he := by
    simp only [ext] at he ⊢
    rw [parse_of_encode he, Option.map_some]
  encode_eyJ he := by simp only [ext] at he; cases he; exact startsWith_render _
  encode_dot he := by simp only [ext] at he; exact dot_mem_of_parse (parse_of_encode he)
  decodeHeader_dot h := by
    simp only [ext, Option.map_eq_some_iff] at h
    obtain ⟨t, ht, -⟩ := h
    exact dot_mem_of_parse ht
  decode_encode he hd := by simp only [ext] at he hd; exact decode_of_encode he hd
  decode_accepts he hv hexp hnow haud hiss hreq := by
    simp only [ext] at he hv ⊢
    exact decode_accepts he hv hexp hnow haud hiss hreq
  decode_verifies hd := by simp only [ext] at hd ⊢; exact verifies_of_decode hd
  verify_pair _ _ he he' hv := by
    simp only [ext] at he he' hv ⊢
    unfold verifySignature at hv ⊢
    rw [parse_of_encode he] at hv
    rw [parse_of_encode he']
    exact hv
  verify_components hn hk := by
    simp only [ext] at hn hk ⊢
    exact ⟨_, rfl, verify_components hn hk⟩
  urlSafe_dot bs := by simp only [ext]; exact dot_notMem_urlSafe bs
  urlSafe_length bs := by simp only [ext]; exact length_urlSafe bs
  argon2_nonempty h := by simp only [ext] at h; exact argon2Hash_nonempty h
  rfc3339_nonempty t := by simp only [ext]; exact seconds_nonempty _

theorem ext_collisionFree (texts : Set String) : ext.CollisionFree texts := by
  intro s _ t _ h
  simp only [ext] at h
  exact digest_inj (urlSafe_inj h)

/-- An instance with its own key pair. -/
def config (key : String) : Config where
  secretKey := "development-secret-change-me"
  remoteServicesRoot := "/opt/wara/services"
  dockerfileContextDir := "context"
  jwtPrivateKeyPem := "RSA PRIVATE KEY " ++ key
  jwtPublicKey := "PUBLIC KEY " ++ key
  jwtIssuer := "wara"
  jwtAudience := "wara-api"
  jwtAccessTokenTtlSeconds := 900
  refreshTokenTtlSeconds := 2592000
  appBaseUrl := "http://localhost:4200"
  inviteTokenTtlSeconds := 604800
  bootstrapAdminEmail := "admin@wara.local"
  bootstrapAdminPassword := "change-me"
  bootstrapAdminName := "Wara Admin"
  telemetryEnabled := false
  otelServiceName := "wara-backend"
  otelExporterOtlpEndpoint := none

end Wara.Symbolic
