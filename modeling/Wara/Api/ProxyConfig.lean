import Wara.Api.Routes
import Wara.External.Symbolic
import Wara.Proxy.Nginx
import Wara.Proxy.Yaml
import Wara.Service.Solo

/-!
# Hostnames in proxy configurations

`generate_config` writes the hostname of a domain into a configuration as it is,
and any text of 1 to 253 characters is a hostname. Here the configuration is
read back: as Nginx directives, and as the YAML and the rule of a Traefik router.
-/

namespace Wara

open Interleave Store Service Docker DomainService

/-! ## Upstreams -/

/-- A character of an address or a URL. -/
def isUrlChar (c : Char) : Bool :=
  Rust.isAsciiAlphanumeric c || ['.', '-', '_', ':', '[', ']', '/'].contains c

/-- An address and a port. -/
def IsHostPort (upstream : String) : Prop :=
  ∃ host port : String, upstream = host ++ ":" ++ port ∧
    host.toList.all isUrlChar = true ∧ port.toList ≠ [] ∧ port.toList.all Rust.isAsciiDigit = true

theorem alphanumeric_range {c : Char} (h : Rust.isAsciiAlphanumeric c = true) :
    48 ≤ c.toNat ∧ c.toNat ≤ 122 := by
  simp only [Rust.isAsciiAlphanumeric, Rust.isAsciiLowercase, Rust.isAsciiDigit, Bool.or_eq_true,
    Bool.and_eq_true, decide_eq_true_eq, Char.le_def, UInt32.le_iff_toNat_le] at h
  have hlow : 'a'.val.toNat = 97 ∧ 'z'.val.toNat = 122 := by decide
  have hup : 'A'.val.toNat = 65 ∧ 'Z'.val.toNat = 90 := by decide
  have hdigit : '0'.val.toNat = 48 ∧ '9'.val.toNat = 57 := by decide
  show 48 ≤ c.val.toNat ∧ c.val.toNat ≤ 122
  omega

theorem alphanumeric_of_digit {c : Char} (h : Rust.isAsciiDigit c = true) :
    Rust.isAsciiAlphanumeric c = true := by
  unfold Rust.isAsciiAlphanumeric
  rw [h, Bool.or_true]

/-- A character of a URL is printable, no blank and no separator. -/
theorem isUrlChar_plain {c : Char} (h : isUrlChar c = true) :
    Nginx.isSeparator c = false ∧ Yaml.isPrintable c = true ∧ Yaml.isBlank c = false ∧
      Yaml.isBreak c = false := by
  have hother : ∀ d ∈ [' ', '\t', '\n', '\r', ';', '\x7b', '\x7d'], c ≠ d := by
    -- by `all`: `decide` would try the bounded quantifier on every character there is
    have hnone : [' ', '\t', '\n', '\r', ';', '\x7b', '\x7d'].all (fun d => !isUrlChar d) = true := by
      decide
    rintro d hd rfl
    have hc := List.all_eq_true.mp hnone c hd
    rw [h] at hc
    cases hc
  simp only [List.mem_cons, List.not_mem_nil, or_false, forall_eq_or_imp, forall_eq] at hother
  obtain ⟨h1, h2, h3, h4, h5, h6, h7⟩ := hother
  have hprint : Yaml.isPrintable c = true := by
    rcases Bool.or_eq_true_iff.mp h with h | h
    · obtain ⟨hlo, hhi⟩ := alphanumeric_range h
      have hrange : decide (0x20 ≤ c.toNat) = true ∧ decide (c.toNat ≤ 0x7E) = true :=
        ⟨decide_eq_true (by omega), decide_eq_true (by omega)⟩
      simp [Yaml.isPrintable, hrange.1, hrange.2]
    · have hall : ['.', '-', '_', ':', '[', ']', '/'].all Yaml.isPrintable = true := by decide
      exact List.all_eq_true.mp hall c (List.contains_iff_mem.mp h)
  refine ⟨?_, hprint, ?_, ?_⟩
  · simp [Nginx.isSeparator, Nginx.isBlank, h1, h2, h3, h4, h5, h6, h7]
  · simp [Yaml.isBlank, h1, h2]
  · simp [Yaml.isBreak, h3, h4]

theorem IsHostPort.chars {upstream : String} (h : IsHostPort upstream) :
    ∀ c ∈ upstream.toList, isUrlChar c = true := by
  obtain ⟨host, port, rfl, hhost, -, hport⟩ := h
  intro c hc
  simp only [String.toList_append, List.mem_append] at hc
  rcases hc with (hc | hc) | hc
  · exact List.all_eq_true.mp hhost c hc
  · rw [List.mem_singleton.mp (show c ∈ [':'] from hc)]
    decide
  · unfold isUrlChar
    rw [alphanumeric_of_digit (List.all_eq_true.mp hport c hc), Bool.true_or]

/-! ## Nginx -/

/-- One server block, in it one `server_name` whose argument is the hostname, and one location. -/
def ServesOnly (hostname text : String) : Prop :=
  ∃ ds body path inner, Nginx.parse text.toList = some ds ∧
    Nginx.named "server" ds = [.block ["server".toList] body] ∧
    Nginx.named "server_name" body = [.simple ["server_name".toList, hostname.toList]] ∧
    Nginx.named "location" body = [.block ("location".toList :: path) inner]

section nginx

variable {x : Ext} {domain : Domain} {upstream : String}

/-- The directives in the server block for a hostname and an upstream. -/
def serverBody (hostname upstream : List Char) : List Nginx.Directive :=
  [.simple ["listen".toList, "80".toList], .simple ["server_name".toList, hostname],
    .block ["location".toList, "/".toList]
      [.simple ["proxy_pass".toList, "http://".toList ++ upstream],
        .simple ["proxy_set_header".toList, "Host".toList, "$host".toList],
        .simple ["proxy_set_header".toList, "X-Forwarded-Proto".toList, "$scheme".toList]]]

/-! The three pieces of text around the hostname and the upstream. -/

set_option maxRecDepth 4000 in
theorem lex_head (cs : List Char) :
    Nginx.lexFrom [] ("server \x7b\n    listen 80;\n    server_name ".toList ++ cs) =
    [.word "server".toList, .opening, .word "listen".toList, .word "80".toList, .semicolon,
      .word "server_name".toList] ++ Nginx.lexFrom [] cs := by
  rfl

set_option maxRecDepth 4000 in
theorem lex_middle (c : Char) (w cs : List Char) : Nginx.lexFrom (c :: w)
    (";\n\n    location / \x7b\n        proxy_pass http://".toList ++ cs) =
      [.word (c :: w), .semicolon, .word "location".toList, .word "/".toList, .opening,
        .word "proxy_pass".toList] ++ Nginx.lexFrom "http://".toList cs := by
  rfl

set_option maxRecDepth 4000 in
theorem lex_tail (w : List Char) : Nginx.lexFrom ("http://".toList ++ w)
    (";\n        proxy_set_header Host $host;\n        proxy_set_header X-Forwarded-Proto ".toList ++
      "$scheme;\n    \x7d\n\x7d\n".toList) =
      [.word ("http://".toList ++ w), .semicolon, .word "proxy_set_header".toList,
        .word "Host".toList, .word "$host".toList, .semicolon, .word "proxy_set_header".toList,
        .word "X-Forwarded-Proto".toList, .word "$scheme".toList, .semicolon, .closing,
        .closing] := by
  rfl

theorem parse_nginx (hproxy : domain.proxy = .nginx) (hhost : Nginx.Plain domain.hostname.toList)
    (hne : domain.hostname.toList ≠ []) (hup : IsHostPort upstream) :
    Nginx.parse (generateConfig x domain upstream).toList =
      some [.block ["server".toList] (serverBody domain.hostname.toList upstream.toList)] := by
  have hplain : Nginx.Plain upstream.toList := fun c hc => (isUrlChar_plain (hup.chars c hc)).1
  obtain ⟨c, cs, hcons⟩ := List.exists_cons_of_ne_nil hne
  unfold generateConfig Nginx.parse Nginx.lex
  rw [hproxy]
  dsimp only
  simp only [String.toList_append, List.append_assoc]
  rw [lex_head, Nginx.lexFrom_append hhost, List.nil_append, hcons, lex_middle,
    Nginx.lexFrom_append hplain, lex_tail]
  rfl

/-- **When a hostname is all that it names** in an Nginx configuration. -/
theorem servesOnly_iff (hproxy : domain.proxy = .nginx) (hne : domain.hostname.toList ≠ [])
    (hup : IsHostPort upstream) :
    ServesOnly domain.hostname (generateConfig x domain upstream) ↔
      Nginx.Plain domain.hostname.toList := by
  constructor
  · rintro ⟨ds, body, path, inner, hparse, hserver, hname, -⟩
    have hmem : Nginx.Directive.block ["server".toList] body ∈ ds :=
      List.mem_of_mem_filter (hserver ▸ List.mem_singleton_self _)
    cases Nginx.parse_plain hparse _ hmem with
    | block _ hbody =>
      have hdirective : Nginx.Directive.simple ["server_name".toList, domain.hostname.toList] ∈ body :=
        List.mem_of_mem_filter (hname ▸ List.mem_singleton_self _)
      cases hbody _ hdirective with
      | simple hwords => exact hwords _ (List.mem_cons_of_mem _ (List.mem_singleton_self _))
  · intro hhost
    exact ⟨_, _, _, _, parse_nginx hproxy hhost hne hup, rfl, rfl, rfl⟩

end nginx

/-! ## Traefik -/

/-- What delimits a hostname in a rule. -/
def backquote : Char := Char.ofNat 96

def hostRule (hostname : List Char) : List Char :=
  "Host(".toList ++ backquote :: (hostname ++ [backquote, ')'])

/-- The hostname of a rule that is one `Host` with one hostname. -/
def hostOf (rule : List Char) : Option (List Char) :=
  let hostname := (rule.drop 6).takeWhile (· ≠ backquote)
  if rule = hostRule hostname then some hostname else none

theorem hostOf_eq_some {rule hostname : List Char} :
    hostOf rule = some hostname ↔ rule = hostRule hostname ∧ backquote ∉ hostname := by
  unfold hostOf
  dsimp only
  constructor
  · intro h
    split at h
    · next hrule =>
      cases h
      refine ⟨hrule, fun hm => ?_⟩
      have hall : ((rule.drop 6).takeWhile (· ≠ backquote)).all (· ≠ backquote) = true :=
        List.all_takeWhile
      exact absurd rfl (of_decide_eq_true (List.all_eq_true.mp hall _ hm))
    · cases h
  · rintro ⟨rfl, hm⟩
    have hall : ∀ c ∈ hostname, decide (c ≠ backquote) = true := fun c hc =>
      decide_eq_true fun he => hm (he ▸ hc)
    have htake : ((hostRule hostname).drop 6).takeWhile (· ≠ backquote) = hostname := by
      show (hostname ++ [backquote, ')']).takeWhile (· ≠ backquote) = hostname
      rw [List.takeWhile_append_of_pos hall, List.takeWhile_cons_of_neg (by simp), List.append_nil]
    rw [htake, if_pos rfl]

/-- Keys of the configuration. -/
abbrev key (name : String) : Yaml.Key := .name name.toList

/-- One router, which has the hostname as its rule and nothing but a service besides, and one
service. -/
def RoutesOnly (hostname text : String) : Prop :=
  ∃ es router service rule, Yaml.parse text.toList = some es ∧
    Yaml.keysUnder [] es = [key "http"] ∧
    Yaml.keysUnder [key "http"] es = [key "routers", key "services"] ∧
    Yaml.keysUnder [key "http", key "routers"] es = [router] ∧
    Yaml.keysUnder [key "http", key "routers", router] es = [key "rule", key "service"] ∧
    Yaml.valueAt [key "http", key "routers", router, key "rule"] es = some rule ∧
    hostOf rule = some hostname.toList ∧
    Yaml.keysUnder [key "http", key "services"] es = [service]

/-- The texts of identifiers: hexadecimal digits and hyphens, a digit first. -/
def Ext.PrintsHex (x : Ext) : Prop :=
  ∀ u, (x.uuidToString u).toList.head?.any Rust.isAsciiAlphanumeric = true ∧
    ∀ c ∈ (x.uuidToString u).toList, Rust.isAsciiAlphanumeric c = true ∨ c = '-'

theorem joined_of_no_blank {v : List Char} (h : ∀ c ∈ v, Yaml.isBlank c = false) :
    v.IsChain Yaml.Joined := by
  induction v with
  | nil => exact .nil
  | cons a v ih =>
    refine List.isChain_cons.mpr ⟨fun b hb => ⟨?_, ?_⟩, ih fun c hc => h c (List.mem_cons_of_mem _ hc)⟩
    · rintro ⟨ha, -⟩
      rw [h a List.mem_cons_self] at ha
      cases ha
    · rintro ⟨-, hblank⟩
      rw [h b (List.mem_cons_of_mem _ (List.mem_of_head? hb))] at hblank
      cases hblank

/-- A scalar made of characters of a URL. -/
theorem isPlain_url {v : List Char} (h : ∀ c ∈ v, isUrlChar c = true)
    (hfirst : v.head?.any Rust.isAsciiAlphanumeric = true)
    (hlast : v.getLast?.any (fun c => c != ':') = true) : Yaml.IsPlain v := by
  have hother : ∀ c ∈ v, Yaml.isBlank c = false := fun c hc => (isUrlChar_plain (h c hc)).2.2.1
  constructor
  · cases v with
    | nil => cases hfirst
    | cons c v =>
      have hnone : Yaml.indicators.all (fun d => !Rust.isAsciiAlphanumeric d) = true := by decide
      have hc : Yaml.indicators.contains c = false := by
        rw [List.contains_eq_mem, decide_eq_false_iff_not]
        intro hm
        have hc := List.all_eq_true.mp hnone c hm
        have hfirst : Rust.isAsciiAlphanumeric c = true := hfirst
        rw [hfirst] at hc
        cases hc
      show Yaml.isFirst c = true
      unfold Yaml.isFirst
      rw [hc, hother c List.mem_cons_self]
      rfl
  · cases hv : v.getLast? with
    | none =>
      rw [hv] at hlast
      cases hlast
    | some c =>
      rw [hv] at hlast
      show Yaml.isLast c = true
      unfold Yaml.isLast
      rw [hother c (List.mem_of_getLast? hv), show (c != ':') = true from hlast]
      rfl
  · exact List.all_eq_true.mpr fun c hc => (isUrlChar_plain (h c hc)).2.1
  · exact joined_of_no_blank hother

/-- What a hostname must not have in a Traefik configuration: unprintable characters and line
breaks, a backquote, a blank before `#` and one after `:`. -/
def Routable (hostname : List Char) : Prop :=
  (∀ c ∈ hostname, Yaml.isPrintable c = true ∧ c ≠ backquote) ∧ hostname.IsChain Yaml.Joined

theorem isPlain_hostRule {hostname : List Char} : Yaml.IsPlain (hostRule hostname) ∧
    backquote ∉ hostname ↔ Routable hostname := by
  constructor
  · rintro ⟨hplain, hquote⟩
    have hall := List.all_eq_true.mp hplain.printable
    refine ⟨fun c hc => ⟨hall c ?_, fun he => hquote (he ▸ hc)⟩, ?_⟩
    · exact List.mem_append_right _ (List.mem_cons_of_mem _ (List.mem_append_left _ hc))
    · have hrest := (List.isChain_cons.mp hplain.joined.right_of_append).2
      exact hrest.left_of_append
  · rintro ⟨hchars, hjoined⟩
    have hends : hostRule hostname = ("Host(".toList ++ backquote :: hostname ++ [backquote]) ++ [')'] := by
      unfold hostRule
      simp only [List.append_assoc, List.cons_append, List.nil_append]
    refine ⟨⟨rfl, ?_, ?_, ?_⟩, fun hm => (hchars _ hm).2 rfl⟩
    · rw [hends, List.getLast?_concat]
      rfl
    · refine List.all_eq_true.mpr fun c hc => ?_
      have hfixed := List.all_eq_true.mp
        (show ("Host(".toList ++ [backquote, ')']).all Yaml.isPrintable = true by decide)
      rcases List.mem_append.mp hc with hc | hc
      · exact hfixed c (List.mem_append_left _ hc)
      rcases List.mem_cons.mp hc with rfl | hc
      · decide
      rcases List.mem_append.mp hc with hc | hc
      · exact (hchars c hc).1
      · exact hfixed c (List.mem_append_right _ hc)
    · have hquote : ∀ c, Yaml.Joined backquote c ∧ Yaml.Joined c backquote := by
        intro c
        refine ⟨⟨fun h => absurd h.1 (by decide), fun h => absurd h.1 (by decide)⟩,
          fun h => absurd h.2 (by decide), fun h => absurd h.2 (by decide)⟩
      unfold hostRule
      refine List.isChain_append.mpr ⟨by decide, List.isChain_cons.mpr ⟨fun c _ => (hquote c).1,
        List.isChain_append.mpr ⟨hjoined, by decide, fun c _ d hd => ?_⟩⟩, fun c hc d hd => ?_⟩
      · cases hd
        exact (hquote c).2
      · cases hd
        exact (hquote c).2

/-- The entries of a configuration with these identifiers, rule and URL. -/
def traefikEntries (id serviceId rule url : List Char) : List Yaml.Entry :=
  [⟨[key "http"], none⟩, ⟨[key "http", key "routers"], none⟩,
    ⟨[key "http", key "routers", .name id], none⟩,
    ⟨[key "http", key "routers", .name id, key "rule"], some rule⟩,
    ⟨[key "http", key "routers", .name id, key "service"], some serviceId⟩,
    ⟨[key "http", key "services"], none⟩, ⟨[key "http", key "services", .name serviceId], none⟩,
    ⟨[key "http", key "services", .name serviceId, key "loadBalancer"], none⟩,
    ⟨[key "http", key "services", .name serviceId, key "loadBalancer", key "servers"], none⟩,
    ⟨[key "http", key "services", .name serviceId, key "loadBalancer", key "servers", .item 0],
      none⟩,
    ⟨[key "http", key "services", .name serviceId, key "loadBalancer", key "servers", .item 0,
      key "url"], some url⟩]

def spaces (n : Nat) : List Char := List.replicate n ' '

/-- Its lines. -/
def traefikLines (id serviceId rule url : List Char) : List (List Char) :=
  [spaces 0 ++ Yaml.printed "http".toList none, spaces 2 ++ Yaml.printed "routers".toList none,
    spaces 4 ++ Yaml.printed id none, spaces 6 ++ Yaml.printed "rule".toList (some rule),
    spaces 6 ++ Yaml.printed "service".toList (some serviceId),
    spaces 2 ++ Yaml.printed "services".toList none, spaces 4 ++ Yaml.printed serviceId none,
    spaces 6 ++ Yaml.printed "loadBalancer".toList none,
    spaces 8 ++ Yaml.printed "servers".toList none,
    spaces 10 ++ '-' :: ' ' :: Yaml.printed "url".toList (some url)]

section traefik

variable {x : Ext} {domain : Domain} {upstream : String} {id serviceId rule url : List Char}

theorem fold_traefik (hid : Yaml.IsPlain id) (hid' : ':' ∉ id) (hservice : Yaml.IsPlain serviceId)
    (hservice' : ':' ∉ serviceId) (hrule : Yaml.IsPlain rule) (hurl : Yaml.IsPlain url) :
    ((traefikLines id serviceId rule url ++ [[]]).foldlM Yaml.State.line Yaml.State.empty).map
      Yaml.State.entries = some (traefikEntries id serviceId rule url) := by
  have hkey : ∀ (n : Nat) (k : List Char) (value : Option (List Char)) (s : Yaml.State),
      Yaml.IsPlain k → ':' ∉ k → (∀ v, value = some v → Yaml.IsPlain v) →
      s.line (spaces n ++ Yaml.printed k value) = s.place n (some k) value :=
    fun n k value s hk hk' hv => Yaml.line_of_key hk hk' hv s
  have hnone : ∀ v, (none : Option (List Char)) = some v → Yaml.IsPlain v := by nofun
  have hsome : ∀ {w : List Char}, Yaml.IsPlain w → ∀ v, some w = some v → Yaml.IsPlain v := by
    intro w hw v hv
    cases hv
    exact hw
  have hitem : ∀ s : Yaml.State,
      s.line (spaces 10 ++ '-' :: ' ' :: Yaml.printed "url".toList (some url)) =
      (s.place 10 none none).bind fun s => s.place 12 (some "url".toList) (some url) :=
    fun s => Yaml.line_of_item (by decide) (by decide) (hsome hurl) s
  simp only [traefikLines, List.cons_append, List.nil_append, List.foldlM_cons, List.foldlM_nil,
    hkey 0 "http".toList none _ (by decide) (by decide) hnone,
    hkey 2 "routers".toList none _ (by decide) (by decide) hnone,
    hkey 4 id none _ hid hid' hnone,
    hkey 6 "rule".toList (some rule) _ (by decide) (by decide) (hsome hrule),
    hkey 6 "service".toList (some serviceId) _ (by decide) (by decide) (hsome hservice),
    hkey 2 "services".toList none _ (by decide) (by decide) hnone,
    hkey 4 serviceId none _ hservice hservice' hnone,
    hkey 6 "loadBalancer".toList none _ (by decide) (by decide) hnone,
    hkey 8 "servers".toList none _ (by decide) (by decide) hnone, hitem, Yaml.line_nil]
  simp only [Yaml.State.place, Yaml.State.empty, Yaml.State.add, Yaml.firstKey, Yaml.Key.next,
    traefikEntries, key, List.dropWhile_nil, List.isEmpty_nil, ↓reduceIte, List.map_nil,
    List.reverse_cons, List.reverse_nil, List.nil_append, List.contains_eq_mem, List.not_mem_nil,
    decide_false, Bool.false_eq_true, Option.isSome_none, List.map_cons, List.cons_append,
    Option.isSome_some, reduceCtorEq, Option.pure_def, Option.bind_eq_bind, Option.bind_some,
    Nat.not_lt_zero, List.dropWhile_cons, decide_eq_true_eq, String.reduceToList,
    List.length_cons, List.length_nil, List.mem_cons, or_false, List.cons.injEq, and_false,
    Nat.reduceLT, Nat.reduceEqDiff, Nat.reduceAdd, OfNat.zero_ne_ofNat, and_self, or_self,
    Nat.lt_irrefl, and_true, true_and, false_or, Yaml.Key.name.injEq, Char.reduceEq, decide_true,
    false_and, Option.map_some, List.append_assoc]

theorem traefikLines_one_line (hid : Yaml.IsPlain id) (hservice : Yaml.IsPlain serviceId)
    (hrule : Yaml.IsPlain rule) (hurl : Yaml.IsPlain url) :
    ∀ l ∈ traefikLines id serviceId rule url, ∀ c ∈ l, Yaml.isBreak c = false := by
  have hline : ∀ {n k value}, Yaml.IsPlain k → (∀ v, value = some v → Yaml.IsPlain v) →
      ∀ c ∈ spaces n ++ Yaml.printed k value, Yaml.isBreak c = false := by
    intro n k value hk hv c hc
    rcases List.mem_append.mp hc with hc | hc
    · rw [List.eq_of_mem_replicate hc]
      rfl
    · exact Yaml.printed_one_line hk hv c hc
  have hnone : ∀ v, (none : Option (List Char)) = some v → Yaml.IsPlain v := by nofun
  have hsome : ∀ {w : List Char}, Yaml.IsPlain w → ∀ v, some w = some v → Yaml.IsPlain v := by
    intro w hw v hv
    cases hv
    exact hw
  unfold traefikLines
  simp only [List.forall_mem_cons]
  refine ⟨hline (by decide) hnone, hline (by decide) hnone, hline hid hnone,
    hline (by decide) (hsome hrule), hline (by decide) (hsome hservice), hline (by decide) hnone,
    hline hservice hnone, hline (by decide) hnone, hline (by decide) hnone, ?_, nofun⟩
  intro c hc
  rcases List.mem_append.mp hc with hc | hc
  · rw [List.eq_of_mem_replicate hc]
    rfl
  rcases List.mem_cons.mp hc with rfl | hc
  · rfl
  rcases List.mem_cons.mp hc with rfl | hc
  · rfl
  · exact Yaml.printed_one_line (by decide) (hsome hurl) c hc

/-- The identifiers of a domain as keys. -/
theorem isPlain_uuid (hx : x.PrintsHex) (u : Uuid) :
    Yaml.IsPlain (x.uuidToString u).toList ∧ ':' ∉ (x.uuidToString u).toList := by
  obtain ⟨hfirst, hchars⟩ := hx u
  have hcolon : ':' ∉ (x.uuidToString u).toList := by
    intro hm
    rcases hchars ':' hm with h | h
    · exact absurd h (by decide)
    · exact absurd h (by decide)
  refine ⟨isPlain_url (fun c hc => ?_) hfirst ?_, hcolon⟩
  · unfold isUrlChar
    rcases hchars c hc with h | rfl
    · rw [h, Bool.true_or]
    · decide
  · cases hlast : (x.uuidToString u).toList.getLast? with
    | none =>
      rw [List.getLast?_eq_none_iff.mp hlast] at hfirst
      cases hfirst
    | some c => exact bne_iff_ne.mpr fun he => hcolon (he ▸ List.mem_of_getLast? hlast)

theorem isPlain_upstream (hup : IsHostPort upstream) :
    Yaml.IsPlain ("http://".toList ++ upstream.toList) := by
  refine isPlain_url (fun c hc => ?_) rfl ?_
  · rcases List.mem_append.mp hc with hc | hc
    · have hall : "http://".toList.all isUrlChar = true := by decide
      exact List.all_eq_true.mp hall c hc
    · exact hup.chars c hc
  · obtain ⟨host, port, rfl, -, hne, hport⟩ := hup
    obtain ⟨init, last, hlast⟩ := (List.eq_nil_or_concat port.toList).resolve_left hne
    have hdigit : Rust.isAsciiDigit last = true := by
      refine List.all_eq_true.mp hport last ?_
      rw [hlast, List.concat_eq_append]
      exact List.mem_append_right _ (List.mem_singleton_self _)
    rw [String.toList_append, hlast, List.concat_eq_append, ← List.append_assoc,
      ← List.append_assoc, List.getLast?_concat]
    refine bne_iff_ne.mpr fun he => ?_
    rw [he] at hdigit
    exact absurd hdigit (by decide)

theorem toList_traefik (hproxy : domain.proxy = .traefik) :
    (generateConfig x domain upstream).toList =
      (traefikLines (x.uuidToString domain.id).toList (x.uuidToString domain.serviceId).toList
        (hostRule domain.hostname.toList) ("http://".toList ++ upstream.toList)).flatMap
          (· ++ ['\n']) := by
  unfold generateConfig
  rw [hproxy]
  dsimp only
  simp only [String.toList_append, List.append_assoc]
  simp [traefikLines, Yaml.printed, spaces, hostRule, backquote]

theorem parse_traefik (hx : x.PrintsHex) (hproxy : domain.proxy = .traefik)
    (hhost : Routable domain.hostname.toList) (hup : IsHostPort upstream) :
    Yaml.parse (generateConfig x domain upstream).toList =
      some (traefikEntries (x.uuidToString domain.id).toList
        (x.uuidToString domain.serviceId).toList (hostRule domain.hostname.toList)
        ("http://".toList ++ upstream.toList)) := by
  obtain ⟨hid, hid'⟩ := isPlain_uuid hx domain.id
  obtain ⟨hservice, hservice'⟩ := isPlain_uuid hx domain.serviceId
  have hrule := (isPlain_hostRule.mpr hhost).1
  have hurl := isPlain_upstream hup
  unfold Yaml.parse
  rw [toList_traefik hproxy, Yaml.lines_flatMap (traefikLines_one_line hid hservice hrule hurl),
    fold_traefik hid hid' hservice hservice' hrule hurl]

theorem keysUnder_traefik :
    Yaml.keysUnder [] (traefikEntries id serviceId rule url) = [key "http"] ∧
    Yaml.keysUnder [key "http"] (traefikEntries id serviceId rule url) =
      [key "routers", key "services"] ∧
    Yaml.keysUnder [key "http", key "routers"] (traefikEntries id serviceId rule url) =
      [.name id] ∧
    Yaml.keysUnder [key "http", key "routers", .name id] (traefikEntries id serviceId rule url) =
      [key "rule", key "service"] ∧
    Yaml.keysUnder [key "http", key "services"] (traefikEntries id serviceId rule url) =
      [.name serviceId] := by
  refine ⟨rfl, rfl, rfl, ?_, rfl⟩
  -- the entries of the router are those below its own identifier, whatever that is
  have hrule : ∀ (name : String) value es, Yaml.keysUnder [key "http", key "routers", .name id]
      (⟨[key "http", key "routers", .name id, key name], value⟩ :: es) =
        key name :: Yaml.keysUnder [key "http", key "routers", .name id] es :=
    fun _ _ es => Yaml.keysUnder_cons es rfl rfl
  unfold traefikEntries
  show Yaml.keysUnder _ (⟨[key "http", key "routers", .name id, key "rule"], some rule⟩ ::
    ⟨[key "http", key "routers", .name id, key "service"], some serviceId⟩ :: _) = _
  rw [hrule, hrule]
  rfl

theorem valueAt_rule : Yaml.valueAt [key "http", key "routers", .name id, key "rule"]
    (traefikEntries id serviceId rule url) = some rule := by
  unfold Yaml.valueAt traefikEntries
  rw [List.find?_cons_of_neg (by simp), List.find?_cons_of_neg (by simp),
    List.find?_cons_of_neg (by simp), List.find?_cons_of_pos (by simp)]
  rfl

/-- **When a hostname is all that is routed** by a Traefik configuration. -/
theorem routesOnly_iff (hx : x.PrintsHex) (hproxy : domain.proxy = .traefik)
    (hup : IsHostPort upstream) :
    RoutesOnly domain.hostname (generateConfig x domain upstream) ↔
      Routable domain.hostname.toList := by
  constructor
  · rintro ⟨es, router, service, rule, hparse, -, -, -, -, hvalue, hrule, -⟩
    obtain ⟨rfl, hquote⟩ := hostOf_eq_some.mp hrule
    exact isPlain_hostRule.mp ⟨Yaml.parse_plain hparse hvalue, hquote⟩
  · intro hhost
    have hquote := (isPlain_hostRule.mpr hhost).2
    obtain ⟨htop, hhttp, hrouters, hrouter, hservices⟩ := keysUnder_traefik
    exact ⟨_, _, _, _, parse_traefik hx hproxy hhost hup, htop, hhttp, hrouters, hrouter,
      valueAt_rule, hostOf_eq_some.mpr ⟨rfl, hquote⟩, hservices⟩

end traefik

/-! ## Domains that are created -/

section created

variable {x : Ext} {config : Config} {user : User} {i : Nat} {s : World}

/-- The configuration has this hostname and nothing else in its place. -/
def ParsesBack (proxy : ProxyKind) (hostname text : String) : Prop :=
  match proxy with
  | .nginx => ServesOnly hostname text
  | .traefik => RoutesOnly hostname text

/-- For Nginx no separator; for Traefik nothing that ends the scalar or the rule. -/
def Harmless (proxy : ProxyKind) (hostname : String) : Prop :=
  match proxy with
  | .nginx => Nginx.Plain hostname.toList
  | .traefik => Routable hostname.toList

theorem parsesBack_iff (hx : x.PrintsHex) {domain : Domain} {upstream : String}
    (hne : domain.hostname.toList ≠ []) (hup : IsHostPort upstream) :
    ParsesBack domain.proxy domain.hostname (generateConfig x domain upstream) ↔
      Harmless domain.proxy domain.hostname := by
  cases hproxy : domain.proxy with
  | nginx => exact servesOnly_iff hproxy hne hup
  | traefik => exact routesOnly_iff hx hproxy hup

theorem yields_createDomain (input : CreateDomainInput) :
    Yields i (createDomain input) (fun _ r _ => ∀ domain, r = .ok domain →
      domain.hostname = input.hostname ∧ domain.proxy = input.proxy.getD .nginx) s := by
  unfold createDomain AppServiceService.getService
  simp only [bind_assoc]
  refine yields_first (fun _ => nofun) (yields_okOr (fun _ => nofun) fun service _ => ?_)
  refine yields_nowV7 fun u _ => yields_create (fun _ => nofun) (fun _ => nofun) fun db _ => ?_
  refine yields_pure fun domain hdomain => ?_
  cases hdomain
  exact ⟨rfl, ProxyKind.from_asStr _⟩

theorem yields_createDomainRoute {serviceId : Uuid} {payload : CreateDomainRequest} :
    Yields i ((UserRoute.createDomain serviceId payload).handle x config user)
      (fun _ r _ => ∀ domain, r = .ok (.domain domain) → payload.valid = true ∧
        domain.hostname = payload.hostname ∧ domain.proxy = payload.proxy.getD .nginx) s := by
  simp only [UserRoute.handle, validated, ensureServiceAccess, ensureWorkspaceAccess,
    AppServiceService.getService, bind_assoc]
  split
  · next hvalid =>
    refine yields_first (fun _ _ => nofun) (yields_okOr (fun _ _ => nofun) fun service _ => ?_)
    split
    · refine yields_bind (yields_pure (yields_bind (yields_pure (yields_bind ?_))))
      refine Yields.mono (yields_createDomain _) fun xs r s₁ hr => ?_
      cases r with
      | error e => exact fun _ => nofun
      | ok created =>
        refine yields_pure fun domain hdomain => ⟨hvalid, ?_⟩
        exact hr domain (congrArg Except.ok (ApiReply.domain.inj (Except.ok.inj hdomain)))
    · exact yields_bind (yields_throwApi fun _ => nofun)
  · exact yields_pure fun _ => nofun

/-- **When a created domain's configuration parses back** to its hostname. -/
theorem createDomain_config_iff (hx : x.PrintsHex) {serviceId : Uuid}
    {payload : CreateDomainRequest} {xs : List Ans} {domain : Domain} {s' : World}
    (h : Prog.run exec i ((UserRoute.createDomain serviceId payload).handle x config user) xs s =
      some (.ok (.domain domain), s')) {upstream : String} (hup : IsHostPort upstream) :
    ParsesBack domain.proxy payload.hostname (generateConfig x domain upstream) ↔
      Harmless (payload.proxy.getD .nginx) payload.hostname := by
  obtain ⟨hvalid, hhost, hproxy⟩ := yields_createDomainRoute xs _ s' h domain rfl
  have hne : domain.hostname.toList ≠ [] := by
    intro hnil
    unfold CreateDomainRequest.valid lengthIn at hvalid
    rw [← hhost, hnil] at hvalid
    cases hvalid
  rw [← hhost, ← hproxy]
  exact parsesBack_iff hx hne hup

end created

namespace Symbolic

theorem alphanumeric_hex (n v : Nat) : ∀ c ∈ hex n v, Rust.isAsciiAlphanumeric c = true := by
  induction n generalizing v with
  | zero => simp [hex]
  | succ n ih =>
    have hdigit : ∀ d < 16, Rust.isAsciiAlphanumeric (Nat.digitChar d) = true := by decide
    intro c hc
    rcases List.mem_append.mp hc with hc | hc
    · exact ih _ c hc
    · rw [List.mem_singleton.mp hc]
      exact hdigit _ (Nat.mod_lt _ (by decide))

theorem mem_hyphenate {ns : List Nat} {cs : List Char} {c : Char} (h : c ∈ hyphenate ns cs) :
    c ∈ cs ∨ c = '-' := by
  induction ns generalizing cs with
  | nil => exact .inl h
  | cons n ns ih =>
    rcases List.mem_append.mp h with h | h
    · exact .inl (List.mem_of_mem_take h)
    rcases List.mem_cons.mp h with h | h
    · exact .inr h
    · exact (ih h).imp_left List.mem_of_mem_drop

theorem ext_printsHex : ext.PrintsHex := by
  intro u
  have hall := alphanumeric_hex 32 u.toNat
  show (hyphenated u).toList.head?.any _ = true ∧ ∀ c ∈ (hyphenated u).toList, _
  unfold hyphenated
  rw [String.toList_ofList]
  refine ⟨?_, fun c hc => (mem_hyphenate hc).imp_left (hall c)⟩
  cases hcs : hex 32 u.toNat with
  | nil => cases (length_hex 32 u.toNat).symm.trans (congrArg List.length hcs)
  | cons c cs =>
    rw [hcs] at hall
    exact hall c List.mem_cons_self

/-- A service in a workspace. -/
def running : World := .start {
  rows := fun
    | .workspaces => [⟨9, "Shop", none⟩]
    | .environments => [⟨2, 9, "production"⟩]
    | .appServices => [⟨3, 9, 2, "web", "docker_image", some "nginx:latest", none, none, none⟩]
    | _ => []
  unique := fun t => by cases t <;> decide }

def platformAdmin : User := ⟨1, "admin@wara.local", "Wara Admin", .superAdmin, .active, []⟩

def evilHost : String := "shop.test; return 302 https://evil.test"

theorem create_domain : ∀ p ∈ [(evilHost, none), ("shop.test", some ProxyKind.traefik)],
    (Prog.run exec 0 ((UserRoute.createDomain 3 ⟨p.1, p.2, none⟩).handle ext (config "A")
      platformAdmin) [.done, .done, .uuid 4, .done] running).map Prod.fst =
        some (.ok (.domain ⟨4, 3, p.1, p.2.getD .nginx, true⟩)) := by decide +kernel

theorem createDomain_injects : ¬ ∀ (x : Ext) (config : Config) (user : User) (serviceId : Uuid)
    (payload : CreateDomainRequest) (domain : Domain) (i : Nat) (xs : List Ans) (s s' : World)
    (upstream : String), payload.valid = true →
    Prog.run exec i ((UserRoute.createDomain serviceId payload).handle x config user) xs s =
      some (.ok (.domain domain), s') → IsHostPort upstream →
    ParsesBack domain.proxy payload.hostname (generateConfig x domain upstream) := by
  intro hclaim
  obtain ⟨⟨r, s'⟩, hrun, hr⟩ := Option.map_eq_some_iff.mp
    (create_domain (evilHost, none) (by decide))
  rw [show r = .ok (.domain ⟨4, 3, evilHost, .nginx, true⟩) from hr] at hrun
  have hlocal : IsHostPort "127.0.0.1:8080" :=
    ⟨"127.0.0.1", "8080", by decide, by decide, by decide, by decide⟩
  have hparses := hclaim ext (config "A") platformAdmin 3 ⟨evilHost, none, none⟩ _ 0 _ running s'
    "127.0.0.1:8080" (by decide) hrun hlocal
  have hplain := (parsesBack_iff ext_printsHex (by decide) hlocal).mp hparses
  exact absurd (hplain ';' (by decide)) (by decide)

theorem createDomain_config_shop : ∃ domain s', Prog.run exec 0
    ((UserRoute.createDomain 3 ⟨"shop.test", some .traefik, none⟩).handle ext (config "A")
      platformAdmin) [.done, .done, .uuid 4, .done] running = some (.ok (.domain domain), s') ∧
    ParsesBack domain.proxy "shop.test" (generateConfig ext domain "127.0.0.1:8080") := by
  obtain ⟨⟨r, s'⟩, hrun, hr⟩ := Option.map_eq_some_iff.mp
    (create_domain ("shop.test", some .traefik) (by decide))
  rw [show r = .ok (.domain ⟨4, 3, "shop.test", .traefik, true⟩) from hr] at hrun
  have hlocal : IsHostPort "127.0.0.1:8080" :=
    ⟨"127.0.0.1", "8080", by decide, by decide, by decide, by decide⟩
  have hroutable : Routable "shop.test".toList := by
    have hall : "shop.test".toList.all (fun c => Yaml.isPrintable c && c != backquote) = true := by
      decide
    refine ⟨fun c hc => ?_, by decide⟩
    have hboth := List.all_eq_true.mp hall c hc
    rw [Bool.and_eq_true, bne_iff_ne] at hboth
    exact hboth
  exact ⟨_, s', hrun, (createDomain_config_iff ext_printsHex hrun hlocal).mpr hroutable⟩

end Symbolic

end Wara
