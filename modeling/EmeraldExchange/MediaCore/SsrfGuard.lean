import EmeraldExchange.Lib.AddressBlock
import Mathlib.Data.List.Basic

/-!
# Fetches of urls from outside

The range tables of `crates/media-core/src/ssrf_guard.rs`, its guard, and the three fetches that
follow redirects by hand and put every hop to the guard.

Urls, the texts of addresses, names and answers are parameters (`Outside`,
`Internet`): the network may answer each hop differently, but within a hop the
guard and the connection resolve a name to the same addresses. What a fetch does with the body of
the last answer makes no connection, and is left out.

The table of the addresses of version 6 has two gaps (`Gap`): multicast, and
the addresses of 6to4 that embed one of version 4. A fetch connects to nothing that is not public
exactly if no hop that passes the guard has an address in one of the gaps
(`staysPublic_iff`).
-/

namespace EmeraldExchange.Ssrf

/-! ### Addresses -/

structure Ipv4Addr where
  a : Fin 256
  b : Fin 256
  c : Fin 256
  d : Fin 256
  deriving DecidableEq

/-- An address of version 6, by its segments. -/
structure Ipv6Addr where
  s₀ : Fin 65536
  s₁ : Fin 65536
  s₂ : Fin 65536
  s₃ : Fin 65536
  s₄ : Fin 65536
  s₅ : Fin 65536
  s₆ : Fin 65536
  s₇ : Fin 65536
  deriving DecidableEq

inductive IpAddr
  | v4 (ip : Ipv4Addr)
  | v6 (ip : Ipv6Addr)
  deriving DecidableEq

def Ipv4Addr.value (ip : Ipv4Addr) : ℕ := ((ip.a * 256 + ip.b) * 256 + ip.c) * 256 + ip.d

def Ipv6Addr.value (ip : Ipv6Addr) : ℕ :=
  ((((((ip.s₀ * 65536 + ip.s₁) * 65536 + ip.s₂) * 65536 + ip.s₃) * 65536 + ip.s₄) * 65536 + ip.s₅) *
    65536 + ip.s₆) * 65536 + ip.s₇

def ofSegments (hi lo : Fin 65536) : Ipv4Addr where
  a := ⟨hi / 256, by omega⟩
  b := ⟨hi % 256, by omega⟩
  c := ⟨lo / 256, by omega⟩
  d := ⟨lo % 256, by omega⟩

/-- `is_private_v4` -/
def isPrivateV4 (ip : Ipv4Addr) : Bool :=
  let a := ip.a.val
  let b := ip.b.val
  let c := ip.c.val
  a = 10 || a = 127 || a = 0 || (a = 169 && b = 254) || (a = 172 && 16 ≤ b && b ≤ 31) ||
    (a = 192 && b = 168) || (a = 192 && b = 0 && c = 0) || (a = 192 && b = 88 && c = 99) ||
    (a = 198 && (b = 18 || b = 19)) || (a = 100 && 64 ≤ b && b ≤ 127) || (224 ≤ a && a ≤ 255)

/-- `Ipv6Addr::to_ipv4`: of an address that is mapped or compatible. -/
def toIpv4 (ip : Ipv6Addr) : Option Ipv4Addr :=
  if ip.s₀ = 0 ∧ ip.s₁ = 0 ∧ ip.s₂ = 0 ∧ ip.s₃ = 0 ∧ ip.s₄ = 0 ∧ (ip.s₅ = 0 ∨ ip.s₅ = 0xffff) then
    some (ofSegments ip.s₆ ip.s₇)
  else none

/-- `is_private_v6` -/
def isPrivateV6 (ip : Ipv6Addr) : Bool :=
  if ip.value = 1 || ip.value = 0 then true
  else match toIpv4 ip with
    | some v4 => isPrivateV4 v4
    | none => ip.s₀.val &&& 0xfe00 = 0xfc00 || ip.s₀.val &&& 0xffc0 = 0xfe80 ||
        ip.s₀.val &&& 0xffc0 = 0xfec0 || (ip.s₀ = 0x0064 && ip.s₁ = 0xff9b)

/-- `is_private_ip` -/
def isPrivateIp : IpAddr → Bool
  | .v4 ip => isPrivateV4 ip
  | .v6 ip => isPrivateV6 ip

/-! ### What is not public -/

/-- The blocks of version 4 that are private, loopback, link-local, shared by carriers, multicast or
reserved. -/
def blocks4 : List AddressBlock :=
  [⟨0x0a000000, 8⟩, ⟨0x7f000000, 8⟩, ⟨0x00000000, 8⟩, ⟨0xa9fe0000, 16⟩, ⟨0xac100000, 12⟩,
    ⟨0xc0a80000, 16⟩, ⟨0xc0000000, 24⟩, ⟨0xc0586300, 24⟩, ⟨0xc6120000, 15⟩, ⟨0x64400000, 10⟩,
    ⟨0xe0000000, 4⟩, ⟨0xf0000000, 4⟩]

def Forbidden4 (ip : Ipv4Addr) : Prop := ∃ block ∈ blocks4, block.Mem 32 ip.value

/-- The blocks of version 6 that are loopback, unspecified, unique-local, link-local, site-local or
multicast. -/
def blocks6 : List AddressBlock :=
  [⟨1, 128⟩, ⟨0, 128⟩, ⟨0xfc00 * 2 ^ 112, 7⟩, ⟨0xfe80 * 2 ^ 112, 10⟩, ⟨0xfec0 * 2 ^ 112, 10⟩,
    ⟨0xff00 * 2 ^ 112, 8⟩]

/-- The blocks of version 6 whose addresses end with one of version 4: mapped, compatible and
NAT64. -/
def embeddings : List AddressBlock :=
  [⟨0xffff * 2 ^ 32, 96⟩, ⟨0, 96⟩, ⟨0x0064ff9b * 2 ^ 96, 96⟩]

/-- **The address embeds one of version 4.** An address of 6to4 has it after the first segment. -/
def Embeds (ip : Ipv6Addr) (v4 : Ipv4Addr) : Prop :=
  (∃ block ∈ embeddings, block.Mem 128 ip.value ∧ ip.value % 2 ^ 32 = v4.value) ∨
    AddressBlock.Mem 128 ⟨0x2002 * 2 ^ 112, 16⟩ ip.value ∧ ip.value / 2 ^ 80 % 2 ^ 32 = v4.value

/-- **The address is not public.** -/
def Forbidden : IpAddr → Prop
  | .v4 ip => Forbidden4 ip
  | .v6 ip => (∃ block ∈ blocks6, block.Mem 128 ip.value) ∨ ∃ v4, Embeds ip v4 ∧ Forbidden4 v4

/-- **What the table leaves out**: multicast, and 6to4 of an address that is not public. -/
def Gap : IpAddr → Prop
  | .v4 _ => False
  | .v6 ip => AddressBlock.Mem 128 ⟨0xff00 * 2 ^ 112, 8⟩ ip.value ∨
      AddressBlock.Mem 128 ⟨0x2002 * 2 ^ 112, 16⟩ ip.value ∧
        ∃ v4, ip.value / 2 ^ 80 % 2 ^ 32 = v4.value ∧ Forbidden4 v4

/-! ### The guard -/

/-- **What is not of the repository**: urls, and the texts of addresses. -/
structure Outside (U : Type*) where
  /-- `Url::parse` -/
  parse : String → Option U
  /-- `Url::join` -/
  join : U → String → Option U
  scheme : U → String
  hostStr : U → Option String
  portOrKnownDefault : U → Option ℕ
  /-- `str::parse::<IpAddr>` -/
  parseIp : String → Option IpAddr
  /-- `IpAddr::to_string` -/
  showIp : IpAddr → String
  trim : String → String

/-- An answer: its status, and the location it names if that is a text. -/
structure Response where
  status : ℕ
  location : Option String

/-- **The network**, hop by hop: what a name resolves to, and what a url answers. -/
structure Internet (U : Type*) where
  lookupHost : ℕ → String → ℕ → Except String (List IpAddr)
  send : ℕ → U → Except String Response

/-- `MAX_REDIRECTS` -/
def maxRedirects : ℕ := 5

/-- `StatusCode::is_redirection` -/
def Response.isRedirection (res : Response) : Bool := 300 ≤ res.status && res.status < 400

/-- `is_internal_hostname` -/
def isInternalHostname (host : String) : Bool :=
  let h := (host.toList.reverse.dropWhile (· = '.')).reverse.map Char.toLower
  h = [] || h = "localhost".toList || !h.contains '.' || ".local".toList.isSuffixOf h ||
    ".internal".toList.isSuffixOf h

/-- The host without the brackets of an address. -/
def bare (host : String) : String :=
  match host.toList with
  | '[' :: rest => if rest.getLast? = some ']' then String.ofList rest.dropLast else host
  | _ => host

section fetch

variable {U : Type*} (o : Outside U) (net : Internet U)

/-- **`guard_url`** -/
def guardUrl (hop : ℕ) (url : U) : Except String Unit :=
  if ¬ (o.scheme url = "http" ∨ o.scheme url = "https") then .error "feed_url must be http(s)"
  else match o.hostStr url with
    | none => .error "blocked url with no host"
    | some host =>
      match o.parseIp (bare host) with
      | some ip =>
        if isPrivateIp ip then .error ("blocked private/reserved address: " ++ bare host)
        else .ok ()
      | none =>
        if isInternalHostname (bare host) then
          .error ("blocked internal hostname: " ++ bare host)
        else match net.lookupHost hop (bare host) ((o.portOrKnownDefault url).getD 80) with
          | .error e => .error ("dns resolution failed for " ++ bare host ++ ": " ++ e)
          | .ok [] => .error ("dns resolution returned no records for " ++ bare host)
          | .ok (addr :: addrs) =>
            match (addr :: addrs).find? isPrivateIp with
            | some ip => .error ("host " ++ bare host ++
                " resolves to private/reserved address " ++ o.showIp ip)
            | none => .ok ()

/-- **The addresses that a request may connect to**: that of the host, or those of its name. -/
def addresses (hop : ℕ) (url : U) : List IpAddr :=
  match o.hostStr url with
  | none => []
  | some host =>
    match o.parseIp (bare host) with
    | some ip => [ip]
    | none =>
      match net.lookupHost hop (bare host) ((o.portOrKnownDefault url).getD 80) with
      | .ok addrs => addrs
      | .error _ => []

/-! ### The fetches -/

/-- **A fetch that follows redirects by hand**: which hops it puts to the guard, and what it makes
of what goes wrong. -/
structure Fetch (ε : Type*) where
  guarded : ℕ → Bool
  blocked : String → ε
  failed : String → ε
  /-- A redirect without a location; the answer is taken as it is where this is nothing. -/
  noLocation : Option ε
  badTarget : String → ε
  tooMany : ε

/-- A request: its hop, its url, and the addresses it may connect to. -/
structure Request (U : Type*) where
  hop : ℕ
  url : U
  addresses : List IpAddr

variable {ε : Type*} (f : Fetch ε)

/-- **The loop**: the requests that are made, and how it ends. -/
def Fetch.run : ℕ → ℕ → U → List (Request U) × Except ε Response
  | 0, _, _ => ([], .error f.tooMany)
  | n + 1, hop, url =>
    match if f.guarded hop then guardUrl o net hop url else .ok () with
    | .error e => ([], .error (f.blocked e))
    | .ok () =>
      let request := ⟨hop, url, addresses o net hop url⟩
      match net.send hop url with
      | .error e => ([request], .error (f.failed e))
      | .ok res =>
        if res.isRedirection then
          match res.location with
          | some location =>
            match o.join url location with
            | some next => (request :: (run n (hop + 1) next).1, (run n (hop + 1) next).2)
            | none => ([request], .error (f.badTarget location))
          | none =>
            match f.noLocation with
            | some e => ([request], .error e)
            | none => ([request], .ok res)
        else ([request], .ok res)

inductive FetchError
  | blocked (why : String)
  | failed (why : String)
  | badRedirect
  | tooManyRedirects

/-- The fetch of the panel: its first hop is trusted unless that is to be guarded too. -/
def panelFetch (guardFirst : Bool) : Fetch FetchError where
  guarded hop := 0 < hop || guardFirst
  blocked := .blocked
  failed := .failed
  noLocation := none
  badTarget _ := .badRedirect
  tooMany := .tooManyRedirects

/-- **`fetch_guarded`** -/
def fetchGuarded (url : U) (guardFirst : Bool) : List (Request U) × Except FetchError Response :=
  (panelFetch guardFirst).run o net (maxRedirects + 1) 0 url

def feedFetch : Fetch String where
  guarded _ := true
  blocked := id
  failed e := "feed fetch failed: " ++ e
  noLocation := some "feed fetch failed: redirect without location"
  badTarget location := "feed fetch failed: bad redirect target: " ++ location
  tooMany := "feed fetch failed: too many redirects (>5)"

/-- **`fetch_feed_inner`** -/
def fetchFeed (url : String) : List (Request U) × Except String Response :=
  match o.parse (o.trim url) with
  | none => ([], .error "feed_url must be http(s)")
  | some url => feedFetch.run o net (maxRedirects + 1) 0 url

/-- The errors are of the kind `AppError::Internal`. -/
def subtitleFetch : Fetch String where
  guarded _ := true
  blocked := id
  failed e := "subtitle fetch failed: " ++ e
  noLocation := some "subtitle fetch failed: redirect without location"
  badTarget location := "subtitle fetch failed: bad redirect target: " ++ location
  tooMany := "subtitle fetch failed: too many redirects (>5)"

/-- **`fetch_subtitle_link`** -/
def fetchSubtitleLink (link : String) : List (Request U) × Except String Response :=
  match o.parse link with
  | none => ([], .error "opensubtitles download returned an invalid link")
  | some url => subtitleFetch.run o net (maxRedirects + 1) 0 url

end fetch

/-! ### The tables -/

section table

variable {ip : Ipv4Addr}

theorem mem_block8 (x : ℕ) : AddressBlock.Mem 32 ⟨x * 2 ^ 24, 8⟩ ip.value ↔ ip.a.val = x := by
  have hvalue : ip.value = ((ip.a * 256 + ip.b) * 256 + ip.c) * 256 + ip.d := rfl
  show ip.value / 2 ^ 24 = x * 2 ^ 24 / 2 ^ 24 ↔ _
  omega

theorem mem_block16 {x y : ℕ} (hy : y < 256) :
    AddressBlock.Mem 32 ⟨(x * 256 + y) * 2 ^ 16, 16⟩ ip.value ↔ ip.a.val = x ∧ ip.b.val = y := by
  have hvalue : ip.value = ((ip.a * 256 + ip.b) * 256 + ip.c) * 256 + ip.d := rfl
  show ip.value / 2 ^ 16 = (x * 256 + y) * 2 ^ 16 / 2 ^ 16 ↔ _
  omega

theorem mem_block24 {x y z : ℕ} (hy : y < 256) (hz : z < 256) :
    AddressBlock.Mem 32 ⟨((x * 256 + y) * 256 + z) * 2 ^ 8, 24⟩ ip.value ↔
      (ip.a.val = x ∧ ip.b.val = y) ∧ ip.c.val = z := by
  have hvalue : ip.value = ((ip.a * 256 + ip.b) * 256 + ip.c) * 256 + ip.d := rfl
  show ip.value / 2 ^ 8 = ((x * 256 + y) * 256 + z) * 2 ^ 8 / 2 ^ 8 ↔ _
  omega

/-- **The table of version 4 has no gap.** -/
theorem forbidden4_iff (ip : Ipv4Addr) : Forbidden4 ip ↔ isPrivateV4 ip = true := by
  have hvalue : ip.value = ((ip.a * 256 + ip.b) * 256 + ip.c) * 256 + ip.d := rfl
  have ha := ip.a.isLt
  have h10 : AddressBlock.Mem 32 ⟨0x0a000000, 8⟩ ip.value ↔ ip.a.val = 10 := mem_block8 10
  have h127 : AddressBlock.Mem 32 ⟨0x7f000000, 8⟩ ip.value ↔ ip.a.val = 127 := mem_block8 127
  have h0 : AddressBlock.Mem 32 ⟨0x00000000, 8⟩ ip.value ↔ ip.a.val = 0 := mem_block8 0
  have h169 : AddressBlock.Mem 32 ⟨0xa9fe0000, 16⟩ ip.value ↔
      ip.a.val = 169 ∧ ip.b.val = 254 := mem_block16 (x := 169) (y := 254) (by decide)
  have h172 : AddressBlock.Mem 32 ⟨0xac100000, 12⟩ ip.value ↔
      (ip.a.val = 172 ∧ 16 ≤ ip.b.val) ∧ ip.b.val ≤ 31 := by
    show ip.value / 2 ^ 20 = 0xac100000 / 2 ^ 20 ↔ _
    omega
  have h192 : AddressBlock.Mem 32 ⟨0xc0a80000, 16⟩ ip.value ↔
      ip.a.val = 192 ∧ ip.b.val = 168 := mem_block16 (x := 192) (y := 168) (by decide)
  have hietf : AddressBlock.Mem 32 ⟨0xc0000000, 24⟩ ip.value ↔
      (ip.a.val = 192 ∧ ip.b.val = 0) ∧ ip.c.val = 0 :=
    mem_block24 (x := 192) (y := 0) (z := 0) (by decide) (by decide)
  have hrelay : AddressBlock.Mem 32 ⟨0xc0586300, 24⟩ ip.value ↔
      (ip.a.val = 192 ∧ ip.b.val = 88) ∧ ip.c.val = 99 :=
    mem_block24 (x := 192) (y := 88) (z := 99) (by decide) (by decide)
  have h198 : AddressBlock.Mem 32 ⟨0xc6120000, 15⟩ ip.value ↔
      ip.a.val = 198 ∧ (ip.b.val = 18 ∨ ip.b.val = 19) := by
    show ip.value / 2 ^ 17 = 0xc6120000 / 2 ^ 17 ↔ _
    omega
  have h100 : AddressBlock.Mem 32 ⟨0x64400000, 10⟩ ip.value ↔
      (ip.a.val = 100 ∧ 64 ≤ ip.b.val) ∧ ip.b.val ≤ 127 := by
    show ip.value / 2 ^ 22 = 0x64400000 / 2 ^ 22 ↔ _
    omega
  have h224 : AddressBlock.Mem 32 ⟨0xe0000000, 4⟩ ip.value ∨
      AddressBlock.Mem 32 ⟨0xf0000000, 4⟩ ip.value ↔ 224 ≤ ip.a.val ∧ ip.a.val ≤ 255 := by
    show ip.value / 2 ^ 28 = 0xe0000000 / 2 ^ 28 ∨ ip.value / 2 ^ 28 = 0xf0000000 / 2 ^ 28 ↔ _
    omega
  simp only [Forbidden4, blocks4, List.mem_cons, List.not_mem_nil, or_false, exists_eq_or_imp,
    exists_eq_left, h10, h127, h0, h169, h172, h192, hietf, hrelay, h198, h100, h224, isPrivateV4,
    Bool.or_eq_true, Bool.and_eq_true, decide_eq_true_eq, or_assoc]

theorem Ipv4Addr.value_injective : Function.Injective Ipv4Addr.value := by
  rintro ⟨a, b, c, d⟩ ⟨a', b', c', d'⟩ h
  simp only [Ipv4Addr.value] at h
  obtain ⟨rfl, rfl, rfl, rfl⟩ : a = a' ∧ b = b' ∧ c = c' ∧ d = d' := by
    refine ⟨Fin.ext ?_, Fin.ext ?_, Fin.ext ?_, Fin.ext ?_⟩ <;> omega
  rfl

theorem value_ofSegments (hi lo : Fin 65536) : (ofSegments hi lo).value = hi * 65536 + lo := by
  show ((hi.val / 256 * 256 + hi.val % 256) * 256 + lo.val / 256) * 256 + lo.val % 256 = _
  omega

theorem value_eq_iff {hi lo : Fin 65536} {v4 : Ipv4Addr} :
    hi.val * 65536 + lo.val = v4.value ↔ v4 = ofSegments hi lo := by
  rw [← value_ofSegments]
  exact ⟨fun h => (Ipv4Addr.value_injective h).symm, fun h => congrArg _ h.symm⟩

end table

section table6

variable {ip : Ipv6Addr}

theorem value_segments (ip : Ipv6Addr) :
    ip.value / 2 ^ 112 = ip.s₀ ∧ ip.value / 2 ^ 80 % 2 ^ 32 = ip.s₁ * 65536 + ip.s₂ ∧
      ip.value % 2 ^ 32 = ip.s₆ * 65536 + ip.s₇ ∧ ip.value / 2 ^ 32 =
        ((((ip.s₀ * 65536 + ip.s₁) * 65536 + ip.s₂) * 65536 + ip.s₃) * 65536 + ip.s₄) * 65536 +
          ip.s₅ := by
  have hvalue : ip.value = ((((((ip.s₀ * 65536 + ip.s₁) * 65536 + ip.s₂) * 65536 + ip.s₃) * 65536 +
    ip.s₄) * 65536 + ip.s₅) * 65536 + ip.s₆) * 65536 + ip.s₇ := rfl
  refine ⟨?_, ?_, ?_, ?_⟩ <;> omega

theorem mem_block_first {b len : ℕ} (hlen : len ≤ 16) :
    AddressBlock.Mem 128 ⟨b * 2 ^ 112, len⟩ ip.value ↔
      ip.s₀.val / 2 ^ (16 - len) = b / 2 ^ (16 - len) := by
  have hpow : 2 ^ (128 - len) = 2 ^ 112 * 2 ^ (16 - len) := by
    rw [← pow_add]
    congr 1
    omega
  show ip.value / 2 ^ (128 - len) = b * 2 ^ 112 / 2 ^ (128 - len) ↔ _
  rw [hpow, ← Nat.div_div_eq_div_mul, ← Nat.div_div_eq_div_mul, (value_segments ip).1,
    Nat.mul_div_cancel _ (Nat.two_pow_pos 112)]

/-- **What is mapped or compatible**, by the leading bits. -/
theorem toIpv4_eq (ip : Ipv6Addr) : toIpv4 ip =
    if ip.value / 2 ^ 32 = 0 ∨ ip.value / 2 ^ 32 = 0xffff then some (ofSegments ip.s₆ ip.s₇)
    else none := by
  refine if_congr ?_ rfl rfl
  obtain ⟨-, -, -, hhigh⟩ := value_segments ip
  simp only [hhigh, Fin.ext_iff]
  show ip.s₀.val = 0 ∧ ip.s₁.val = 0 ∧ ip.s₂.val = 0 ∧ ip.s₃.val = 0 ∧ ip.s₄.val = 0 ∧
    (ip.s₅.val = 0 ∨ ip.s₅.val = 0xffff) ↔ _
  omega

theorem not_private_cases (h : isPrivateV6 ip = false) :
    (ip.value ≠ 1 ∧ ip.value ≠ 0) ∧ (∀ v4, toIpv4 ip = some v4 → ¬ Forbidden4 v4) ∧
      (toIpv4 ip = none → ip.s₀.val / 2 ^ 9 ≠ 0x7e ∧ ip.s₀.val / 2 ^ 6 ≠ 0x3fa ∧
        ip.s₀.val / 2 ^ 6 ≠ 0x3fb ∧ ¬ (ip.s₀.val = 0x64 ∧ ip.s₁.val = 0xff9b)) := by
  have h9 : ip.s₀.val &&& 0xfe00 = ip.s₀.val / 2 ^ 9 * 2 ^ 9 := 
    land_mask (s := ip.s₀.val) (m := 7) (j := 9) ip.s₀.isLt
  have h6 : ip.s₀.val &&& 0xffc0 = ip.s₀.val / 2 ^ 6 * 2 ^ 6 := 
    land_mask (s := ip.s₀.val) (m := 10) (j := 6) ip.s₀.isLt
  unfold isPrivateV6 at h
  split at h
  · cases h
  · next hvalue =>
    refine ⟨by simpa [not_or] using hvalue, ?_, ?_⟩
    · rintro v4 hv4 hforbidden
      rw [hv4] at h
      exact absurd ((forbidden4_iff v4).mp hforbidden) (by simp [h])
    · intro hnone
      rw [hnone, h9, h6] at h
      simp only [Bool.or_eq_false_iff, decide_eq_false_iff_not, Bool.and_eq_false_imp,
        decide_eq_true_eq] at h
      obtain ⟨⟨⟨hfc, hfe80⟩, hfec0⟩, hnat⟩ := h
      refine ⟨by omega, by omega, by omega, fun ⟨h0, h1⟩ => ?_⟩
      exact hnat (Fin.ext h0) (Fin.ext h1)

/-- **What passes the table is not public exactly in its gaps.** -/
theorem forbidden_iff_gap {ip : IpAddr} (h : isPrivateIp ip = false) : Forbidden ip ↔ Gap ip := by
  rcases ip with ip | ip
  · refine iff_of_false (fun hforbidden => ?_) id
    exact absurd ((forbidden4_iff ip).mp hforbidden) (by simp [show isPrivateV4 ip = false from h])
  obtain ⟨⟨hone, hzero⟩, hembedded, hblocks⟩ := not_private_cases h
  obtain ⟨-, -, hlow, hhigh⟩ := value_segments ip
  have hfirst : ∀ {b len : ℕ}, len ≤ 16 → b / 2 ^ (16 - len) ≠ 0 →
      AddressBlock.Mem 128 ⟨b * 2 ^ 112, len⟩ ip.value → toIpv4 ip = none ∧
        ip.s₀.val / 2 ^ (16 - len) = b / 2 ^ (16 - len) := by
    intro b len hlen hb hmem
    rw [mem_block_first hlen] at hmem
    refine ⟨?_, hmem⟩
    have hs : ip.s₀.val ≠ 0 := by
      intro hs
      rw [hs, Nat.zero_div] at hmem
      exact hb hmem.symm
    rw [toIpv4_eq, if_neg (by omega)]
  -- an embedded address that is mapped or compatible has been tested
  have hmapped : (ip.value / 2 ^ 32 = 0 ∨ ip.value / 2 ^ 32 = 0xffff) →
      ∀ v4, ip.value % 2 ^ 32 = v4.value → ¬ Forbidden4 v4 := by
    intro hprefix v4 hv4
    rw [hlow] at hv4
    refine hembedded v4 ?_
    rw [toIpv4_eq, if_pos hprefix, value_eq_iff.mp hv4]
  constructor
  · rintro (⟨block, hblock, hmem⟩ | ⟨v4, ⟨block, hblock, hmem, hv4⟩ | ⟨hmem, hv4⟩, hforbidden⟩)
    · simp only [blocks6, List.mem_cons, List.not_mem_nil, or_false] at hblock
      rcases hblock with rfl | rfl | rfl | rfl | rfl | rfl
      · exact absurd ((Nat.div_one _).symm.trans hmem) hone
      · exact absurd ((Nat.div_one _).symm.trans hmem) hzero
      · obtain ⟨hnone, hs⟩ := hfirst (by decide) (by decide) hmem
        exact absurd hs (hblocks hnone).1
      · obtain ⟨hnone, hs⟩ := hfirst (by decide) (by decide) hmem
        exact absurd hs (hblocks hnone).2.1
      · obtain ⟨hnone, hs⟩ := hfirst (by decide) (by decide) hmem
        exact absurd hs (hblocks hnone).2.2.1
      · exact Or.inl hmem
    · simp only [embeddings, List.mem_cons, List.not_mem_nil, or_false] at hblock
      rcases hblock with rfl | rfl | rfl
      · exact absurd hforbidden (hmapped (Or.inr hmem) v4 hv4)
      · exact absurd hforbidden (hmapped (Or.inl hmem) v4 hv4)
      · -- an address of NAT64 does not pass
        have hnat : ip.value / 2 ^ 32 = 0x0064ff9b * 2 ^ 64 := hmem
        rw [hhigh] at hnat
        have hnone : toIpv4 ip = none := by rw [toIpv4_eq, if_neg (by omega)]
        exact absurd ⟨by omega, by omega⟩ (hblocks hnone).2.2.2
    · exact Or.inr ⟨hmem, v4, hv4, hforbidden⟩
  · rintro (hmem | ⟨hmem, v4, hv4, hforbidden⟩)
    · exact Or.inl ⟨_, by simp [blocks6], hmem⟩
    · exact Or.inr ⟨v4, Or.inr ⟨hmem, hv4⟩, hforbidden⟩

end table6

/-! ### Where a fetch gets to -/

section runs

variable {U ε : Type*} (o : Outside U) (net : Internet U)

def redirectOf (hop : ℕ) (url : U) : Option U :=
  match net.send hop url with
  | .ok res => if res.isRedirection then res.location.bind (o.join url) else none
  | .error _ => none

/-- **The url after some redirects.** -/
def chain : ℕ → U → ℕ → Option U
  | _, url, 0 => some url
  | hop, url, k + 1 => (redirectOf o net hop url).bind fun next => chain (hop + 1) next k

def Passes (guarded : ℕ → Bool) (hop : ℕ) (url : U) (k : ℕ) : Prop :=
  ∀ j ≤ k, ∀ v, chain o net hop url j = some v → guarded (hop + j) = true →
    guardUrl o net (hop + j) v = .ok ()

/-- **The condition**: no hop that passes the guard, behind others that do, has an address in a
gap. -/
def NoGap (guarded : ℕ → Bool) (url : U) : Prop :=
  ∀ k ≤ maxRedirects, ∀ u, chain o net 0 url k = some u → guarded k = true →
    Passes o net guarded 0 url k → ∀ ip ∈ addresses o net k u, ¬ Gap ip

/-- **No connection to what is not public**, on the hops that are guarded, and no more requests than
there may be. -/
def StaysPublic (guarded : ℕ → Bool) (requests : List (Request U)) : Prop :=
  requests.length ≤ maxRedirects + 1 ∧
    ∀ r ∈ requests, guarded r.hop = true → ∀ ip ∈ r.addresses, ¬ Forbidden ip

variable {o net} {f : Fetch ε} {n hop k : ℕ} {url u : U}

/-- **What passes the guard is connected to at addresses that pass the table.** -/
theorem not_private_of_guardUrl (h : guardUrl o net hop url = .ok ()) :
    ∀ ip ∈ addresses o net hop url, isPrivateIp ip = false := by
  intro ip hip
  unfold guardUrl at h
  unfold addresses at hip
  split at h
  · cases h
  cases hhost : o.hostStr url with
  | none =>
    rw [hhost] at hip
    cases hip
  | some host =>
    simp only [hhost] at h hip
    cases hparse : o.parseIp (bare host) with
    | some ip' =>
      simp only [hparse] at h hip
      obtain rfl := List.mem_singleton.mp hip
      split at h
      · cases h
      · next hpublic => exact Bool.eq_false_iff.mpr hpublic
    | none =>
      simp only [hparse] at h hip
      split at h
      · cases h
      · cases hlookup : net.lookupHost hop (bare host) ((o.portOrKnownDefault url).getD 80) with
        | error e =>
          rw [hlookup] at hip
          cases hip
        | ok addrs =>
          simp only [hlookup] at h hip
          cases addrs with
          | nil => cases hip
          | cons addr addrs =>
            simp only at h
            split at h
            · cases h
            · next hnone => exact Bool.eq_false_iff.mpr (List.find?_eq_none.mp hnone ip hip)

theorem requests_of_not_passes (hguarded : f.guarded hop = true)
    (h : guardUrl o net hop url ≠ .ok ()) : (f.run o net (n + 1) hop url).1 = [] := by
  rw [Fetch.run, if_pos hguarded]
  cases hguard : guardUrl o net hop url with
  | error e => rfl
  | ok => exact absurd hguard h

/-- **A hop that passes is requested**, and then what it redirects to. -/
theorem requests_of_passes (h : f.guarded hop = true → guardUrl o net hop url = .ok ()) :
    (f.run o net (n + 1) hop url).1 = ⟨hop, url, addresses o net hop url⟩ ::
      (redirectOf o net hop url).elim [] fun next => (f.run o net n (hop + 1) next).1 := by
  have hguard : (if f.guarded hop then guardUrl o net hop url else .ok ()) = .ok () := by
    split
    · next hguarded => exact h hguarded
    · rfl
  rw [Fetch.run, hguard, redirectOf]
  cases net.send hop url with
  | error e => rfl
  | ok res =>
    simp only
    split
    · cases res.location with
      | none => cases f.noLocation <;> rfl
      | some location => cases hjoin : o.join url location <;> simp [hjoin]
    · rfl

theorem length_requests : (f.run o net n hop url).1.length ≤ n := by
  induction n generalizing hop url with
  | zero => exact le_rfl
  | succ n ih =>
    by_cases h : f.guarded hop = true → guardUrl o net hop url = .ok ()
    · rw [requests_of_passes h, List.length_cons]
      cases redirectOf o net hop url with
      | none => exact Nat.succ_le_succ (Nat.zero_le n)
      | some next => exact Nat.succ_le_succ ih
    · push Not at h
      rw [requests_of_not_passes h.1 h.2]
      exact Nat.zero_le _

theorem chain_succ {next : U} (h : redirectOf o net hop url = some next) :
    chain o net hop url (k + 1) = chain o net (hop + 1) next k := by
  rw [chain, h, Option.bind_some]

theorem passes_succ {guarded : ℕ → Bool} {next : U} (h : redirectOf o net hop url = some next) :
    Passes o net guarded hop url (k + 1) ↔
      (guarded hop = true → guardUrl o net hop url = .ok ()) ∧
        Passes o net guarded (hop + 1) next k := by
  constructor
  · intro hpasses
    refine ⟨hpasses 0 (Nat.zero_le _) url rfl, fun j hj v hv hguarded => ?_⟩
    have hhop : hop + 1 + j = hop + (j + 1) := by omega
    rw [hhop] at hguarded ⊢
    exact hpasses (j + 1) (Nat.succ_le_succ hj) v (chain_succ h ▸ hv) hguarded
  · rintro ⟨hfirst, hrest⟩ j hj v hv hguarded
    cases j with
    | zero =>
      obtain rfl := Option.some.inj hv
      exact hfirst hguarded
    | succ j =>
      rw [chain_succ h] at hv
      have hhop : hop + (j + 1) = hop + 1 + j := by omega
      rw [hhop] at hguarded ⊢
      exact hrest j (Nat.le_of_succ_le_succ hj) v hv hguarded

/-- **The requests of a fetch**: one for each redirect, as far as all hops pass the guard. -/
theorem mem_requests_iff {r : Request U} : r ∈ (f.run o net n hop url).1 ↔
    ∃ k < n, ∃ u, chain o net hop url k = some u ∧
      r = ⟨hop + k, u, addresses o net (hop + k) u⟩ ∧ Passes o net f.guarded hop url k := by
  induction n generalizing hop url with
  | zero => exact iff_of_false List.not_mem_nil fun ⟨k, hk, _⟩ => Nat.not_lt_zero k hk
  | succ n ih =>
    by_cases h : f.guarded hop = true → guardUrl o net hop url = .ok ()
    · rw [requests_of_passes h, List.mem_cons]
      constructor
      · rintro (rfl | hr)
        · refine ⟨0, Nat.succ_pos n, url, rfl, rfl, fun j hj v hv => ?_⟩
          obtain rfl := Nat.le_zero.mp hj
          obtain rfl := Option.some.inj hv
          exact h
        · cases hnext : redirectOf o net hop url with
          | none =>
            rw [hnext] at hr
            cases hr
          | some next =>
            rw [hnext] at hr
            obtain ⟨k, hk, u, hu, rfl, hpasses⟩ := ih.mp hr
            refine ⟨k + 1, Nat.succ_lt_succ hk, u, (chain_succ hnext).trans hu, ?_,
              (passes_succ hnext).mpr ⟨h, hpasses⟩⟩
            rw [show hop + 1 + k = hop + (k + 1) by omega]
      · rintro ⟨k, hk, u, hu, rfl, hpasses⟩
        cases k with
        | zero =>
          obtain rfl := Option.some.inj hu
          exact Or.inl rfl
        | succ k =>
          obtain ⟨next, hnext, hu'⟩ := Option.bind_eq_some_iff.mp hu
          refine Or.inr ?_
          rw [hnext]
          refine ih.mpr ⟨k, Nat.lt_of_succ_lt_succ hk, u, hu', ?_,
            ((passes_succ hnext).mp hpasses).2⟩
          rw [show hop + (k + 1) = hop + 1 + k by omega]
    · refine iff_of_false ?_ ?_
      · push Not at h
        rw [requests_of_not_passes h.1 h.2]
        exact List.not_mem_nil
      · rintro ⟨k, -, u, -, -, hpasses⟩
        exact h (hpasses 0 (Nat.zero_le k) url rfl)

/-- **A fetch stays public exactly if no hop that passes the guard has an address in a gap.** -/
theorem staysPublic_iff :
    StaysPublic f.guarded (f.run o net (maxRedirects + 1) 0 url).1 ↔
      NoGap o net f.guarded url := by
  rw [StaysPublic, and_iff_right length_requests]
  have htable : ∀ {k u}, chain o net 0 url k = some u → f.guarded k = true →
      Passes o net f.guarded 0 url k → ∀ ip ∈ addresses o net k u, (Forbidden ip ↔ Gap ip) := by
    intro k u hu hguarded hpasses ip hip
    have hguard := hpasses k le_rfl u hu (by rwa [Nat.zero_add])
    rw [Nat.zero_add] at hguard
    exact forbidden_iff_gap (not_private_of_guardUrl hguard ip hip)
  constructor
  · intro h k hk u hu hguarded hpasses ip hip
    rw [← htable hu hguarded hpasses ip hip]
    refine h ⟨0 + k, u, addresses o net (0 + k) u⟩ (mem_requests_iff.mpr
      ⟨k, Nat.lt_succ_of_le hk, u, hu, rfl, hpasses⟩) ?_ ip ?_
    · rwa [Nat.zero_add]
    · rwa [Nat.zero_add]
  · intro h r hr hguarded ip hip
    obtain ⟨k, hk, u, hu, rfl, hpasses⟩ := mem_requests_iff.mp hr
    simp only [Nat.zero_add] at hguarded hip
    rw [htable hu hguarded hpasses ip hip]
    exact h k (Nat.le_of_lt_succ hk) u hu hguarded hpasses ip hip

end runs

/-- **The three fetches connect to nothing that is not public exactly if no hop that passes the
guard has an address in a gap of the table**, whatever is redirected to and resolved. -/
theorem fetches_stayPublic_iff {U : Type*} (o : Outside U) (net : Internet U) (url : U)
    (guardFirst : Bool) (text : String) :
    (StaysPublic (fun hop => 0 < hop || guardFirst) (fetchGuarded o net url guardFirst).1 ↔
      NoGap o net (fun hop => 0 < hop || guardFirst) url) ∧
    (StaysPublic (fun _ => true) (fetchFeed o net text).1 ↔
      ∀ url, o.parse (o.trim text) = some url → NoGap o net (fun _ => true) url) ∧
    (StaysPublic (fun _ => true) (fetchSubtitleLink o net text).1 ↔
      ∀ url, o.parse text = some url → NoGap o net (fun _ => true) url) := by
  have hnone : StaysPublic (U := U) (fun _ => true) [] :=
    ⟨Nat.zero_le _, fun _ hr => absurd hr List.not_mem_nil⟩
  refine ⟨staysPublic_iff (f := panelFetch guardFirst), ?_, ?_⟩
  · unfold fetchFeed
    cases o.parse (o.trim text) with
    | none => exact iff_of_true hnone fun _ h => by cases h
    | some url =>
      refine (staysPublic_iff (f := feedFetch)).trans ⟨fun h _ heq => ?_, fun h => h url rfl⟩
      exact Option.some.inj heq ▸ h
  · unfold fetchSubtitleLink
    cases o.parse text with
    | none => exact iff_of_true hnone fun _ h => by cases h
    | some url =>
      refine (staysPublic_iff (f := subtitleFetch)).trans ⟨fun h _ heq => ?_, fun h => h url rfl⟩
      exact Option.some.inj heq ▸ h

/-- Two urls whose hosts are addresses of version 6. -/
def twoUrls : Outside String where
  parse s := some s
  join _ s := some s
  scheme _ := "http"
  hostStr s := if s = "http://[ff02::1]/feed.xml" then some "[ff02::1]"
    else some "[2002:7f00:1::]"
  portOrKnownDefault _ := some 80
  parseIp s := if s = "ff02::1" then some (.v6 ⟨0xff02, 0, 0, 0, 0, 0, 0, 1⟩)
    else some (.v6 ⟨0x2002, 0x7f00, 1, 0, 0, 0, 0, 0⟩)
  showIp _ := ""
  trim s := s

def answers : Internet String where
  lookupHost _ _ _ := .error "no names"
  send _ _ := .ok ⟨200, none⟩

/-- **A feed is fetched from all hosts of the network**, and from the own host by 6to4. -/
theorem not_staysPublic_multicast :
    ¬ StaysPublic (fun _ => true) (fetchFeed twoUrls answers "http://[ff02::1]/feed.xml").1 ∧
    ¬ StaysPublic (fun _ => true)
      (fetchFeed twoUrls answers "http://[2002:7f00:1::]/feed.xml").1 := by
  constructor
  · rintro ⟨-, h⟩
    refine h ⟨0, "http://[ff02::1]/feed.xml", [.v6 ⟨0xff02, 0, 0, 0, 0, 0, 0, 1⟩]⟩ ?_ rfl _
      List.mem_cons_self ?_
    · exact List.mem_cons_self
    · exact Or.inl ⟨⟨0xff00 * 2 ^ 112, 8⟩, by simp [blocks6], by decide⟩
  · rintro ⟨-, h⟩
    refine h ⟨0, "http://[2002:7f00:1::]/feed.xml", [.v6 ⟨0x2002, 0x7f00, 1, 0, 0, 0, 0, 0⟩]⟩ ?_
      rfl _ List.mem_cons_self ?_
    · exact List.mem_cons_self
    · exact Or.inr ⟨⟨127, 0, 0, 1⟩, Or.inr ⟨by decide, by decide⟩,
        (forbidden4_iff _).mpr (by decide)⟩

end EmeraldExchange.Ssrf
