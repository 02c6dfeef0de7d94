import Noxara.JsonValues

/-! Which addresses an outbound webhook may not reach, and the check of a URL against them. Parsing a URL
and answering a lookup are left to the libraries and the network. -/
namespace Noxara.Webhooks

structure Ipv4Addr where
  a : BitVec 8
  b : BitVec 8
  c : BitVec 8
  d : BitVec 8
  deriving DecidableEq

namespace Ipv4Addr
variable (ip : Ipv4Addr)

def isLoopback : Bool := ip.a = 127

def isPrivate : Bool := ip.a = 10 ∨ (ip.a = 172 ∧ 16 ≤ ip.b.toNat ∧ ip.b.toNat ≤ 31) ∨
    (ip.a = 192 ∧ ip.b = 168)

def isLinkLocal : Bool := ip.a = 169 ∧ ip.b = 254

def isBroadcast : Bool := ip = ⟨255, 255, 255, 255⟩

def isMulticast : Bool := 224 ≤ ip.a.toNat ∧ ip.a.toNat ≤ 239

def isUnspecified : Bool := ip = ⟨0, 0, 0, 0⟩

end Ipv4Addr

/-- The eight segments of an address. -/
structure Ipv6Addr where
  s0 : BitVec 16
  s1 : BitVec 16
  s2 : BitVec 16
  s3 : BitVec 16
  s4 : BitVec 16
  s5 : BitVec 16
  s6 : BitVec 16
  s7 : BitVec 16
  deriving DecidableEq

namespace Ipv6Addr
variable (ip : Ipv6Addr)

def isUnspecified : Bool := ip = ⟨0, 0, 0, 0, 0, 0, 0, 0⟩

def isLoopback : Bool := ip = ⟨0, 0, 0, 0, 0, 0, 0, 1⟩

def isMulticast : Bool := ip.s0 &&& 0xff00 = 0xff00

/-- The last four octets. -/
def low : Ipv4Addr :=
  ⟨(ip.s6 >>> 8).setWidth 8, ip.s6.setWidth 8, (ip.s7 >>> 8).setWidth 8, ip.s7.setWidth 8⟩

def toIpv4Mapped : Option Ipv4Addr :=
  if ip.s0 = 0 ∧ ip.s1 = 0 ∧ ip.s2 = 0 ∧ ip.s3 = 0 ∧ ip.s4 = 0 ∧ ip.s5 = 0xffff then some ip.low else none

def toIpv4 : Option Ipv4Addr :=
  if ip.s0 = 0 ∧ ip.s1 = 0 ∧ ip.s2 = 0 ∧ ip.s3 = 0 ∧ ip.s4 = 0 ∧ (ip.s5 = 0 ∨ ip.s5 = 0xffff) then
    some ip.low
  else none

end Ipv6Addr

inductive IpAddr
  | v4 (ip : Ipv4Addr)
  | v6 (ip : Ipv6Addr)
  deriving DecidableEq

def isBlockedV4 (ip : Ipv4Addr) : Bool :=
  ip.a = 0 || ip.isLoopback || ip.isPrivate || ip.isLinkLocal ||
    -- carrier-grade NAT
    (ip.a = 100 && ip.b &&& 0xc0 = 64) ||
    (ip.isBroadcast || ip.isMulticast || ip.isUnspecified) ||
    -- the metadata service
    ip = ⟨169, 254, 169, 254⟩

def isBlockedV6 (ip : Ipv6Addr) : Bool :=
  if ip.isLoopback || ip.isUnspecified || ip.isMulticast then true
  -- unique local and link local
  else if ip.s0 &&& 0xfe00 = 0xfc00 then true
  else if ip.s0 &&& 0xffc0 = 0xfe80 then true
  else
    match ip.toIpv4Mapped with
    | some v4 => isBlockedV4 v4
    | none =>
      match ip.toIpv4 with
      | some v4 =>
        if ip.s0 = 0 && ip.s1 = 0 && ip.s2 = 0 && ip.s3 = 0 && ip.s4 = 0 && ip.s5 = 0 then isBlockedV4 v4
        else false
      | none => false

/-- An address that no webhook may reach. -/
def isBlockedIp : IpAddr → Bool
  | .v4 ip => isBlockedV4 ip
  | .v6 ip => isBlockedV6 ip

example : isBlockedIp (.v4 ⟨172, 31, 255, 1⟩) = true ∧ isBlockedIp (.v4 ⟨172, 32, 0, 1⟩) = false := by decide

inductive Host
  | ipv4 (ip : Ipv4Addr)
  | ipv6 (ip : Ipv6Addr)
  | domain (name : String)
  deriving DecidableEq

structure Url where
  scheme : String
  host : Option Host
  portOrKnownDefault : Option Nat
  deriving DecidableEq

/-- What the library makes of the text of a URL. -/
class UrlFormats where
  parse : String → Option Url

/-- An answer to a lookup of a name with a port: no answer, or the addresses in it. -/
abbrev Answer := String → Nat → Option (List IpAddr)

inductive SsrfError
  | badUrl | badScheme | missingHost | resolveFailed | blockedAddress
  deriving DecidableEq

def SsrfError.display : SsrfError → String
  | badUrl => "url must be an absolute http(s) URL"
  | badScheme => "url scheme must be http or https"
  | missingHost => "url must include a host"
  | resolveFailed => "DNS resolution failed"
  | blockedAddress => "destination resolves to a blocked address"

def Url.port (u : Url) : Nat := u.portOrKnownDefault.getD 80

/-- The first address of the answer that is blocked decides, and an answer without addresses is none. -/
def assertAddressesSafe : List IpAddr → Bool → Except SsrfError Unit
  | [], any => if any then .ok () else .error .resolveFailed
  | addr :: addrs, _ => if isBlockedIp addr then .error .blockedAddress else assertAddressesSafe addrs true

def assertParsedSafe (answer : Answer) (parsed : Url) : Except SsrfError Unit :=
  if parsed.scheme ≠ "http" ∧ parsed.scheme ≠ "https" then .error .badScheme
  else
    match parsed.host with
    | none => .error .missingHost
    | some (.ipv4 ip) => if isBlockedIp (.v4 ip) then .error .blockedAddress else .ok ()
    | some (.ipv6 ip) => if isBlockedIp (.v6 ip) then .error .blockedAddress else .ok ()
    | some (.domain name) =>
      match answer name parsed.port with
      | none => .error .resolveFailed
      | some addrs => assertAddressesSafe addrs false

def assertUrlSafe [UrlFormats] (answer : Answer) (rawUrl : String) : Except SsrfError Unit :=
  match UrlFormats.parse rawUrl with
  | none => .error .badUrl
  | some parsed => assertParsedSafe answer parsed

/-- The addresses that a client may connect to: the literal, or those of the answer to its own lookup. -/
def Url.addresses (u : Url) (answer : Answer) : List IpAddr :=
  match u.host with
  | none => []
  | some (.ipv4 ip) => [.v4 ip]
  | some (.ipv6 ip) => [.v6 ip]
  | some (.domain name) => (answer name u.port).getD []

theorem assertAddressesSafe_eq_ok {addrs : List IpAddr} {any : Bool} :
    assertAddressesSafe addrs any = .ok () ↔
      (addrs ≠ [] ∨ any = true) ∧ ∀ addr ∈ addrs, isBlockedIp addr = false := by
  induction addrs generalizing any with
  | nil => cases any <;> simp [assertAddressesSafe]
  | cons addr addrs ih =>
    cases hblocked : isBlockedIp addr with
    | true => simp [assertAddressesSafe, hblocked]
    | false => simp [assertAddressesSafe, hblocked, ih]

/-- A URL passes whose scheme is one of the web, and which has an address at this lookup and no blocked one. -/
theorem assertParsedSafe_eq_ok {answer : Answer} {u : Url} : assertParsedSafe answer u = .ok () ↔
    (u.scheme = "http" ∨ u.scheme = "https") ∧ u.addresses answer ≠ [] ∧
      ∀ addr ∈ u.addresses answer, isBlockedIp addr = false := by
  unfold assertParsedSafe Url.addresses
  by_cases hscheme : u.scheme ≠ "http" ∧ u.scheme ≠ "https"
  · rw [if_pos hscheme]
    simp only [reduceCtorEq, false_iff, not_and_or]
    exact .inl (not_or.mpr hscheme)
  · have hweb : u.scheme = "http" ∨ u.scheme = "https" := by
      by_contra hno
      exact hscheme (not_or.mp hno)
    rw [if_neg hscheme]
    simp only [hweb, true_and]
    cases u.host with
    | none => simp
    | some host =>
      cases host with
      | ipv4 ip => simp
      | ipv6 ip => simp
      | domain name =>
        show (match answer name u.port with
          | none => Except.error SsrfError.resolveFailed
          | some addrs => assertAddressesSafe addrs false) = .ok () ↔ (answer name u.port).getD [] ≠ [] ∧
            ∀ addr ∈ (answer name u.port).getD [], isBlockedIp addr = false
        cases answer name u.port with
        | none => simp
        | some addrs => simp [assertAddressesSafe_eq_ok]

end Noxara.Webhooks
