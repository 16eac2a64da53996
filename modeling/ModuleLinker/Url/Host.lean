import ModuleLinker.Url.Ipv6

/-!
# Hosts

The written form of the host of a URL. A host in brackets is an IPv6 address, one that ends in a
number an IPv4 address, and any other one a domain name, whose escapes are resolved and whose
letters are small. Domain names are ASCII.
-/

set_option autoImplicit false

namespace ModuleLinker.Url.Host

open Text

/-- Whether a character cannot stand in a domain name. -/
def isForbidden (c : Char) : Bool :=
  c.toNat ≤ 0x20 || 0x7F ≤ c.toNat || "%#/:<>?@[\\]^|".toList.contains c

/-- Whether a character cannot stand in the host of a scheme that is no module scheme. -/
def isForbiddenOpaque (c : Char) : Bool :=
  c.toNat = 0 || "\t\n\r #/:<>?@[\\]^|".toList.contains c

/-- The written form of a host. -/
def read (host : List Char) : Except Fault (List Char) :=
  if host.head? = some '[' then
    if host.getLast? = some ']' then Ipv6.read (host.drop 1).dropLast else .error .ipv6
  else
    match ofBytes? (percentDecode host) with
    | none => .error .domainName
    | some decoded =>
      let name := lower decoded
      if name.any isForbidden then .error .domainName
      else if name.isEmpty then .error .emptyHost
      else if Ipv4.endsInNumber name then Ipv4.read name
      else .ok name

/-- Whether the host of a scheme that is no module scheme is well formed. -/
def checkOpaque (host : List Char) : Except Fault Unit :=
  if host.head? = some '[' then
    if host.getLast? = some ']' then (Ipv6.read (host.drop 1).dropLast).map fun _ => ()
    else .error .ipv6
  else if host.any isForbiddenOpaque then .error .domainCharacter
  else .ok ()

end ModuleLinker.Url.Host
