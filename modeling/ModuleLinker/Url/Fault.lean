/-!
# What can be wrong with a URL

The reasons for which a text is no URL of a module, and their wording.
-/

set_option autoImplicit false

namespace ModuleLinker.Url

/-- Why a text is no URL of a module. -/
inductive Fault where
  /-- The text is relative and there is nothing it is relative to. -/
  | relativeWithoutBase
  /-- The host is missing. -/
  | emptyHost
  /-- The host is no domain name. -/
  | domainName
  /-- The host of another scheme has a character that none may have. -/
  | domainCharacter
  /-- The host ends in a number but is no IPv4 address. -/
  | ipv4
  /-- The host in brackets is no IPv6 address. -/
  | ipv6
  /-- The port is no number or too great. -/
  | port
  /-- No module can be loaded from URLs of this scheme. -/
  | unsupportedScheme (name : String)
  deriving DecidableEq, Repr

/-- The wording of a fault. -/
def Fault.message : Fault → String
  | relativeWithoutBase => "relative URL without a base"
  | emptyHost => "empty host"
  | domainName => "invalid international domain name"
  | domainCharacter => "invalid domain character"
  | ipv4 => "invalid IPv4 address"
  | ipv6 => "invalid IPv6 address"
  | port => "invalid port number"
  | unsupportedScheme name => "unsupported scheme '" ++ name ++ ":'"

end ModuleLinker.Url
