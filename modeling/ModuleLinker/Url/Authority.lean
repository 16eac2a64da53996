import ModuleLinker.Url.Host
import ModuleLinker.Url.Path

/-!
# Authorities of URLs

What stands between the two slashes and the path of a URL: a user with a password, a host and a
port. Module schemes need a host and take a backslash for a slash.
-/

set_option autoImplicit false

namespace ModuleLinker.Url

open Text

/-- An authority in its written form. -/
structure Authority where
  /-- The user and the password with the at sign after them, or nothing. -/
  userinfo : List Char
  /-- The host. -/
  host : List Char
  /-- The port, where it is not the one of the scheme. -/
  port : Option Nat
  deriving DecidableEq, Repr

namespace Authority

/-- Whether a character ends an authority; a backslash does so only in URLs of some schemes. -/
def isEnd (special : Bool) (c : Char) : Bool :=
  c == '/' || c == '?' || c == '#' || (special && c == '\\')

/-- Whether a character stands for itself in a user name or a password. -/
def isPlainUserinfo (c : Char) : Bool :=
  Path.isPlain c && !"/:;=@[\\]^|".toList.contains c

/-- The written form of a user and a password; a colon that no password follows is left out. -/
def userinfoText (text : List Char) : List Char :=
  let user := text.takeWhile (· != ':')
  let password := text.drop (user.length + 1)
  let written := percentEncode isPlainUserinfo user ++
    (if password.isEmpty then [] else ':' :: percentEncode isPlainUserinfo password)
  if written.isEmpty then [] else written ++ ['@']

/-- The written form of the user and the password at the start of a text, and the text after the at
sign. -/
def readUserinfo (special : Bool) (text : List Char) : Except Fault (List Char × List Char) :=
  let head := text.takeWhile fun c => !isEnd special c
  if head.contains '@' then
    let afterAt := (head.reverse.takeWhile (· != '@')).length
    let before := head.take (head.length - afterAt - 1)
    let rest := text.drop (before.length + 1)
    if before.isEmpty && rest.head?.any (isEnd special) then .error .emptyHost
    else .ok (userinfoText before, rest)
  else .ok ([], text)

/-- How many characters of a text belong to the host: those before a colon outside brackets or
before the end of the authority. -/
def hostLength (special inBrackets : Bool) : List Char → Nat
  | [] => 0
  | c :: cs =>
    if (c == ':' && !inBrackets) || isEnd special c then 0
    else hostLength special (if c == '[' then true else if c == ']' then false else inBrackets) cs + 1

/-- The port at the start of a text, where it has one, and the text after it. -/
def readPort (standard : Nat) (text : List Char) : Except Fault (Option Nat × List Char) :=
  let digits := text.takeWhile Char.isDigit
  let rest := text.drop digits.length
  let value := digits.foldl (fun n c => 10 * n + (c.toNat - 48)) 0
  if 65535 < value || rest.head?.any (fun c => !isEnd true c) then .error .port
  else .ok (if digits.isEmpty || value = standard then none else some value, rest)

/-- The authority at the start of a text, for a scheme with a standard port, and the text after
it. -/
def read (standard : Nat) (text : List Char) : Except Fault (Authority × List Char) := do
  let (userinfo, afterUserinfo) ← readUserinfo true text
  let length := hostLength true false afterUserinfo
  if length = 0 then .error .emptyHost
  else
    let host ← Host.read (afterUserinfo.take length)
    match afterUserinfo.drop length with
    | ':' :: rest =>
      let (port, rest) ← readPort standard rest
      .ok (⟨userinfo, host, port⟩, rest)
    | rest => .ok (⟨userinfo, host, none⟩, rest)

/-- Whether the authority at the start of a text is well formed, for a scheme without a standard
port that may leave the host out. -/
def checkOpaque (text : List Char) : Except Fault Unit := do
  let (userinfo, afterUserinfo) ← readUserinfo false text
  let length := hostLength false false afterUserinfo
  Host.checkOpaque (afterUserinfo.take length)
  match afterUserinfo.drop length with
  | ':' :: rest =>
    if length = 0 then .error .emptyHost
    else
      let _ ← readPort 0 rest
      .ok ()
  | _ => if length = 0 && !userinfo.isEmpty then .error .emptyHost else .ok ()

/-- An authority as it is written. -/
def text (a : Authority) : List Char :=
  a.userinfo ++ a.host ++
    match a.port with
    | none => []
    | some port => ':' :: (toString port).toList

end Authority

end ModuleLinker.Url
