import ModuleLinker.Text.Percent

/-!
# Paths of URLs

The path of a URL, built from the segments of a reference one after another on top of the directory
that the reference is relative to. Dot segments go, escapes are made where a path needs them, and a
segment that looks like a drive letter is a root that no `..` leaves.
-/

set_option autoImplicit false

namespace ModuleLinker.Url.Path

open Text

/-- Whether a character stands for itself in a path. -/
def isPlain (c : Char) : Bool :=
  0x20 < c.toNat && c.toNat < 0x7F && !"\"<>\x60#?\x7b\x7d".toList.contains c

/-- Whether a character separates the segments of a path. -/
def isSeparator (c : Char) : Bool := c == '/' || c == '\\'

/-- Whether a text is a letter and a colon or a bar. -/
def isDriveLetter : List Char → Bool
  | [letter, mark] => letter.isAlpha && (mark == ':' || mark == '|')
  | _ => false

/-- Whether a text is a letter and a colon. -/
def isNormalDriveLetter (cs : List Char) : Bool := isDriveLetter cs && cs.getLast? == some ':'

/-- Whether the first segment of a reference is a drive letter. -/
def startsWithDriveLetter : List Char → Bool
  | letter :: mark :: rest =>
    isDriveLetter [letter, mark] && (rest.head?.all fun c => isSeparator c || c == '?' || c == '#')
  | _ => false

/-- Whether a segment stands for the directory itself. -/
def isSingleDot (segment : List Char) : Bool :=
  [".", "%2e", "%2E"].any fun dot => dot.toList == segment

/-- Whether a segment stands for the directory above. -/
def isDoubleDot (segment : List Char) : Bool :=
  ["..", "%2e%2e", "%2e%2E", "%2E%2e", "%2E%2E", "%2e.", "%2E.", ".%2e", ".%2E"].any fun dots =>
    dots.toList == segment

/-- The pieces of a text between separators. -/
def segments : List Char → List (List Char)
  | [] => [[]]
  | c :: cs =>
    if isSeparator c then [] :: segments cs
    else
      match segments cs with
      | segment :: more => (c :: segment) :: more
      | [] => [[c]]

/-- The part of a path up to and with its last slash. -/
def directory (path : List Char) : List Char :=
  (path.reverse.dropWhile (· != '/')).reverse

/-- The directory above a directory whose path ends in a slash. The root has none above it, and
neither has a drive letter. -/
def parent (path : List Char) : List Char :=
  let inside := path.dropLast
  let name := (inside.reverse.takeWhile (· != '/')).reverse
  if path.getLast? != some '/' || !inside.contains '/' || isDriveLetter name then path
  else directory inside

/-- The directory that a reference relative to a path starts from. In a file URL a final drive
letter is a directory itself. -/
def base (isFile : Bool) (path : List Char) : List Char :=
  let name := (path.reverse.takeWhile (· != '/')).reverse
  if isFile && isNormalDriveLetter name then path else directory path

/-- A path that is being built. -/
structure State where
  /-- What has been built, up to where the next segment starts. -/
  path : List Char
  /-- Whether a drive letter stands at the start, so that the path belongs to no host. -/
  drive : Bool

/-- Adds a segment, followed by a slash unless it is the last. In a file URL a path that is only a
drive letter is a directory, and a drive letter at the start of the path is written with a colon. -/
def State.push (isFile : Bool) (s : State) (raw : List Char) (slash : Bool) : State :=
  let ending := if slash then ['/'] else []
  let atDrive := isFile && !raw.isEmpty && isNormalDriveLetter (s.path.drop 1)
  let path := if atDrive then s.path ++ ['/'] else s.path
  let segment := percentEncode isPlain raw
  if isDoubleDot segment then { s with path := parent path }
  else if isSingleDot segment then
    { s with path := if path.getLast? = some '/' then path else path ++ ['/'] }
  else if isFile && path.length = 1 && isDriveLetter segment then
    { path := path ++ segment.take 1 ++ [':'] ++ ending, drive := true }
  else { s with path := path ++ segment ++ ending }

/-- Adds the segments of a reference. -/
def State.pushAll (isFile : Bool) (s : State) : List (List Char) → State
  | [] => s
  | [segment] => s.push isFile segment false
  | segment :: segments => (s.push isFile segment true).pushAll isFile segments

/-- The path of a reference from a directory on; in a file URL a path starts with one slash. -/
def resolve (isFile : Bool) (start reference : List Char) : State :=
  let s := State.pushAll isFile ⟨start, false⟩ (segments reference)
  if isFile then { s with path := '/' :: s.path.dropWhile (· == '/') } else s

end ModuleLinker.Url.Path
