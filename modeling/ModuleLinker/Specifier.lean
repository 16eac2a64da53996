import ModuleLinker.Error
import ModuleLinker.Media
import ModuleLinker.Text.Blank
import ModuleLinker.Url.Authority

/-!
# Module specifiers

The canonical absolute address of a module, which is the identity of the module. It is a URL of one
of three schemes without a fragment, in its written form. References are read relative to the
specifier of the module they stand in.
-/

set_option autoImplicit false

namespace ModuleLinker

open Text Url

/-- A scheme that modules can be loaded from. -/
inductive Scheme where
  /-- The local file system. -/
  | file
  /-- A server. -/
  | http
  /-- A server, encrypted. -/
  | https
  deriving DecidableEq, Repr

namespace Scheme

/-- The name of a scheme. -/
def name : Scheme → String
  | file => "file"
  | http => "http"
  | https => "https"

/-- The scheme with a name. -/
def ofName? (name : String) : Option Scheme :=
  [file, http, https].find? (·.name == name)

/-- The port that a scheme uses unless another one is given. -/
def port : Scheme → Nat
  | file => 0
  | http => 80
  | https => 443

end Scheme

/-- The canonical absolute address of a module. -/
structure Specifier where
  /-- The scheme. -/
  scheme : Scheme
  /-- The user, the host and the port. -/
  authority : Authority
  /-- The path, which starts with a slash. -/
  path : List Char
  /-- The query, without its question mark. -/
  query : Option (List Char)
  deriving DecidableEq, Repr

namespace Specifier

/-- The authority of a local file. -/
def noAuthority : Authority := ⟨[], [], none⟩

/-- The characters of a specifier as it is written. -/
def chars (s : Specifier) : List Char :=
  s.scheme.name.toList ++ "://".toList ++ s.authority.text ++ s.path ++
    match s.query with
    | none => []
    | some query => '?' :: query

/-- A specifier as it is written. -/
def text (s : Specifier) : String := String.ofList s.chars

/-- Whether the module lies on the local file system. -/
def isLocal (s : Specifier) : Bool := s.scheme == .file

/-- Whether the module lies on a server. -/
def isRemote (s : Specifier) : Bool := !s.isLocal

/-- The path of a specifier as it is written. -/
def pathText (s : Specifier) : String := String.ofList s.path

/-- The media type of a module, from its path. -/
def media (s : Specifier) : MediaType := .ofPath s.pathText

/-- Whether a character stands for itself in a query. -/
def isPlainQuery (c : Char) : Bool :=
  0x20 < c.toNat && c.toNat < 0x7F && !"\"#<>\x27".toList.contains c

/-- The part of a text before its query. -/
def beforeQuery (text : List Char) : List Char := text.takeWhile (· != '?')

/-- The written form of the query of a text, where it has one. -/
def queryOf (text : List Char) : Option (List Char) :=
  match text.dropWhile (· != '?') with
  | [] => none
  | _ :: query => some (percentEncode isPlainQuery query)

/-- A text without the separator it starts with. -/
def dropSeparator : List Char → List Char
  | c :: cs => if Path.isSeparator c then cs else c :: cs
  | [] => []

/-- A specifier with the path and the query of a reference, built on top of a path. -/
def withReference (scheme : Scheme) (authority : Authority) (start reference : List Char) :
    Specifier :=
  ⟨scheme, authority, (Path.resolve (scheme == .file) start (beforeQuery reference)).path,
    queryOf reference⟩

/-- Reads what follows the two slashes of a URL of a server. -/
def readRemote (scheme : Scheme) (text : List Char) : Except Fault Specifier := do
  let (authority, rest) ← Authority.read scheme.port text
  .ok (withReference scheme authority ['/'] (dropSeparator rest))

/-- Reads what follows the two slashes of a URL of a file. The host of this machine is left out, and
so is a host in front of a drive letter. -/
def readFileHost (text : List Char) : Except Fault Specifier := do
  let name := text.takeWhile fun c => !(Path.isSeparator c || c == '?')
  let noHost (rest : List Char) := withReference .file noAuthority ['/'] rest
  if name.isEmpty || Path.isDriveLetter name then .ok (noHost text)
  else
    let host ← Host.read name
    let rest := text.drop name.length
    if host = "localhost".toList then .ok (noHost rest)
    else
      let path := Path.resolve true ['/'] (beforeQuery (dropSeparator rest))
      .ok ⟨.file, if path.drive then noAuthority else ⟨[], host, none⟩, path.path, queryOf rest⟩

/-- The path and the host that a path-absolute reference to a file keeps: a drive letter, or else the
host. -/
def fileRoot (reference : List Char) : Option Specifier → Authority × List Char
  | none => (noAuthority, [])
  | some base =>
    let drive := (base.path.drop 1).takeWhile (· != '/')
    if Path.startsWithDriveLetter reference then (noAuthority, [])
    else if Path.isNormalDriveLetter drive then (noAuthority, '/' :: drive)
    else (base.authority, [])

/-- Reads a reference to a file, relative to another file where there is one. -/
def readFile (base : Option Specifier) (text : List Char) : Except Fault Specifier :=
  let first := text.head?.any Path.isSeparator
  let rest := dropSeparator text
  if first && rest.head?.any Path.isSeparator then readFileHost (dropSeparator rest)
  else if first then
    let (authority, start) := fileRoot rest base
    .ok (withReference .file authority start text)
  else
    match base with
    | none => .ok (withReference .file noAuthority ['/'] text)
    | some base =>
      if text.isEmpty then .ok base
      else if text.head? = some '?' then .ok { base with query := queryOf text }
      else if Path.startsWithDriveLetter text then
        .ok (withReference .file noAuthority ['/'] text)
      else .ok (withReference .file base.authority (Path.base true base.path) text)

/-- Reads a reference relative to a module on a server. -/
def readRelative (base : Specifier) (text : List Char) : Except Fault Specifier :=
  if text.isEmpty then .ok base
  else if text.head? = some '?' then .ok { base with query := queryOf text }
  else
    match text with
    | '/' :: '/' :: rest => readRemote base.scheme rest
    | _ =>
      let rest := text.dropWhile Path.isSeparator
      match text.length - rest.length with
      | 0 => .ok (withReference base.scheme base.authority (Path.base false base.path) text)
      | 1 => .ok (withReference base.scheme base.authority ['/'] rest)
      | _ => readRemote base.scheme rest

/-- The scheme at the start of a text, in small letters, and the text after its colon. -/
def splitScheme? (text : List Char) : Option (List Char × List Char) :=
  let name := text.takeWhile fun c => c.isAlphanum || c == '+' || c == '-' || c == '.'
  match text.drop name.length with
  | ':' :: rest => if name.head?.any Char.isAlpha then some (lower name, rest) else none
  | _ => none

/-- The reason why a URL of a scheme that no modules are loaded from is none of a module: the first
fault in it, or else its scheme. -/
def unsupported (name text : List Char) : Fault :=
  let checked : Except Fault Unit :=
    if name = "ws".toList || name = "wss".toList || name = "ftp".toList then
      (Authority.read 0 (text.dropWhile Path.isSeparator)).map fun _ => ()
    else
      match text with
      | '/' :: '/' :: rest => Authority.checkOpaque rest
      | _ => .ok ()
  match checked with
  | .error fault => fault
  | .ok _ => .unsupportedScheme (String.ofList name)

/-- A reference without what a URL parser passes over: control characters and spaces at its ends,
tabs and line ends anywhere. -/
def cleaned (reference : String) : List Char :=
  (trimWhere (·.toNat ≤ 0x20) reference.toList).filter fun c =>
    !(c == '\t' || c == '\n' || c == '\r')

/-- A text without its fragment. -/
def beforeFragment (text : List Char) : List Char := text.takeWhile (· != '#')

/-- Reads a reference, relative to a module where there is one. -/
def read (base : Option Specifier) (reference : String) : Except Fault Specifier :=
  let text := cleaned reference
  match splitScheme? text with
  | some (name, rest) =>
    match Scheme.ofName? (String.ofList name) with
    | none => .error (unsupported name rest)
    | some .file => readFile (base.filter (·.scheme == .file)) (beforeFragment rest)
    | some scheme =>
      let rest := beforeFragment rest
      let afterSlashes := rest.dropWhile Path.isSeparator
      match base with
      | some base =>
        if base.scheme = scheme ∧ rest.length - afterSlashes.length < 2 then
          readRelative base rest
        else readRemote scheme afterSlashes
      | none => readRemote scheme afterSlashes
  | none =>
    match base with
    | none => .error .relativeWithoutBase
    | some base =>
      if base.scheme = .file then readFile (some base) (beforeFragment text)
      else readRelative base (beforeFragment text)

/-- The specifier that a text is. -/
def parse (value : String) : Except LoadError Specifier :=
  match read none value with
  | .ok s => .ok s
  | .error fault => .error (.malformedSpecifier value "" fault.message)

/-- The module that a reference in the module `base` leads to. -/
def resolve (reference : String) (base : Specifier) : Except LoadError Specifier :=
  let reference := trim reference
  if reference.isEmpty then .error (.malformedSpecifier reference base.text "empty reference")
  else
    match read (some base) reference with
    | .ok s => .ok s
    | .error fault => .error (.malformedSpecifier reference base.text fault.message)

/-- Whether a character stands for itself in a segment of a path. -/
def isPlainSegment (c : Char) : Bool := Path.isPlain c && !"/%\\".toList.contains c

/-- The components of a path: the names between slashes, without the empty ones and the ones that
stand for the directory itself. -/
def components (path : List Char) : List (List Char) :=
  (splitAt '/' path).filter fun name => !(name.isEmpty || name = ['.'])

/-- The specifier of an absolute path; every spelling of a path has the same one. -/
def ofPath (path : String) : Except LoadError Specifier :=
  let segments := (components path.toList).map (percentEncode isPlainSegment)
  let url := "file://".toList ++ (if segments.isEmpty then ['/'] else segments.flatMap ('/' :: ·))
  match read none (String.ofList url) with
  | .ok s => .ok s
  | .error fault => .error (.malformedSpecifier path "" fault.message)

/-- Whether the bytes of a path end in a drive letter. -/
def endsInDriveLetter (bytes : List UInt8) : Bool :=
  match bytes.reverse with
  | mark :: letter :: _ :: _ =>
    Path.isDriveLetter [Char.ofNat letter.toNat, Char.ofNat mark.toNat]
  | _ => false

/-- The bytes of the path of a local file. -/
def filePath (s : Specifier) : Except LoadError (List UInt8) :=
  if !s.isLocal then .error (.malformedSpecifier s.text "" "not a file: specifier")
  else if !s.authority.host.isEmpty then
    .error (.malformedSpecifier s.text "" "not a local file path")
  else
    let bytes := percentDecode s.path
    .ok (if endsInDriveLetter bytes then bytes ++ String.utf8EncodeChar '/' else bytes)

/-- The path of a local file as it is shown. -/
def filePathText (s : Specifier) : Except LoadError String :=
  s.filePath.map fun bytes => String.ofList (ofBytesForgiving bytes)

end Specifier

end ModuleLinker
