/-!
# Command line arguments

What a command line asks for. Options that every command has can stand before and behind the name of
the command; behind it they win. An option may be given once on each side. What takes a value takes
it from behind an equals sign or from the next argument, unless that starts with a dash. After two
dashes there are no more options.
-/

set_option autoImplicit false

namespace ModuleLinker.Command

/-- What can be done. -/
inductive Task where
  /-- The modules that an entry imports are shown, as a tree or as JSON. -/
  | info (entry : String) (json : Bool)
  /-- The modules that entries import are linked, so that the cache has the remote ones. -/
  | cache (entries : List String)
  /-- The modules in the cache are listed. -/
  | list
  /-- The cache is made empty. -/
  | clear
  /-- The directory of the cache is shown. -/
  | directory
  deriving DecidableEq, Repr

/-- What a command line asks for. -/
structure Invocation where
  /-- A settings file beside the usual ones. -/
  config : Option String
  /-- The directory of the cache. -/
  cacheDirectory : Option String
  /-- What is to be done. -/
  task : Task
  deriving DecidableEq, Repr

/-- What becomes of a command line that is not carried out. -/
inductive Refusal where
  /-- Help is asked for. -/
  | help
  /-- The version of the program with a name is asked for. -/
  | version (program : String)
  /-- The command line is wrong. -/
  | usage
  deriving DecidableEq, Repr

/-- The name of a command. -/
inductive Name where
  /-- Shows what an entry imports. -/
  | info
  /-- Links entries. -/
  | cache
  /-- Lists the cache. -/
  | cacheList
  /-- Makes the cache empty. -/
  | cacheClear
  /-- Shows the directory of the cache. -/
  | cacheDir
  deriving DecidableEq, Repr

namespace Name

/-- How the name of a command is written. -/
def text : Name → String
  | info => "info"
  | cache => "cache"
  | cacheList => "cache-list"
  | cacheClear => "cache-clear"
  | cacheDir => "cache-dir"

/-- The command that is written in a way. -/
def ofText? (text : String) : Option Name :=
  [info, cache, cacheList, cacheClear, cacheDir].find? (·.text == text)

/-- How many arguments that are no options a command takes at most. -/
def maxOperands : Name → Option Nat
  | info => some 1
  | cache => none
  | cacheList | cacheClear | cacheDir => some 0

end Name

/-- An option that takes a value. -/
inductive ValueOption where
  /-- Names a settings file. -/
  | config
  /-- Names the directory of the cache. -/
  | cacheDir
  deriving DecidableEq, Repr

/-- The option with a name, if it takes a value. -/
def ValueOption.ofText? : String → Option ValueOption
  | "config" => some config
  | "cache-dir" => some cacheDir
  | _ => none

/-- What has been read of one side of a command line. -/
structure Side where
  /-- Whether more is to be told. -/
  verbose : Bool
  /-- A settings file. -/
  config : Option String
  /-- The directory of the cache. -/
  cacheDirectory : Option String
  /-- Whether JSON is asked for. -/
  json : Bool
  /-- The arguments that are no options. -/
  operands : List String
  deriving DecidableEq, Repr

namespace Side

/-- The side on which nothing has been read. -/
def empty : Side := ⟨false, none, none, false, []⟩

/-- Switches something on that may be switched on once. -/
def setOnce (already : Bool) (side : Side) : Except Refusal Side :=
  if already then .error .usage else .ok side

/-- Gives a value to an option. Values are not empty. -/
def setOption (side : Side) (option : ValueOption) (value : String) : Except Refusal Side :=
  match option with
  | .config => setOnce (side.config.isSome || value.isEmpty) { side with config := some value }
  | .cacheDir =>
    setOnce (side.cacheDirectory.isSome || value.isEmpty) { side with cacheDirectory := some value }

/-- Switches on what a name says, on the side of a command or before it. -/
def setFlag (side : Side) (command : Option Name) (name : String) : Except Refusal Side :=
  match name with
  | "verbose" => setOnce side.verbose { side with verbose := true }
  | "json" =>
    if command = some .info then setOnce side.json { side with json := true } else .error .usage
  | "help" => .error .help
  | "version" =>
    .error (.version ("spacey" ++ (command.elim "" fun name => "-" ++ name.text)))
  | _ => .error .usage

/-- Reads the letters behind one dash. -/
def setLetters (side : Side) (command : Option Name) : List Char → Except Refusal Side
  | [] => .ok side
  | 'v' :: more => do setLetters (← side.setFlag command "verbose") command more
  | 'h' :: _ => side.setFlag command "help"
  | 'V' :: _ => side.setFlag command "version"
  | _ => .error .usage

/-- Adds an argument that is no option. -/
def addOperand (side : Side) (command : Name) (value : String) : Except Refusal Side :=
  if command.maxOperands.any (· ≤ side.operands.length) then .error .usage
  else .ok { side with operands := side.operands ++ [value] }

/-- Adds arguments of which none is an option. -/
def addOperands (side : Side) (command : Name) : List String → Except Refusal Side
  | [] => .ok side
  | value :: more => do addOperands (← side.addOperand command value) command more

end Side

/-- Whether an argument starts an option. -/
def startsOption (argument : String) : Bool :=
  argument.startsWith "-" && argument != "-"

/-- The name and the value of an option that is written with two dashes. -/
def splitOption (argument : String) : String × Option String :=
  let cs := argument.toList.drop 2
  let name := cs.takeWhile (· != '=')
  let value := match cs.drop name.length with
    | _ :: value => some (String.ofList value)
    | [] => none
  (String.ofList name, value)

/-- Reads an option that is written with two dashes; gives the option whose value is still to come,
where there is one. -/
def readOption (side : Side) (command : Option Name) (argument : String) :
    Except Refusal (Side × Option ValueOption) :=
  match splitOption argument with
  | (name, some value) =>
    match ValueOption.ofText? name with
    | some option => (side.setOption option value).map (·, none)
    | none => .error .usage
  | (name, none) =>
    match ValueOption.ofText? name with
    | some option => .ok (side, some option)
    | none => (side.setFlag command name).map (·, none)

/-- Reads the value of an option. -/
def readValue (side : Side) (option : ValueOption) (argument : String) : Except Refusal Side :=
  if startsOption argument then .error .usage else side.setOption option argument

/-- Reads the arguments behind the name of a command, of which the first one may be the value of an
option. -/
def readBehind (side : Side) (command : Name) :
    Option ValueOption → List String → Except Refusal Side
  | none, [] => .ok side
  | some _, [] => .error .usage
  | some option, argument :: more => do
    readBehind (← readValue side option argument) command none more
  | none, argument :: more =>
    if argument = "--" then side.addOperands command more
    else if argument.startsWith "--" then do
      let (side, option) ← readOption side (some command) argument
      readBehind side command option more
    else if startsOption argument then do
      readBehind (← side.setLetters (some command) (argument.toList.drop 1)) command none more
    else do readBehind (← side.addOperand command argument) command none more

/-- Reads the arguments before the name of a command, of which the first one may be the value of an
option, and the name; gives the arguments behind. -/
def readBefore (side : Side) :
    Option ValueOption → List String → Except Refusal (Side × Name × List String)
  | _, [] => .error .usage
  | some option, argument :: more => do readBefore (← readValue side option argument) none more
  | none, argument :: more =>
    if argument.startsWith "--" then do
      let (side, option) ← readOption side none argument
      readBefore side option more
    else if startsOption argument then do
      readBefore (← side.setLetters none (argument.toList.drop 1)) none more
    else
      match Name.ofText? argument with
      | some name => .ok (side, name, more)
      | none => .error (if argument = "help" then .help else .usage)

/-- What is to be done by a command with what has been read behind its name. -/
def taskOf (side : Side) : Name → Except Refusal Task
  | .info =>
    match side.operands with
    | [entry] => .ok (.info entry side.json)
    | _ => .error .usage
  | .cache => if side.operands.isEmpty then .error .usage else .ok (.cache side.operands)
  | .cacheList => .ok .list
  | .cacheClear => .ok .clear
  | .cacheDir => .ok .directory

/-- What a command line asks for, where the environment can name the directory of the cache. A
directory without a name is refused on a side that does not name one itself. -/
def Invocation.read (cacheVariable : Option String) (arguments : List String) :
    Except Refusal Invocation := do
  let (before, name, more) ← readBefore .empty none arguments
  let behind ← readBehind .empty name none more
  let task ← taskOf behind name
  let both := before.cacheDirectory.isSome && behind.cacheDirectory.isSome
  if cacheVariable = some "" && !both then .error .usage
  else
    .ok ⟨behind.config <|> before.config,
      behind.cacheDirectory <|> before.cacheDirectory <|> cacheVariable, task⟩

end ModuleLinker.Command
