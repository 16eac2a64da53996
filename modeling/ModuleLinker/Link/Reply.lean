import ModuleLinker.Specifier

/-!
# Replies of servers

What a server answers when it is asked for a module, when the answer arrives, and what a fetch makes
of it under a deadline. Times are in milliseconds. A reply that arrives at the deadline is in time.
-/

set_option autoImplicit false

namespace ModuleLinker.Link

/-- The answer of a server. -/
structure Response where
  /-- The status. -/
  status : Nat
  /-- The body. -/
  body : String
  deriving DecidableEq, Repr

/-- Whether a status says that the request succeeded. -/
def isSuccess (status : Nat) : Bool := 200 ≤ status && status < 300

/-- What comes of asking a server. -/
inductive Reply where
  /-- Nothing ever arrives. -/
  | hang
  /-- An answer, or the cause why there is none, arrives after some time. -/
  | after (delay : Nat) (answer : Except String Response)

/-- The digits of a fraction of a thousand, without zeros at the end. -/
def fractionText (thousandths : Nat) : String :=
  let digits := (toString (1000 + thousandths)).toList.drop 1
  String.ofList (digits.reverse.dropWhile (· == '0')).reverse

/-- How a time is shown. -/
def durationText (milliseconds : Nat) : String :=
  if milliseconds = 0 then "0ns"
  else if milliseconds < 1000 then toString milliseconds ++ "ms"
  else
    let whole := toString (milliseconds / 1000)
    let fraction := fractionText (milliseconds % 1000)
    if fraction.isEmpty then whole ++ "s" else whole ++ "." ++ fraction ++ "s"

/-- The error of a fetch whose deadline has passed. -/
def timedOut (s : Specifier) (timeout : Nat) : LoadError :=
  .fetchCause s.text ("timed out after " ++ durationText timeout)

/-- The source in an answer. -/
def accept (s : Specifier) : Except String Response → Except LoadError String
  | .error cause => .error (.fetchCause s.text cause)
  | .ok response =>
    if isSuccess response.status then .ok response.body
    else .error (.fetchStatus s.text response.status)

namespace Reply

/-- How long a fetch takes. -/
def duration (timeout : Nat) : Reply → Nat
  | hang => timeout
  | after delay _ => min delay timeout

/-- What a fetch has come to after some time; `none` while it is under way. -/
def outcome? (s : Specifier) (timeout elapsed : Nat) : Reply → Option (Except LoadError String)
  | hang => if timeout ≤ elapsed then some (.error (timedOut s timeout)) else none
  | after delay answer =>
    if delay ≤ elapsed then some (accept s answer)
    else if timeout ≤ elapsed then some (.error (timedOut s timeout))
    else none

end Reply

end ModuleLinker.Link
