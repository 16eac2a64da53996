/-!
# What can be wrong with a source text

The causes for which a source text is rejected, their wording, and a cause together with the place
it was met at. Places count characters from the start of the text.
-/

set_option autoImplicit false

namespace ModuleLinker

/-- Why a source text is rejected. -/
inductive Complaint where
  /-- A block comment has no end. -/
  | unterminatedComment
  /-- A quoted string has no closing quote on its line. -/
  | unterminatedString
  /-- A template literal, or a substitution in it, has no end. -/
  | unterminatedTemplate
  /-- A regular expression has no closing slash on its line. -/
  | unterminatedRegex
  /-- No token starts with this character. -/
  | invalidCharacter (c : Char)
  /-- A closing bracket does not match the innermost open one. -/
  | unexpectedCloser (bracket : String)
  /-- An opening bracket has no partner. -/
  | neverClosed (bracket : String)
  /-- A type is missing. -/
  | typeExpected
  /-- A punctuator is missing. -/
  | punctuatorExpected (text : String)
  /-- The name of an enum is missing. -/
  | enumNameExpected
  /-- An enum member starts with neither a name nor a string. -/
  | enumMemberExpected
  /-- An enum member has an equals sign but no value. -/
  | expressionExpected
  /-- A parameter is neither a name nor a pattern. -/
  | parameterExpected
  /-- A class member has no name. -/
  | unexpectedInClass
  /-- A parameter outside a constructor has an access modifier. -/
  | propertyOutsideConstructor
  /-- A constructor parameter of a derived class has an access modifier. -/
  | propertyInDerivedClass
  /-- A parameter is decorated. -/
  | parameterDecorator
  /-- A namespace has content at run time. -/
  | namespaceBlock
  /-- An import binds by assignment. -/
  | importAssignment
  /-- An export binds by assignment. -/
  | exportAssignment
  deriving DecidableEq, Repr

/-- The wording of a complaint. -/
def Complaint.message : Complaint → String
  | unterminatedComment => "Unterminated comment"
  | unterminatedString => "Unterminated string literal"
  | unterminatedTemplate => "Unterminated template literal"
  | unterminatedRegex => "Unterminated regular expression"
  | invalidCharacter c => "Invalid character '" ++ c.toString ++ "'"
  | unexpectedCloser bracket => "Unexpected '" ++ bracket ++ "'"
  | neverClosed bracket => "'" ++ bracket ++ "' is never closed"
  | typeExpected => "Type expected"
  | punctuatorExpected text => "'" ++ text ++ "' expected"
  | enumNameExpected => "Enum name expected"
  | enumMemberExpected => "Enum member expected"
  | expressionExpected => "Expression expected"
  | parameterExpected => "Parameter declaration expected"
  | unexpectedInClass => "Unexpected token in class body"
  | propertyOutsideConstructor => "Parameter properties are only allowed in constructors"
  | propertyInDerivedClass => "Parameter properties are not supported in derived classes"
  | parameterDecorator => "Parameter decorators are not supported"
  | namespaceBlock => "Namespaces are not supported"
  | importAssignment => "Import assignments are not supported"
  | exportAssignment => "Export assignments are not supported"

/-- A complaint about the character at an offset; the length of the text stands for its end. -/
structure SourceError where
  /-- How many characters come before the place. -/
  offset : Nat
  /-- What is wrong there. -/
  complaint : Complaint
  deriving DecidableEq, Repr

/-- The same complaint in a text that has `n` characters before this one. -/
def SourceError.shifted (e : SourceError) (n : Nat) : SourceError :=
  { e with offset := e.offset + n }

end ModuleLinker
