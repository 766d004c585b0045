import EntityScaffold.Text.Basic

/-!
# Why a class file is refused

The causes for which a text is not read as a class, or an edit of a class is refused, with their
place and their wording.
-/

set_option autoImplicit false

namespace EntityScaffold.Source

open Text

/-- What is wrong with a text. -/
inductive Defect where
  | unterminatedString
  | unterminatedComment
  | unterminatedHeredoc
  | noClass
  | severalClasses (count : Nat)
  | unbalancedClass (className : Text)
  | codeAfterClass
  | unterminatedMember
  | unterminatedMethod (method : Text)
  | unsupportedMember (excerpt : Text)
  | notOneMember (count : Nat)
  | noBody (method : Text)
  | notAProperty
  | notAMethod
  deriving DecidableEq, Repr

/-- The wording of a defect. -/
def Defect.reason : Defect → Text
  | .unterminatedString => "Unterminated string literal."
  | .unterminatedComment => "Unterminated block comment."
  | .unterminatedHeredoc => "Unterminated heredoc."
  | .noClass => "No class declaration found."
  | .severalClasses count => "Expected a single class, found " ++ ofNat count ++ "."
  | .unbalancedClass className => "Unbalanced braces in class '" ++ className ++ "'."
  | .codeAfterClass => "Unexpected code after the class body."
  | .unterminatedMember => "Class member is not terminated by ';' or '\x7d'."
  | .unterminatedMethod method => "Unterminated method '" ++ method ++ "'."
  | .unsupportedMember excerpt => "Unsupported class member: '" ++ excerpt ++ "'."
  | .notOneMember count => "Expected exactly one class member, found " ++ ofNat count ++ "."
  | .noBody method => "Cannot add statements to abstract method '" ++ method ++ "'."
  | .notAProperty => "Rendered fragment is not a property."
  | .notAMethod => "Rendered fragment is not a method."

/-- A defect at its place. -/
structure ParseError where
  defect : Defect
  line : Option Nat := none
  path : Option Text := none
  deriving DecidableEq, Repr

/-- The wording of the place, in front of the reason. -/
def ParseError.location (e : ParseError) : Text :=
  (match e.path with
    | some path => path ++ ": "
    | none => []) ++
  (match e.line with
    | some line => "line " ++ ofNat line ++ ": "
    | none => [])

def ParseError.message (e : ParseError) : Text := e.location ++ e.defect.reason

/-- A defect at a line. -/
def Defect.atLine (d : Defect) (line : Nat) : ParseError := { defect := d, line := some line }

/-- A defect without a place. -/
def Defect.anywhere (d : Defect) : ParseError := { defect := d }

end EntityScaffold.Source
