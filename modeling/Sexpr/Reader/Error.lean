import Sexpr.Text.Shown

/-!
# Read errors

Why a text is no datum, and where. A cause holds what was found in place of what
was expected, when that helps; the place is the name of the text and the line on
which reading stopped. Reading stops at the first error.
-/

namespace Sexpr

/-- Why reading failed. A character that was found is absent at the end of the
text. -/
inductive Cause where
  /-- The text ended where a datum was expected. -/
  | nothingToRead
  /-- Something follows the one datum of the text. -/
  | trailingContent (found : Char)
  /-- A point without a digit. -/
  | invalidNumber
  /-- No number after the slash of a quotient. -/
  | missingDenominator
  /-- The number after the slash is zero. -/
  | divisionByZero
  /-- An imaginary part does not end in its unit. -/
  | missingImaginaryUnit (found : Option Char)
  /-- A list is not closed where it has to be. -/
  | unclosedList (found : Option Char)
  /-- A list begins with a dot. -/
  | dotWithoutItem
  /-- A list ends right after its dot. -/
  | missingItemAfterDot
  /-- The text ends inside a string. -/
  | unterminatedString
  /-- A vector, which is recognised but not read. -/
  | vectorUnsupported
  /-- No other token begins with a number sign and this character. -/
  | invalidHashToken (found : Option Char)
  /-- The depth that the settings allow is used up. -/
  | nestingTooDeep
deriving DecidableEq

/-- What was found, in words. -/
def foundText : Option Char → String
  | some c => shownInMessage c
  | none => "end of input"

/-- The cause in words. -/
def Cause.text : Cause → String
  | nothingToRead => "nothing to be parsed"
  | trailingContent found => "expecting end of code, got " ++ foundText (some found)
  | invalidNumber => "invalid number format"
  | missingDenominator => "invalid number format, expecting denominator"
  | divisionByZero => "invalid number format, division by zero"
  | missingImaginaryUnit found =>
    "invalid number format, expecting 'i' for complex, got " ++ foundText found
  | unclosedList found => "expected ')', got " ++ foundText found
  | dotWithoutItem => "'.' without preceding item"
  | missingItemAfterDot => "missing item after '.'"
  | unterminatedString => "expecting '\"' to end a string"
  | vectorUnsupported => "vector literals are not supported"
  | invalidHashToken found => "invalid '#' token, got " ++ foundText found ++ " after '#'"
  | nestingTooDeep => "nesting too deep"

/-- A cause and where it arose. -/
structure ReadError where
  cause : Cause
  /-- The name of the text, such as the path of a file. -/
  name : String
  line : UInt32
deriving DecidableEq

/-- The error on one line: name, line and cause. -/
def ReadError.message (e : ReadError) : String :=
  e.name ++ ":" ++ toString e.line.toNat ++ " " ++ e.cause.text

end Sexpr
