import DspAsm.Text.Blank
import DspAsm.Text.Split

namespace DspAsm.Text

def stripComment (line : List Char) : List Char :=
  line.takeWhile (· ≠ ';')

def isSeparator (c : Char) : Bool :=
  isBlank c || c == ','

/-- The text in upper case. Only the letters of ASCII have one here. -/
def upper (text : List Char) : List Char :=
  text.map Char.toUpper

def tokens (line : List Char) : List String :=
  ((pieces isSeparator (stripComment line)).filter (· ≠ [])).map fun piece => String.ofList (upper piece)

end DspAsm.Text
