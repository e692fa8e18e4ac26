namespace DspAsm.Text

/-- The pieces of a text between the characters that satisfy `cut`, which belong to no piece.
There is one piece more than there are cuts, so a piece may be empty. -/
def pieces (cut : Char → Bool) (text : List Char) : List (List Char) :=
  text.foldr (fun c found =>
    if cut c then [] :: found
    else match found with
      | [] => [[c]]
      | piece :: later => (c :: piece) :: later) [[]]

def dropReturn (line : List Char) : List Char :=
  if line.getLast? = some '\r' then line.dropLast else line

/-- The lines of a text. A line feed ends a line, alone or after a carriage return; what follows the last line feed is
a line of its own unless it is empty. -/
def lines (text : List Char) : List (List Char) :=
  let found := pieces (· == '\n') text
  found.dropLast.map dropReturn ++ (found.getLast?.filter (· ≠ [])).toList

end DspAsm.Text
