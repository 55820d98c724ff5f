/-!
# Lines

A line ends at a line feed; a carriage return right before that line feed belongs to the line
ending. A text that does not end in a line feed has a last line without ending, and a text that
does has no empty line after it.

* `lines` gives the lines without their endings;
* `splitAtFeeds` cuts at every line feed and keeps all else.
-/

namespace Worksheet.Text

/-- The lines of a text, each without its line ending. -/
def lines : List Char → List (List Char)
  | [] => []
  | '\n' :: rest => [] :: lines rest
  | '\r' :: '\n' :: rest => [] :: lines rest
  | c :: rest =>
    match lines rest with
    | [] => [[c]]
    | line :: others => (c :: line) :: others

/-- The pieces between line feeds, one more than there are line feeds. -/
def splitAtFeeds : List Char → List (List Char)
  | [] => [[]]
  | '\n' :: rest => [] :: splitAtFeeds rest
  | c :: rest =>
    match splitAtFeeds rest with
    | [] => [[c]]
    | piece :: others => (c :: piece) :: others

end Worksheet.Text
