import Worksheet.Dict
import Worksheet.Text.Blank
/-!
# Tags

A tags cell holds tags between commas. Read as a list, white space around a tag does not count, an
empty tag is none, and of equal tags the first one stays.

* `Tags.parse`, `Tags.join`, `Tags.clean`;
* `Tags.replace` puts other tags in the place of some.
-/

namespace Worksheet.Tags

open Worksheet.Text

/-- The pieces of a text between commas, one more than there are commas. -/
def splitAtCommas : List Char → List (List Char)
  | [] => [[]]
  | ',' :: rest => [] :: splitAtCommas rest
  | c :: rest =>
    match splitAtCommas rest with
    | [] => [[c]]
    | piece :: others => (c :: piece) :: others

/-- The tags that are not empty, the first one of equal ones alone. -/
def distinct (tags : List String) : List String :=
  (tags.filter (· != "")).eraseDups

/-- The tags in a text. -/
def parse (s : String) : List String :=
  distinct ((splitAtCommas s.toList).map fun piece => String.ofList (trim piece))

/-- The text of a list of tags. -/
def join (tags : List String) : String :=
  ", ".intercalate tags

/-- The text with each tag once, and a comma and a blank between tags. -/
def clean (s : String) : String :=
  join (parse s)

/-- The text with other tags in the place of those that the dictionary names. A tag goes when an empty
text takes its place. -/
def replace (names : Dict String) (s : String) : String :=
  join (distinct ((parse s).map fun tag => (names.find? tag).getD tag))

end Worksheet.Tags
