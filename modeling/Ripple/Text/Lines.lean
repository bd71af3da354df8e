/-!
# Lines

A line ends with a line feed, or with a carriage return and a line feed. What comes after the
last line feed is a line of its own unless it is empty.
-/

namespace Ripple.Text

/-- The lines of a text without their ends. -/
def lines : List Char → List (List Char)
  | [] => []
  | '\n' :: rest => [] :: lines rest
  | '\r' :: '\n' :: rest => [] :: lines rest
  | c :: rest =>
    match lines rest with
    | [] => [[c]]
    | line :: others => (c :: line) :: others

end Ripple.Text
