/-
  Mandate.Text.Lines
  ────────────────────────────────
  **LINE BREAKS.**

  A line of a file ends with a line feed, with a carriage return, or with both.
  Inside texts every line ends with a line feed alone.
-/

namespace Mandate.Text

/-- Characters with a line feed for every line break. -/
def withLineFeeds : List Char → List Char
  | [] => []
  | '\r' :: '\n' :: cs => '\n' :: withLineFeeds cs
  | '\r' :: cs => '\n' :: withLineFeeds cs
  | c :: cs => c :: withLineFeeds cs

end Mandate.Text
