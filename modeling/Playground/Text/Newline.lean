import Playground.Text
/-!
# Line breaks

A file may end its lines with a line feed, with a carriage return or with both
in this order. In the text of a document a line feed ends each of them.
-/

namespace Playground.Text

/-- A text with a line feed for every line break. -/
def withLineFeeds : Text → Text
  | [] => []
  | c :: rest =>
    if c = CodePoint.ofChar '\r' then
      match rest with
      | d :: after =>
        if d = CodePoint.ofChar '\n' then d :: withLineFeeds after
        else CodePoint.ofChar '\n' :: withLineFeeds (d :: after)
      | [] => [CodePoint.ofChar '\n']
    else c :: withLineFeeds rest

end Playground.Text
