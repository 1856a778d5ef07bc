import TreeCheck.Text.Basic

/-!
# Texts in files

Files hold UTF-8. A reader may take every ending of a line for a line feed.
-/

namespace TreeCheck.Text

/-- The text that bytes encode, if they are UTF-8. -/
def ofUtf8? (bytes : ByteArray) : Option Text := (String.fromUTF8? bytes).map ofString

/-- Whether UTF-8 can encode a text: no surrogate stands alone in it. -/
def isEncodable (t : Text) : Bool :=
  t.all fun c ↦ c.toChar?.isSome

/-- Write a carriage return before a line feed as the line feed alone. -/
def joinLineEnds : Text → Text
  | .scalar '\r' :: .scalar '\n' :: rest => .scalar '\n' :: joinLineEnds rest
  | c :: rest => c :: joinLineEnds rest
  | [] => []

/-- Write every ending of a line as a line feed: a carriage return, a line feed, or both. -/
def unifyLineEnds (t : Text) : Text :=
  (joinLineEnds t).map fun c ↦ if c = .scalar '\r' then .scalar '\n' else c

end TreeCheck.Text
