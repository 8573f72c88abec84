/-! The lines of a text. A line ends at a line feed, and a carriage return just before that line feed
belongs to the end too. After the last line feed there is one more line only if it is not empty, and
it keeps all its characters. -/

namespace PatternText

/-- The lines of a text, without their ends. -/
def splitLines (text : String) : List String :=
  go [] text.toList
where
  go (current : List Char) : List Char → List String
    | [] => if current.isEmpty then [] else [close current]
    | '\n' :: rest =>
      let line := match current with
        | '\r' :: line => line
        | line => line
      close line :: go [] rest
    | c :: rest => go (c :: current) rest
  close (line : List Char) : String := String.ofList line.reverse

end PatternText
