import SpatialIndex.Text.Invisible

/-!
# Quoted text

Names in descriptions of records stand between double quotes.  A quote or a backslash in a name
follows a backslash, and what would not be seen on its own is written as its code point.
-/

namespace SpatialIndex

/-- A character between quotes. -/
def quotedChar (c : Char) : String :=
  match c with
  | '"' => "\\\""
  | '\\' => "\\\\"
  | '\n' => "\\n"
  | '\r' => "\\r"
  | '\t' => "\\t"
  | '\x00' => "\\0"
  | c =>
    if isInvisible c then "\\u\x7b" ++ String.ofList (Nat.toDigits 16 c.toNat) ++ "\x7d"
    else c.toString

/-- A text in quotes. -/
def quoted (text : String) : String := "\"" ++ String.join (text.toList.map quotedChar) ++ "\""

/-- Texts in brackets, parted by commas. -/
def listText (texts : List String) : String := "[" ++ ", ".intercalate texts ++ "]"

end SpatialIndex
