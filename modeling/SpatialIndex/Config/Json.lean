import SpatialIndex.Config.Basic

/-!
# Configurations as JSON documents

A document is an object with some of the settings, or an array of their values in order.  It is
read from front to back, and the first fault ends the reading: a name that no setting has, or one
given before, counts as soon as it is read.
-/

namespace SpatialIndex

namespace Config

namespace Json

/-- A reader takes a value off the front of the text. -/
abbrev Reader (α : Type) := StateT (List Char) (Except ConfigFault) α

/-- The text is not well formed here. -/
def malformed {α : Type} : Reader α := throw .malformed

/-- A character that may stand between any two tokens. -/
def isBlank (c : Char) : Bool := c = ' ' || c = '\n' || c = '\t' || c = '\r'

/-- Skips blanks and shows the next character. -/
def peek : Reader (Option Char) := do
  modify (·.dropWhile isBlank)
  return (← get).head?

/-- Drops one character. -/
def advance : Reader Unit := modify List.tail

/-- Skips blanks and takes the given character. -/
def expect (c : Char) : Reader Unit := do
  if (← peek) = some c then advance else malformed

/-- Takes the given word. -/
def word (text : String) : Reader Unit := do
  match text.toList.isPrefixOf? (← get) with
  | some rest => set rest
  | none => malformed

/-- The value of a hexadecimal digit. -/
def hexDigit? (c : Char) : Option Nat :=
  if c.isDigit then some (c.toNat - '0'.toNat)
  else if 'a' ≤ c ∧ c ≤ 'f' then some (c.toNat - 'a'.toNat + 10)
  else if 'A' ≤ c ∧ c ≤ 'F' then some (c.toNat - 'A'.toNat + 10)
  else none

/-- The number that four hexadecimal digits stand for. -/
def hexUnit? (a b c d : Char) : Option Nat := do
  return (((← hexDigit? a) * 16 + (← hexDigit? b)) * 16 + (← hexDigit? c)) * 16 + (← hexDigit? d)

/-- What a character stands for after a backslash. -/
def escape? : Char → Option Char
  | '"' => some '"'
  | '\\' => some '\\'
  | '/' => some '/'
  | 'b' => some '\x08'
  | 'f' => some '\x0c'
  | 'n' => some '\n'
  | 'r' => some '\r'
  | 't' => some '\t'
  | _ => none

/-- The characters up to the closing quote, and the text after it. -/
def quoted? : List Char → Option (List Char × List Char)
  | [] => none
  | '"' :: rest => some ([], rest)
  | '\\' :: 'u' :: a :: b :: c :: d :: rest =>
    match hexUnit? a b c d with
    | none => none
    | some unit =>
      if unit < 0xD800 ∨ 0xE000 ≤ unit then
        (quoted? rest).map fun (chars, rest) => (.ofNat unit :: chars, rest)
      else if 0xDC00 ≤ unit then none
      else
        match rest with
        | '\\' :: 'u' :: a :: b :: c :: d :: rest =>
          match hexUnit? a b c d with
          | none => none
          | some low =>
            if 0xDC00 ≤ low ∧ low < 0xE000 then
              (quoted? rest).map fun (chars, rest) =>
                (.ofNat (0x10000 + (unit - 0xD800) * 0x400 + (low - 0xDC00)) :: chars, rest)
            else none
        | _ => none
  | '\\' :: c :: rest =>
    match escape? c with
    | none => none
    | some c => (quoted? rest).map fun (chars, rest) => (c :: chars, rest)
  | c :: rest =>
    if c.toNat < 0x20 ∨ c = '\\' then none
    else (quoted? rest).map fun (chars, rest) => (c :: chars, rest)

/-- Takes a string. -/
def string : Reader String := do
  expect '"'
  match quoted? (← get) with
  | some (chars, rest) => set rest; return .ofList chars
  | none => malformed

/-- Takes a whole number that fits 64 bits. -/
def number : Reader Nat := do
  let _ ← peek
  let text ← get
  let digits := text.takeWhile Char.isDigit
  let rest := text.dropWhile Char.isDigit
  let value := digits.foldl (fun n c => n * 10 + (c.toNat - '0'.toNat)) 0
  if digits.isEmpty ∨ digits.head? = some '0' ∧ 1 < digits.length then malformed
  else if rest.head? = some '.' ∨ rest.head? = some 'e' ∨ rest.head? = some 'E' then malformed
  else if UInt64.size ≤ value then malformed
  else set rest; return value

/-- Takes a truth value. -/
def truth : Reader Bool := do
  match ← peek with
  | some 't' => word "true"; return true
  | some 'f' => word "false"; return false
  | _ => malformed

/-- Takes the name of a coordinate. -/
def sortKeyName : Reader SortKey := do
  let name ← string
  match SortKey.ofName? name with
  | some key => return key
  | none => throw (.unknownSortKey name)

/-- Takes a coordinate: its name, or an object that gives null for it. -/
def sortKey : Reader SortKey := do
  match ← peek with
  | some '"' => sortKeyName
  | some '\x7b' =>
    advance
    let key ← sortKeyName
    expect ':'
    let _ ← peek
    word "null"
    expect '\x7d'
    return key
  | _ => malformed

/-- Takes the value of a setting. -/
def fieldValue : Field → Reader FieldValue
  | .sortKey => return .sortKey (← sortKey)
  | .enableIndexScan => return .truth (← truth)
  | _ => return .number (← number)

/-- Takes the members of an object after its opening brace.  At most as many are read as there
are settings, since none may be given twice. -/
def members : (fuel : Nat) → (seen : List Field) → Config → Reader Config
  | 0, _, _ => malformed
  | fuel + 1, seen, config => do
    let next ← peek
    if next = some '\x7d' then
      advance
      return config
    if !seen.isEmpty then expect ','
    let name ← string
    match Field.ofName? name with
    | none => throw (.unknownField name)
    | some field =>
      if seen.contains field then throw (.repeatedField name)
      expect ':'
      members fuel (field :: seen) (config.withValue field (← fieldValue field))

/-- Takes the elements of an array after its opening bracket: the values of the given settings in
order, of which the last may be missing. -/
def elements : (first : Bool) → List Field → Config → Reader Config
  | _, [], config => do
    expect ']'
    return config
  | first, field :: rest, config => do
    let next ← peek
    if next = some ']' then
      advance
      return config
    if !first then expect ','
    elements false rest (config.withValue field (← fieldValue field))

/-- Takes a document. -/
def document : Reader Config := do
  let config ← match ← peek with
    | some '\x7b' => advance; members (Field.all.length + 1) [] {}
    | some '[' => advance; elements true Field.all {}
    | _ => malformed
  if (← peek) ≠ none then malformed
  return config

/-- The value of a setting as text. -/
def valueText : FieldValue → String
  | .number n => toString n
  | .sortKey key => "\"" ++ key.name ++ "\""
  | .truth b => toString b

end Json

/-- Reads a JSON document and checks the ranges of its settings; what it leaves out has its
default. -/
def ofJson (text : String) : Except ConfigFault Config := do
  let (config, _) ← Json.document.run text.toList
  config.validate
  return config

/-- The settings as a JSON document, one on a line. -/
def toJson (c : Config) : String :=
  let lines := Field.all.map fun field =>
    "  \"" ++ field.name ++ "\": " ++ Json.valueText (c.value field)
  "\x7b\n" ++ ",\n".intercalate lines ++ "\n\x7d"

end Config

end SpatialIndex
