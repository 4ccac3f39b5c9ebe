import SpatialIndex.Config.Json

/-!
# Configurations as TOML documents

A document gives its settings one after the other, each ended by its line or a comment.  It must be
well formed as a whole before any setting is looked at.  Besides a number, a truth value or a
string, a setting may be a table with one empty member, which stands for the name of the member;
such a table is written between braces, with dotted names, or under a header.
-/

namespace SpatialIndex

namespace Config

namespace Toml

/-- A value in a document. -/
inductive Value
  /-- A whole number. -/
  | integer (n : Int)
  /-- A string. -/
  | string (text : String)
  /-- A truth value. -/
  | truth (b : Bool)
  /-- A table or an array without members. -/
  | empty
  /-- A table whose one member is empty. -/
  | choice (name : String)

/-- A character that may stand between any two tokens of a line. -/
def isBlank (c : Char) : Bool := c = ' ' || c = '\t'

/-- A character of a name that needs no quotes. -/
def isBare (c : Char) : Bool := c.isAlphanum || c = '_' || c = '-'

/-- A character that may stand in comments and strings of one line. -/
def isText (c : Char) : Bool := c = '\t' || (0x20 ≤ c.toNat && c.toNat ≠ 0x7f)

/-- Characters with blanks in front removed. -/
def skipBlanks (text : List Char) : List Char := text.dropWhile isBlank

/-- The text with every line ended by a line feed alone. -/
def withLineFeeds : List Char → List Char
  | '\r' :: '\n' :: rest => '\n' :: withLineFeeds rest
  | c :: rest => c :: withLineFeeds rest
  | [] => []

/-- Skips blanks, line ends and comments. -/
def skipGap? : (comment : Bool) → List Char → Option (List Char)
  | _, [] => some []
  | _, '\n' :: rest => skipGap? false rest
  | true, c :: rest => if isText c then skipGap? true rest else none
  | false, '#' :: rest => skipGap? true rest
  | false, c :: rest => if isBlank c then skipGap? false rest else some (c :: rest)

/-- What a character stands for after a backslash. -/
def escape? : Char → Option Char
  | '/' => none
  | c => Json.escape? c

/-- The character whose code point hexadecimal digits give, if there are `count` of them. -/
def codePoint? (count : Nat) (digits : List Char) : Option Char :=
  match digits.mapM Json.hexDigit? with
  | some values =>
    let n := values.foldl (fun n d => n * 16 + d) 0
    if values.length = count ∧ n.isValidChar then some (.ofNat n) else none
  | none => none

/-- The characters up to the closing quote, and the text after it.  Three quotes close a string that
may hold line ends; in such a string a backslash before a line end takes away all blanks and line
ends that follow. -/
def quoted? (lines : Bool) (text : List Char) : Option (List Char × List Char) :=
  let first (c : Char) : List Char × List Char → List Char × List Char
    | (chars, rest) => (c :: chars, rest)
  match text with
  | [] => none
  | '"' :: rest =>
    if !lines then some ([], rest)
    else if ['"', '"'].isPrefixOf rest then some ([], rest.drop 2)
    else (quoted? lines rest).map (first '"')
  | '\\' :: 'u' :: rest =>
    (codePoint? 4 (rest.take 4)).bind fun c => (quoted? lines (rest.drop 4)).map (first c)
  | '\\' :: 'U' :: rest =>
    (codePoint? 8 (rest.take 8)).bind fun c => (quoted? lines (rest.drop 8)).map (first c)
  | '\\' :: c :: rest =>
    if lines && (skipBlanks (c :: rest)).head? = some '\n' then
      quoted? lines (rest.dropWhile fun c => isBlank c || c = '\n')
    else (escape? c).bind fun c => (quoted? lines rest).map (first c)
  | c :: rest =>
    if c ≠ '\\' ∧ (isText c ∨ lines ∧ c = '\n') then (quoted? lines rest).map (first c) else none
termination_by text.length
decreasing_by
  all_goals simp_all only [List.length_cons, List.length_drop]
  all_goals first
    | omega
    | have := (List.dropWhile_sublist (l := rest) fun c => isBlank c || c = '\n').length_le; omega

/-- The characters up to the closing apostrophe, or the three of a string that may hold line ends,
and the text after it. -/
def literal? (lines : Bool) : List Char → Option (List Char × List Char)
  | [] => none
  | '\'' :: rest =>
    if !lines then some ([], rest)
    else if ['\'', '\''].isPrefixOf rest then some ([], rest.drop 2)
    else (literal? lines rest).map fun (chars, rest) => ('\'' :: chars, rest)
  | c :: rest =>
    if isText c || (lines && c = '\n') then
      (literal? lines rest).map fun (chars, rest) => (c :: chars, rest)
    else none

/-- Takes a string off the front of the text. -/
def string? : List Char → Option (String × List Char)
  | '"' :: '"' :: '"' :: rest =>
    (quoted? true (afterLineEnd rest)).map fun (chars, rest) => (.ofList chars, rest)
  | '"' :: rest => (quoted? false rest).map fun (chars, rest) => (.ofList chars, rest)
  | '\'' :: '\'' :: '\'' :: rest =>
    (literal? true (afterLineEnd rest)).map fun (chars, rest) => (.ofList chars, rest)
  | '\'' :: rest => (literal? false rest).map fun (chars, rest) => (.ofList chars, rest)
  | _ => none
where
  /-- A line end right after the opening quotes does not count. -/
  afterLineEnd : List Char → List Char
    | '\n' :: rest => rest
    | rest => rest

/-- Takes a name off the front of the text. -/
def name? : List Char → Option (String × List Char)
  | '"' :: rest => (quoted? false rest).map fun (chars, rest) => (.ofList chars, rest)
  | '\'' :: rest => (literal? false rest).map fun (chars, rest) => (.ofList chars, rest)
  | text =>
    let chars := text.takeWhile isBare
    if chars.isEmpty then none else some (.ofList chars, text.dropWhile isBare)

/-- Takes a name, or two joined by a dot, off the front of the text, with the blanks around. -/
def path? (text : List Char) : Option (List String × List Char) := do
  let (name, rest) ← name? (skipBlanks text)
  match skipBlanks rest with
  | '.' :: rest =>
    let (inner, rest) ← name? (skipBlanks rest)
    return ([name, inner], skipBlanks rest)
  | rest => return ([name], rest)

/-- The value of digits in which single low lines may part the digits. -/
def digits? (base : Nat) : (after : Bool) → Nat → List Char → Option Nat
  | after, n, [] => if after then some n else none
  | after, n, '_' :: rest => if after then digits? base false n rest else none
  | _, n, c :: rest =>
    match Json.hexDigit? c with
    | some d => if d < base then digits? base true (n * base + d) rest else none
    | none => none

/-- The whole number that a word stands for. -/
def integer? : List Char → Option Int
  | '0' :: 'x' :: rest => (digits? 16 false 0 rest).map (Int.ofNat ·)
  | '0' :: 'o' :: rest => (digits? 8 false 0 rest).map (Int.ofNat ·)
  | '0' :: 'b' :: rest => (digits? 2 false 0 rest).map (Int.ofNat ·)
  | '+' :: rest => (decimal? rest).map (Int.ofNat ·)
  | '-' :: rest => (decimal? rest).map fun n => -Int.ofNat n
  | word => (decimal? word).map (Int.ofNat ·)
where
  /-- Decimal digits without a needless nought in front. -/
  decimal? (word : List Char) : Option Nat :=
    if word.head? = some '0' ∧ 1 < word.length then none else digits? 10 false 0 word

/-- The value that a word stands for. -/
def wordValue? (word : List Char) : Option Value :=
  if word = "true".toList then some (.truth true)
  else if word = "false".toList then some (.truth false)
  else
    match integer? word with
    | some n =>
      if Int64.minValue.toInt ≤ n ∧ n ≤ Int64.maxValue.toInt then some (.integer n) else none
    | none => none

/-- Takes a table or an array without members off the front of the text. -/
def empty? : List Char → Option (List Char)
  | '\x7b' :: rest =>
    match skipBlanks rest with
    | '\x7d' :: rest => some rest
    | _ => none
  | '[' :: rest =>
    match skipGap? false rest with
    | some (']' :: rest) => some rest
    | _ => none
  | _ => none

/-- Takes a table with one empty member off the front of the text. -/
def choice? : List Char → Option (String × List Char)
  | '\x7b' :: rest => do
    let (name, rest) ← name? (skipBlanks rest)
    match skipBlanks rest with
    | '=' :: rest =>
      match skipBlanks (← empty? (skipBlanks rest)) with
      | '\x7d' :: rest => return (name, rest)
      | _ => none
    | _ => none
  | _ => none

/-- Takes a value off the front of the text. -/
def value? (text : List Char) : Option (Value × List Char) :=
  if text.head? = some '"' ∨ text.head? = some '\'' then
    (string? text).map fun (text, rest) => (.string text, rest)
  else if text.head? = some '[' ∨ text.head? = some '\x7b' then
    ((empty? text).map fun rest => (.empty, rest)).or
      ((choice? text).map fun (name, rest) => (.choice name, rest))
  else
    let isWord (c : Char) : Bool := isBare c || c = '+'
    (wordValue? (text.takeWhile isWord)).map fun value => (value, text.dropWhile isWord)

/-- A statement of a document. -/
inductive Statement
  /-- A member of the document, or of the table whose header stands before. -/
  | member (path : List String) (value : Value)
  /-- The header of a table. -/
  | header (path : List String)

/-- Takes a statement off the front of the text. -/
def statement? : List Char → Option (Statement × List Char)
  | '[' :: rest => do
    match ← path? rest with
    | (path, ']' :: rest) => return (.header path, rest)
    | _ => none
  | text => do
    match ← path? text with
    | (path, '=' :: rest) =>
      let (value, rest) ← value? (skipBlanks rest)
      return (.member path value, rest)
    | _ => none

/-- Nothing is left of the line but blanks and a comment. -/
def isLineEnd (text : List Char) : Bool :=
  match skipBlanks text with
  | [] => true
  | c :: _ => c = '\n' || c = '#'

/-- The statements of a text, each of which has one character or more. -/
def statements? : (fuel : Nat) → List Char → Option (List Statement)
  | 0, _ => none
  | fuel + 1, text => do
    match ← skipGap? false text with
    | [] => return []
    | text =>
      let (statement, rest) ← statement? text
      if isLineEnd rest then return statement :: (← statements? fuel rest) else none

/-- The settings that statements give, by name.  No more than one setting can be a table, so at
most one table has a header, and its member either has a header as well or follows. -/
def settings? : List Statement → Option (List (String × Value))
  | [] => some []
  | [.header [name, choice]] => some [(name, .choice choice)]
  | [.header [name], .member [choice] .empty] => some [(name, .choice choice)]
  | [.header [name], .header [again, choice]] =>
    if again = name then some [(name, .choice choice)] else none
  | [.header [again, choice], .header [name]] =>
    if again = name then some [(name, .choice choice)] else none
  | .member [name] value :: rest => (settings? rest).map ((name, value) :: ·)
  | .member [name, choice] .empty :: rest =>
    (settings? rest).map ((name, .choice choice) :: ·)
  | _ => none

/-- A value of a document as the value of a setting. -/
def fieldValue? : Field → Value → Option FieldValue
  | .sortKey, .string name => (SortKey.ofName? name).map .sortKey
  | .sortKey, .choice name => (SortKey.ofName? name).map .sortKey
  | .enableIndexScan, .truth b => some (.truth b)
  | .sortKey, _ => none
  | .enableIndexScan, _ => none
  | _, .integer n => if 0 ≤ n then some (.number n.toNat) else none
  | _, _ => none

/-- The configuration of settings by name. -/
def ofPairs? : (seen : List Field) → Config → List (String × Value) → Option Config
  | _, config, [] => some config
  | seen, config, (name, value) :: rest =>
    match Field.ofName? name with
    | none => none
    | some field =>
      if seen.contains field then none
      else
        match fieldValue? field value with
        | some value => ofPairs? (field :: seen) (config.withValue field value) rest
        | none => none

end Toml

/-- Reads a TOML document and checks the ranges of its settings; what it leaves out has its
default.  A byte order mark in front does not count. -/
def ofToml (text : String) : Except ConfigFault Config :=
  let text := Toml.withLineFeeds text.toList
  let text := if text.head? = some '\ufeff' then text.tail else text
  match (Toml.statements? (text.length + 1) text).bind Toml.settings? with
  | none => .error .malformed
  | some settings =>
    match Toml.ofPairs? [] {} settings with
    | none => .error .malformed
    | some config => config.validate.map fun _ => config

/-- The settings as a TOML document, one on a line, unless one of them exceeds the numbers that
the format has. -/
def toToml? (c : Config) : Option String :=
  let fits : FieldValue → Bool
    | .number n => n ≤ Int64.maxValue.toInt
    | _ => true
  if Field.all.all fun field => fits (c.value field) then
    some <| String.join <| Field.all.map fun field =>
      field.name ++ " = " ++ Json.valueText (c.value field) ++ "\n"
  else none

end Config

end SpatialIndex
