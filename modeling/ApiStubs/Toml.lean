/-!
# TOML — the settings format

A settings file is a list of keys with texts and lists of texts. Everything else that the format
knows (numbers, dates, tables, dotted keys) has no setting it could belong to, so a text is
refused where any of it begins, like a text that is not well formed at all.

Texts are written in double or single marks, on one line or, in three marks, on several. A line
end in a text counts as one character, however the file marks it.
-/

namespace ApiStubs.Toml

/-- A value that a setting can have. -/
inductive Value
  | text (s : String)
  | list (items : List String)
  deriving DecidableEq, Inhabited

/-- A blank within a line. -/
def isBlank (c : Char) : Bool := c = ' ' || c = '\t'

/-- A character that may stand in a comment or a text as it is: no control character but the
tab. -/
def isPlain (c : Char) : Bool := c = '\t' || (' ' ≤ c && c ≠ '\x7f')

/-- What follows the end of a line; the end of the file is one. -/
def afterLineEnd? : List Char → Option (List Char)
  | [] => some []
  | '\n' :: rest => some rest
  | '\r' :: '\n' :: rest => some rest
  | _ => none

/-- What follows the blanks, and the comment if there is one, up to the end of the line. -/
def afterRemark (text : List Char) : List Char :=
  match text.dropWhile isBlank with
  | '#' :: rest => rest.dropWhile isPlain
  | rest => rest

/-- What follows blanks, comments and line ends. -/
def afterGap : Nat → List Char → List Char
  | 0, text => text
  | limit + 1, text =>
    match afterRemark text with
    | [] => []
    | rest =>
      match afterLineEnd? rest with
      | some more => afterGap limit more
      | none => rest

/-! ### Texts -/

/-- The number that hexadecimal digits write. -/
def hexNumber : List Char → Option Nat
  | digits => digits.foldl (fun total c => do
      let total ← total
      let digit ←
        if c.isDigit then some (c.toNat - '0'.toNat)
        else if 'a' ≤ c && c ≤ 'f' then some (c.toNat - 'a'.toNat + 10)
        else if 'A' ≤ c && c ≤ 'F' then some (c.toNat - 'A'.toNat + 10)
        else none
      return total * 16 + digit) (some 0)

/-- The character with the given number of hexadecimal digits as its code point. -/
def coded? (count : Nat) (text : List Char) : Option (Char × List Char) := do
  guard (count ≤ text.length)
  let code ← hexNumber (text.take count)
  if h : code.isValidChar then return (Char.ofNatAux code h, text.drop count) else none

/-- The character an escape stands for, given the text behind its backslash. -/
def escape? : List Char → Option (Char × List Char)
  | [] => none
  | c :: rest =>
    match c with
    | 'b' => some ('\x08', rest)
    | 't' => some ('\t', rest)
    | 'n' => some ('\n', rest)
    | 'f' => some ('\x0c', rest)
    | 'r' => some ('\r', rest)
    | '"' => some ('"', rest)
    | '\\' => some ('\\', rest)
    | 'u' => coded? 4 rest
    | 'U' => coded? 8 rest
    | _ => none

/-- A text on one line, up to its closing mark; `escapes` tells whether a backslash is special. -/
def line? (mark : Char) (escapes : Bool) : Nat → List Char → Option (List Char × List Char)
  | 0, _ => none
  | _ + 1, [] => none
  | limit + 1, c :: rest =>
    if c = mark then some ([], rest)
    else if c = '\\' && escapes then do
      let (d, more) ← escape? rest
      let (s, after) ← line? mark escapes limit more
      return (d :: s, after)
    else if isPlain c then do
      let (s, after) ← line? mark escapes limit rest
      return (c :: s, after)
    else none

/-- A text on several lines, up to its three closing marks. One or two marks right in front of
those belong to the text. A backslash at the end of a line hides the line end and all blanks and
line ends behind it. -/
def lines? (mark : Char) (escapes : Bool) : Nat → List Char → Option (List Char × List Char)
  | 0, _ => none
  | _ + 1, [] => none
  | limit + 1, c :: rest =>
    if c = mark then
      let run := 1 + (rest.takeWhile (· = mark)).length
      let behind := rest.dropWhile (· = mark)
      if run < 3 then do
        let (s, after) ← lines? mark escapes limit behind
        return (List.replicate run mark ++ s, after)
      else if run ≤ 5 then some (List.replicate (run - 3) mark, behind)
      else none
    else if c = '\\' && escapes then
      match afterLineEnd? (rest.dropWhile isBlank) with
      | some more =>
        lines? mark escapes limit (skipped more)
      | none => do
        let (d, more) ← escape? rest
        let (s, after) ← lines? mark escapes limit more
        return (d :: s, after)
    else if isPlain c then do
      let (s, after) ← lines? mark escapes limit rest
      return (c :: s, after)
    else do
      let more ← afterLineEnd? (c :: rest)
      let (s, after) ← lines? mark escapes limit more
      return ('\n' :: s, after)
where
  /-- What follows blanks and line ends. -/
  skipped : List Char → List Char
    | '\r' :: '\n' :: rest => skipped rest
    | c :: rest => if isBlank c || c = '\n' then skipped rest else c :: rest
    | [] => []

/-- A text in marks. A line end right behind three opening marks is no part of it. -/
def text? (text : List Char) : Option (String × List Char) := do
  let limit := text.length + 1
  let several (mark : Char) (escapes : Bool) (rest : List Char) := do
    let body := match rest with
      | '\n' :: more => more
      | '\r' :: '\n' :: more => more
      | _ => rest
    lines? mark escapes limit body
  let (s, after) ← match text with
    | '"' :: '"' :: '"' :: rest => several '"' true rest
    | '\'' :: '\'' :: '\'' :: rest => several '\'' false rest
    | '"' :: rest => line? '"' true limit rest
    | '\'' :: rest => line? '\'' false limit rest
    | _ => none
  return (String.ofList s, after)

/-! ### Values, keys and files -/

/-- The items of a list behind its opening bracket; a comma may follow the last one. -/
def items? : Nat → List Char → Option (List String × List Char)
  | 0, _ => none
  | limit + 1, text =>
    match afterGap text.length text with
    | ']' :: rest => some ([], rest)
    | start => do
      let (item, behind) ← text? start
      match afterGap behind.length behind with
      | ',' :: rest => do
        let (others, after) ← items? limit rest
        return (item :: others, after)
      | ']' :: rest => return ([item], rest)
      | _ => none

/-- A value. -/
def value? : List Char → Option (Value × List Char)
  | '[' :: rest => (items? (rest.length + 1) rest).map fun (items, after) => (.list items, after)
  | text => (text? text).map fun (s, after) => (.text s, after)

/-- A character of a key without marks. -/
def isKeyCharacter (c : Char) : Bool := c.isAlphanum || c = '_' || c = '-'

/-- A key: letters, digits, `_` and `-`, or any text on one line in marks. -/
def key? (text : List Char) : Option (String × List Char) :=
  match text with
  | '"' :: rest => (line? '"' true (text.length + 1) rest).map fun (s, r) => (String.ofList s, r)
  | '\'' :: rest => (line? '\'' false (text.length + 1) rest).map fun (s, r) => (String.ofList s, r)
  | _ =>
    match text.takeWhile isKeyCharacter with
    | [] => none
    | key => some (String.ofList key, text.dropWhile isKeyCharacter)

/-- The keys of a file with their values, in the order of writing. -/
def entriesFrom : Nat → List Char → Option (List (String × Value))
  | 0, _ => none
  | limit + 1, text =>
    match afterGap text.length text with
    | [] => some []
    | start => do
      let (key, afterKey) ← key? start
      let '=' :: right := afterKey.dropWhile isBlank | none
      let (value, behind) ← value? (right.dropWhile isBlank)
      let next ← afterLineEnd? (afterRemark behind)
      let others ← entriesFrom limit next
      return (key, value) :: others

/-- The entries of a file. A key may stand there once; a byte order mark in front is no part of
the text. -/
def entries? (text : String) : Option (List (String × Value)) := do
  let entries ← entriesFrom (text.length + 1) (match text.toList with
    | '\uFEFF' :: rest => rest
    | rest => rest)
  guard (entries.map Prod.fst).Nodup
  return entries

end ApiStubs.Toml
