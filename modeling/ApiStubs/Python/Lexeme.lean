import ApiStubs.Python.Identifier

/-!
# Python — lexemes

A source is read lexeme by lexeme. What a lexeme is depends on what may stand where it is looked
for: a line end is a token only where a statement may end, a deeper line opens a block only after
a colon, letters before a quotation mark belong to a string only where a string may start. The
reader says so with an `Expect`, and `Cursor.lexeme` answers.

The end of a line, a deeper line and a shallower line are tokens without characters: they leave
the text where it is and change at most the stack of open indentations.
-/

namespace ApiStubs.Python

/-- How a string literal was opened. -/
structure Quote where
  mark : Char
  triple : Bool
  raw : Bool
  bytes : Bool
  format : Bool
  deriving DecidableEq, Inhabited

/-- A token. -/
inductive Token
  | word (text : String)
  | number
  | symbol (text : String)
  /-- The opening of a string literal. -/
  | quote (q : Quote)
  | newline
  | indent
  | dedent
  /-- The end of the source. -/
  | stop
  /-- A character that starts no token. -/
  | stray
  deriving DecidableEq, Inhabited

/-- What may stand at a place, as far as the lexemes there depend on it. -/
structure Expect where
  newline : Bool := false
  indent : Bool := false
  dedent : Bool := false
  /-- A closing bracket. -/
  close : Bool := false
  /-- An `except` clause. -/
  handler : Bool := false
  quote : Bool := false
  deriving DecidableEq, Inhabited

/-- A place in a source, with what the reading up to it has left behind. -/
structure Cursor where
  /-- The text still to read. -/
  rest : List Char
  /-- The widths of the open indentations, the innermost first. -/
  indents : List Nat
  /-- The literal opened last is a format string and no literal has been closed since. -/
  inFormat : Bool
  /-- The identifiers read so far, the last one first. -/
  names : List String
  deriving DecidableEq, Inhabited

/-- The width of the innermost open indentation. -/
def Cursor.indentation (cursor : Cursor) : Nat := cursor.indents.headD 0

/-- The start of a source; a byte order mark in front is no part of it. -/
def Cursor.ofText (text : String) : Cursor :=
  match text.toList with
  | '\uFEFF' :: rest => ⟨rest, [], false, []⟩
  | rest => ⟨rest, [], false, []⟩

/-- A token with its surroundings. -/
structure Lexeme where
  token : Token
  /-- The text from the first character of the token on. -/
  start : List Char
  /-- The place behind the token. -/
  after : Cursor
  /-- A comment stands before the token. -/
  remarked : Bool
  /-- A continued line ends before the token. -/
  continued : Bool
  deriving Inhabited

/-! ### The layout of the lines ahead -/

/-- The lines between a place and the next character that is not layout. -/
structure Layout where
  /-- A line ends there, or the source does. -/
  lineEnd : Bool := false
  /-- The width of the indentation before that character. -/
  width : Nat := 0
  /-- The width of the indentation before the first comment that has a line to itself. -/
  remark : Option Nat := none
  deriving DecidableEq, Inhabited

/-- Where a comment's text goes on: up to the end of its line. -/
def inComment : List Char → Bool
  | [] => false
  | c :: _ => c ≠ '\n' && c ≠ '\x00'

/-- Reads the layout ahead. Comments belong to it where `remarks` says so, unless one stands
behind other text on its line; then, and where a backslash stands alone, there is no layout to
speak of. `skipping` tells that the text goes on inside such a comment. -/
def Layout.scan (remarks : Bool) : Bool → Layout → List Char → Option (Layout × List Char)
  | _, layout, [] => some ({ layout with lineEnd := true, width := 0 }, [])
  | true, layout, c :: rest =>
    if c = '\n' || c = '\x00' then scan remarks false { layout with width := 0 } rest
    else scan remarks true layout rest
  | false, layout, '\n' :: rest =>
    scan remarks false { layout with lineEnd := true, width := 0 } rest
  | false, layout, ' ' :: rest =>
    scan remarks false { layout with width := layout.width + 1 } rest
  | false, layout, '\t' :: rest =>
    scan remarks false { layout with width := layout.width + 8 } rest
  | false, layout, '\\' :: '\r' :: '\n' :: rest => scan remarks false layout rest
  | false, layout, '\\' :: '\n' :: rest => scan remarks false layout rest
  | false, layout, ['\\', '\r'] => some ({ layout with lineEnd := true, width := 0 }, [])
  | false, layout, ['\\'] => some ({ layout with lineEnd := true, width := 0 }, [])
  | false, layout, c :: rest =>
    if c = '\r' || c = '\x0c' then scan remarks false { layout with width := 0 } rest
    else if c = '\\' then none
    else if c = '#' && remarks then
      if layout.lineEnd then
        scan remarks true { layout with remark := some (layout.remark.getD layout.width) } rest
      else none
    else some (layout, c :: rest)

/-- A quotation mark is the next character. -/
def atQuote : List Char → Bool
  | c :: _ => c = '\'' || c = '"' || c = '`'
  | [] => false

/-- The line ahead closes the innermost indentation. Where neither a block, a line nor a bracket
may end it does so all the same, and is then out of place. -/
def Layout.closes (layout : Layout) (expect : Expect) (cursor : Cursor) (next : List Char) :
    Bool :=
  (expect.dedent || (!expect.newline && !(expect.quote && atQuote next) && !expect.close))
    && layout.width < cursor.indentation && !cursor.inFormat
    && match layout.remark with
      | none => true
      | some width => width < cursor.indentation

/-- The token that the end of a line amounts to, if it is one. -/
def Layout.token? (layout : Layout) (expect : Expect) (cursor : Cursor) (next : List Char) :
    Option (Token × Cursor) :=
  if !layout.lineEnd then none
  else if expect.indent && cursor.indentation < layout.width then
    some (.indent, { cursor with indents := layout.width :: cursor.indents })
  else if layout.closes expect cursor next then
    some (.dedent, { cursor with indents := cursor.indents.tail })
  else if expect.newline then some (.newline, cursor)
  else none

/-! ### Strings, numbers, symbols -/

/-- The letters that may stand before a quotation mark, and the text from the mark on. -/
def quoteLetters : Quote → List Char → Quote × List Char
  | q, [] => (q, [])
  | q, c :: rest =>
    if c = 'f' || c = 'F' then quoteLetters { q with format := true } rest
    else if c = 'r' || c = 'R' then quoteLetters { q with raw := true } rest
    else if c = 'b' || c = 'B' then quoteLetters { q with bytes := true } rest
    else if c = 'u' || c = 'U' then quoteLetters q rest
    else (q, c :: rest)

/-- The opening of a string literal, and the text behind it. -/
def openQuote? (text : List Char) : Option (Quote × List Char) :=
  match quoteLetters ⟨'\'', false, false, false, false⟩ text with
  | (q, '\'' :: '\'' :: '\'' :: rest) => some ({ q with triple := true }, rest)
  | (q, '"' :: '"' :: '"' :: rest) => some ({ q with mark := '"', triple := true }, rest)
  | (q, c :: rest) =>
    if c = '\'' || c = '"' || c = '`' then some ({ q with mark := c }, rest) else none
  | (_, []) => none

/-- What follows the digits of a decimal number; single underscores may stand among them, and one
behind each run. -/
def afterDigits : List Char → List Char
  | [] => []
  | c :: rest =>
    if c.isDigit then afterDigits rest
    else if c = '_' then
      match rest with
      | [] => []
      | d :: more => if d.isDigit then afterDigits more else d :: more
    else c :: rest

/-- What follows the digits of a number in another base; an underscore may stand before each. -/
def afterBaseDigits (isDigit : Char → Bool) : List Char → List Char
  | [] => []
  | c :: rest =>
    if isDigit c then afterBaseDigits isDigit rest
    else if c = '_' then
      match rest with
      | [] => c :: []
      | d :: more => if isDigit d then afterBaseDigits isDigit more else c :: d :: more
    else c :: rest

/-- A hexadecimal digit. -/
def isHexDigit (c : Char) : Bool :=
  c.isDigit || ('a' ≤ c && c ≤ 'f') || ('A' ≤ c && c ≤ 'F')

/-- The base a number's second character names, as the test of its digits. -/
def baseDigit? (c : Char) : Option (Char → Bool) :=
  if c = 'x' || c = 'X' then some isHexDigit
  else if c = 'o' || c = 'O' then some fun d => '0' ≤ d && d ≤ '7'
  else if c = 'b' || c = 'B' then some fun d => d = '0' || d = '1'
  else none

/-- The text starts with a digit. -/
def atDigit : List Char → Bool
  | c :: _ => c.isDigit
  | [] => false

/-- What follows an exponent, if one stands there. -/
def afterExponent? : List Char → Option (List Char)
  | e :: sign :: rest =>
    if e = 'e' || e = 'E' then
      if sign.isDigit then some (afterDigits rest)
      else if (sign = '+' || sign = '-') && atDigit rest then some (afterDigits rest)
      else none
    else none
  | _ => none

/-- What follows one of two letters that may end a number. -/
def afterLetter (a b : Char) : List Char → List Char
  | [] => []
  | c :: rest => if c = a || c = b then rest else c :: rest

/-- What follows a number without a base, the text of which starts with a digit. -/
def afterDecimal (text : List Char) : List Char :=
  match afterDigits text with
  | '.' :: rest =>
    let digits := if atDigit rest then afterDigits rest else rest
    afterLetter 'j' 'J' ((afterExponent? digits).getD digits)
  | rest =>
    match afterExponent? rest with
    | some more => afterLetter 'j' 'J' more
    | none =>
      let long := afterLetter 'l' 'L' rest
      if long.length < rest.length then long else afterLetter 'j' 'J' rest

/-- What follows a number, if one stands there. -/
def afterNumber? : List Char → Option (List Char)
  | '.' :: d :: rest =>
    if d.isDigit then
      let digits := afterDigits (d :: rest)
      some (afterLetter 'j' 'J' ((afterExponent? digits).getD digits))
    else none
  | c :: rest =>
    if !c.isDigit then none
    else
      let based : Option (List Char) := do
        guard (c = '0')
        let letter ← rest.head?
        let isDigit ← baseDigit? letter
        let digits := rest.tail
        let behind := afterBaseDigits isDigit digits
        guard (behind.length < digits.length)
        return afterLetter 'l' 'L' behind
      some (based.getD (afterDecimal (c :: rest)))
  | [] => none

/-- The operators and delimiters, those before their own beginnings. -/
def symbols : List String :=
  ["**=", "//=", ">>=", "<<=", "...", "**", "//", ">>", "<<", "<=", ">=", "==", "!=", "<>", "->",
    ":=", "+=", "-=", "*=", "/=", "@=", "%=", "&=", "^=", "|=", "+", "-", "*", "/", "%", "@", "&",
    "|", "^", "~", "<", ">", "=", ".", ",", ":", ";", "(", ")", "[", "]", "\x7b", "\x7d"]

/-- The text behind a beginning, if the text has it. -/
def behind? : List Char → List Char → Option (List Char)
  | [], text => some text
  | _ :: _, [] => none
  | p :: more, c :: rest => if p = c then behind? more rest else none

/-- The token at the start of a text that is no layout, and the text behind it. A `!` with a
letter behind it is one token, the conversion of a format field. -/
def tokenAt (text : List Char) : Token × List Char :=
  match text with
  | [] => (.stop, [])
  | c :: rest =>
    if isIdentifierStart c then
      (.word (String.ofList (c :: rest.takeWhile isIdentifierPart)),
        rest.dropWhile isIdentifierPart)
    else
      match afterNumber? text with
      | some behind => (.number, behind)
      | none =>
        match symbols.findSome? fun s => (behind? s.toList text).map fun behind => (s, behind) with
        | some (s, behind) => (.symbol s, behind)
        | none =>
          match c, rest with
          | '!', d :: more => if d.isLower then (.symbol "!", more) else (.stray, rest)
          | _, _ => (.stray, rest)

/-! ### The next lexeme -/

/-- How the search for the next token goes on. -/
inductive Search
  /-- From a place where the layout decides first. -/
  | afresh
  /-- Over blanks only. -/
  | blanks
  /-- To the end of a comment. -/
  | comment
  deriving DecidableEq

/-- Blanks between tokens. -/
def isBlank (c : Char) : Bool :=
  c = ' ' || ('\t' ≤ c && c ≤ '\r') || c = '\uFEFF' || c = '\u200B' || c = '\u2060'

/-- The search inside or behind a comment. -/
def Search.inComment (rest : List Char) : Search :=
  if Python.inComment rest then .comment else .afresh

/-- The lexeme that the layout at a place, or a quotation mark behind it, decides. -/
def Cursor.laidOut? (cursor : Cursor) (expect : Expect) (text : List Char) :
    Option (Token × List Char × Cursor) :=
  let remarks := expect.indent || expect.dedent || expect.newline || expect.handler
  match Layout.scan remarks false {} text with
  | none => none
  | some (layout, next) =>
    match layout.token? expect cursor next with
    | some (token, after) => some (token, text, { after with rest := text })
    | none =>
      if expect.quote && layout.remark.isNone then
        (openQuote? next).map fun (q, behind) =>
          (.quote q, next, { cursor with rest := behind, inFormat := q.format })
      else none

/-- Searches the text for the next token. -/
def Cursor.search (cursor : Cursor) (expect : Expect) :
    (remarked continued : Bool) → Search → List Char → Lexeme
  | remarked, continued, _, [] =>
    match cursor.laidOut? expect [] with
    | some (token, start, after) => ⟨token, start, after, remarked, continued⟩
    | none => ⟨.stop, [], { cursor with rest := [] }, remarked, continued⟩
  | remarked, continued, .comment, _ :: rest =>
    cursor.search expect remarked continued (.inComment rest) rest
  | remarked, continued, search, c :: rest =>
    match if search = .afresh then cursor.laidOut? expect (c :: rest) else none with
    | some (token, start, after) => ⟨token, start, after, remarked, continued⟩
    | none =>
      if c = '#' then cursor.search expect true continued (.inComment rest) rest
      else if isBlank c then cursor.search expect remarked continued .blanks rest
      else
        let (token, behind) := tokenAt (c :: rest)
        let here : Lexeme :=
          ⟨token, c :: rest, { cursor with rest := behind }, remarked, continued⟩
        if c = '\\' then
          match rest with
          | [] => ⟨.stop, [], { cursor with rest := [] }, remarked, true⟩
          | '\n' :: more => cursor.search expect remarked true .afresh more
          | '\x00' :: more => cursor.search expect remarked true .afresh more
          | '\r' :: '\n' :: more => cursor.search expect remarked true .afresh more
          | _ => here
        else here

/-- The next lexeme at a place. -/
def Cursor.lexeme (cursor : Cursor) (expect : Expect) : Lexeme :=
  cursor.search expect false false .afresh cursor.rest

end ApiStubs.Python
