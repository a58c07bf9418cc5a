import ApiStubs.Fault

/-!
# Glob — file name patterns

A pattern is compiled into a list of `GlobToken`s, or refused with the character position of what
is wrong with it. A name matches when the whole of it is consumed by the tokens: `*` takes any
characters, separators included, and `**` any number of whole path components.
-/

namespace ApiStubs

/-- Characters from one to another, both included; none when the ends are reversed. -/
structure CharRange where
  first : Char
  last : Char
  deriving DecidableEq

/-- The character lies in the range. -/
def CharRange.has (r : CharRange) (c : Char) : Bool := r.first ≤ c && c ≤ r.last

/-- One element of a compiled pattern. -/
inductive GlobToken
  | literal (c : Char)
  | anyChar
  | anySequence
  /-- Any number of whole path components. -/
  | anyComponents
  | oneOf (ranges : List CharRange)
  | noneOf (ranges : List CharRange)
  deriving DecidableEq

/-- A compiled pattern and the text it was written as. -/
structure Glob where
  written : String
  tokens : List GlobToken
  deriving DecidableEq

namespace Glob

/-- The members of a character set: `a-z` is a range, every other character stands for itself. -/
def members : List Char → List CharRange
  | first :: '-' :: last :: rest => ⟨first, last⟩ :: members rest
  | c :: rest => ⟨c, c⟩ :: members rest
  | [] => []

/-- A set after its opening bracket: its members and what follows the closing bracket. The first
character of the set is a member even when it is a closing bracket. -/
def set? : List Char → Option (GlobToken × List Char)
  | '!' :: first :: rest => (close first rest).map fun (cs, after) => (.noneOf (members cs), after)
  | ['!'] => none
  | first :: rest => (close first rest).map fun (cs, after) => (.oneOf (members cs), after)
  | [] => none
where
  /-- The characters up to the closing bracket, and what follows it. -/
  close (first : Char) (rest : List Char) : Option (List Char × List Char) :=
    match rest.dropWhile (· ≠ ']') with
    | [] => none
    | _ :: after => some (first :: rest.takeWhile (· ≠ ']'), after)

/-- Compiles what is left of a pattern. `position` counts the characters already read, `before` is
the last of them. -/
def compileFrom (limit position : Nat) (before : Option Char) :
    List Char → Except (Nat × GlobError) (List GlobToken)
  | [] => .ok []
  | c :: rest =>
    match limit with
    | 0 => .ok []
    | limit + 1 =>
      if c = '?' then do
        let tokens ← compileFrom limit (position + 1) (some c) rest
        return .anyChar :: tokens
      else if c = '[' then
        match set? rest with
        | none => .error (position, .badSet)
        | some (token, after) => do
          let read := 1 + rest.length - after.length
          let tokens ← compileFrom limit (position + read) (some ']') after
          return token :: tokens
      else if c = '*' then
        let more := (rest.takeWhile (· = '*')).length
        let after := rest.dropWhile (· = '*')
        if 2 ≤ more then .error (position + 2, .badStars)
        else if more = 0 then do
          let tokens ← compileFrom limit (position + 1) (some c) rest
          return .anySequence :: tokens
        else if before.any (· ≠ '/') then .error (position - 1, .badRecursive)
        else match after with
          | [] => .ok [.anyComponents]
          | '/' :: below => do
            let tokens ← compileFrom limit (position + 3) (some '/') below
            return .anyComponents :: tokens
          | _ => .error (position + 2, .badRecursive)
      else do
        let tokens ← compileFrom limit (position + 1) (some c) rest
        return .literal c :: tokens

/-- Compiles a pattern. -/
def compile (written : String) : Except Fault Glob :=
  match compileFrom (written.length + 1) 0 none written.toList with
  | .ok tokens => .ok ⟨written, tokens⟩
  | .error (position, cause) => .error (.pattern position cause)

/-- Some way of cutting the text off its front lets the rest satisfy a test; a cut may be made
where `here` allows it, behind every character that `after` allows, and at the very end. -/
def someSuffix (test : List Char → Bool) (after : Char → Bool) (here : Bool) : List Char → Bool
  | [] => test []
  | c :: rest => (here && test (c :: rest)) || someSuffix test after (after c) rest

/-- The tokens consume the whole text. -/
def accepts : List GlobToken → List Char → Bool
  | [], text => text.isEmpty
  | .anySequence :: tokens, text => someSuffix (accepts tokens) (fun _ => true) true text
  | .anyComponents :: tokens, text => someSuffix (accepts tokens) (· = '/') true text
  | .literal c :: tokens, text =>
    match text with
    | [] => false
    | d :: rest => c = d && accepts tokens rest
  | .anyChar :: tokens, text =>
    match text with
    | [] => false
    | _ :: rest => accepts tokens rest
  | .oneOf ranges :: tokens, text =>
    match text with
    | [] => false
    | d :: rest => ranges.any (·.has d) && accepts tokens rest
  | .noneOf ranges :: tokens, text =>
    match text with
    | [] => false
    | d :: rest => !ranges.any (·.has d) && accepts tokens rest

/-- The pattern matches a name as a whole. -/
def «matches» (g : Glob) (name : String) : Bool := accepts g.tokens name.toList

/-- A name is covered by a pattern that matches it, or that is written exactly like it. -/
def covers (g : Glob) (name : String) : Bool := g.written = name || g.matches name

end Glob

end ApiStubs
