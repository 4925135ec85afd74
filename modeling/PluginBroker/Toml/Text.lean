import PluginBroker.Numeral

/-! Strings in TOML: basic ones with escapes and literal ones without, on one line or several. -/

namespace PluginBroker.Toml

/-- Whether the character may stand in a string or a comment as it is. -/
def isTextChar (c : Char) : Bool := c = '\t' || (' ' ≤ c && c ≠ '\x7f')

def isBlank (c : Char) : Bool := c = ' ' || c = '\t'

/-- The rest from the first character on that is no blank. -/
def skipBlanks (cs : List Char) : List Char := cs.dropWhile isBlank

/-- The character with a code point, unless it is a surrogate or too large. -/
def codePoint? (n : Nat) : Option Char := if n.isValidChar then some (Char.ofNat n) else none

/-- The character whose code point is written in `n` hexadecimal digits. -/
def readCodePoint? (n : Nat) (cs : List Char) : Option (Char × List Char) :=
  if (cs.take n).length = n then
    ((Numeral.value? 16 (cs.take n)).bind codePoint?).map fun c => (c, cs.drop n)
  else none

/-- What follows a backslash, as the character that it stands for. -/
def readEscape? : List Char → Option (Char × List Char)
  | 'b' :: cs => some ('\x08', cs)
  | 't' :: cs => some ('\t', cs)
  | 'n' :: cs => some ('\n', cs)
  | 'f' :: cs => some ('\x0c', cs)
  | 'r' :: cs => some ('\r', cs)
  | 'e' :: cs => some ('\x1b', cs)
  | '"' :: cs => some ('"', cs)
  | '\\' :: cs => some ('\\', cs)
  | 'x' :: cs => readCodePoint? 2 cs
  | 'u' :: cs => readCodePoint? 4 cs
  | 'U' :: cs => readCodePoint? 8 cs
  | _ => none

/-- What is read, with a character put in front. -/
def consChar (c : Char) (r : Option (List Char × List Char)) : Option (List Char × List Char) :=
  r.map fun r => (c :: r.1, r.2)

/-- A basic string after its opening quote, of fewer than `fuel` characters. -/
def readBasic : Nat → List Char → Option (List Char × List Char)
  | 0, _ => none
  | _ + 1, [] => none
  | fuel + 1, c :: cs =>
    if c = '"' then some ([], cs)
    else if c = '\\' then
      match readEscape? cs with
      | some (e, cs) => consChar e (readBasic fuel cs)
      | none => none
    else if isTextChar c then consChar c (readBasic fuel cs)
    else none

/-- A literal string after its opening quote. -/
def readLiteral : List Char → Option (List Char × List Char)
  | [] => none
  | c :: cs =>
    if c = '\'' then some ([], cs)
    else if isTextChar c then consChar c (readLiteral cs)
    else none

def skipNewline : List Char → List Char
  | '\r' :: '\n' :: cs => cs
  | '\n' :: cs => cs
  | cs => cs

/-- The number of quotes in front, up to five. -/
def countQuotes (quote : Char) (cs : List Char) : Nat := ((cs.take 5).takeWhile (· = quote)).length

/-- The rest after blanks and newlines. -/
def skipSpace : List Char → List Char
  | [] => []
  | '\r' :: '\n' :: cs => skipSpace cs
  | c :: cs => if isBlank c || c = '\n' then skipSpace cs else c :: cs

/-- The rest after blanks, a newline, and all blanks and newlines after it. -/
def skipLineEnd? (cs : List Char) : Option (List Char) :=
  match skipBlanks cs with
  | '\n' :: cs => some (skipSpace cs)
  | '\r' :: '\n' :: cs => some (skipSpace cs)
  | _ => none

/-- A string over several lines after its opening quotes and a first newline, of fewer than `fuel`
characters.  Up to two quotes may stand right before the three that close it. -/
def readMultiline (quote : Char) : Nat → List Char → Option (List Char × List Char)
  | 0, _ => none
  | _ + 1, [] => none
  | fuel + 1, c :: cs =>
    let quotes := countQuotes quote (c :: cs)
    if 3 ≤ quotes then some (List.replicate (quotes - 3) quote, (c :: cs).drop quotes)
    else if c = '\r' then
      match cs with
      | '\n' :: cs => consChar '\r' (consChar '\n' (readMultiline quote fuel cs))
      | _ => none
    else if c = '\\' ∧ quote = '"' then
      match readEscape? cs, skipLineEnd? cs with
      | some (e, cs), _ => consChar e (readMultiline quote fuel cs)
      | none, some cs => readMultiline quote fuel cs
      | none, none => none
    else if c = '\n' ∨ isTextChar c then consChar c (readMultiline quote fuel cs)
    else none

/-- The rest after three quotes. -/
def skipQuotes? (quote : Char) (cs : List Char) : Option (List Char) :=
  if cs.take 3 = List.replicate 3 quote then some (cs.drop 3) else none

def readString? (cs : List Char) : Option (String × List Char) :=
  let chars :=
    match skipQuotes? '"' cs, skipQuotes? '\'' cs, cs with
    | some cs, _, _ => readMultiline '"' cs.length (skipNewline cs)
    | _, some cs, _ => readMultiline '\'' cs.length (skipNewline cs)
    | _, _, '"' :: cs => readBasic cs.length cs
    | _, _, '\'' :: cs => readLiteral cs
    | _, _, _ => none
  chars.map fun r => (String.ofList r.1, r.2)

end PluginBroker.Toml
