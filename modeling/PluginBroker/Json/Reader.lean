import PluginBroker.Json
import PluginBroker.Numeral

/-! Reading JSON.  A reader takes what it can from the front of the remaining characters and returns
the rest with what it read. -/

namespace PluginBroker.Json

/-- The four characters that may stand between tokens. -/
def isBlank (c : Char) : Bool := c = ' ' || c = '\t' || c = '\n' || c = '\r'

def skipBlanks (cs : List Char) : List Char := cs.dropWhile isBlank

def unescape? : Char → Option Nat
  | '"' => some '"'.toNat
  | '\\' => some '\\'.toNat
  | '/' => some '/'.toNat
  | 'b' => some 0x08
  | 'f' => some 0x0c
  | 'n' => some '\n'.toNat
  | 'r' => some '\r'.toNat
  | 't' => some '\t'.toNat
  | _ => none

/-- The code units of a string literal after its opening quote.  A character that is not escaped is
one unit, whatever its code point. -/
def readUnits : List Char → Option (List Nat × List Char)
  | '"' :: rest => some ([], rest)
  | '\\' :: 'u' :: a :: b :: c :: d :: rest =>
    match Numeral.value? 16 [a, b, c, d], readUnits rest with
    | some u, some (us, rest) => some (u :: us, rest)
    | _, _ => none
  | '\\' :: c :: rest =>
    match unescape? c, readUnits rest with
    | some u, some (us, rest) => some (u :: us, rest)
    | _, _ => none
  | c :: rest =>
    if c < ' ' || c = '\\' then none
    else (readUnits rest).map fun r => (c.toNat :: r.1, r.2)
  | [] => none

/-- Whether the unit is the first half of a pair. -/
def isHighSurrogate (u : Nat) : Bool := 0xD800 ≤ u && u < 0xDC00

/-- Whether the unit is the second half of a pair. -/
def isLowSurrogate (u : Nat) : Bool := 0xDC00 ≤ u && u < 0xE000

/-- The characters that the units spell, two surrogates making one; `none` if one is unpaired. -/
def joinUnits : List Nat → Option (List Char)
  | [] => some []
  | [u] => if isHighSurrogate u || isLowSurrogate u then none else some [Char.ofNat u]
  | u :: v :: rest =>
    if isHighSurrogate u then
      if isLowSurrogate v then
        (joinUnits rest).map (Char.ofNat (0x10000 + (u - 0xD800) * 0x400 + (v - 0xDC00)) :: ·)
      else none
    else if isLowSurrogate u then none
    else (joinUnits (v :: rest)).map (Char.ofNat u :: ·)

def readString (cs : List Char) : Option (Option String × List Char) :=
  (readUnits cs).map fun r => ((joinUnits r.1).map String.ofList, r.2)

def spanDigits (cs : List Char) : List Char × List Char := cs.span (Numeral.isDigit 10)

/-- The rest after a decimal point and its digits, if there is a point. -/
def skipFraction? : List Char → Option (List Char)
  | '.' :: cs => match spanDigits cs with
    | ([], _) => none
    | (_, rest) => some rest
  | cs => some cs

def skipSign : List Char → List Char
  | '+' :: cs | '-' :: cs => cs
  | cs => cs

/-- The rest after an exponent, if there is one. -/
def skipExponent? : List Char → Option (List Char)
  | 'e' :: cs | 'E' :: cs => match spanDigits (skipSign cs) with
    | ([], _) => none
    | (_, rest) => some rest
  | cs => some cs

/-- The digits in front, which may start with a zero only if they are one zero, and the rest. -/
def readDigits (cs : List Char) : Option (List Char × List Char) :=
  match spanDigits cs with
  | ([], _) => none
  | ('0' :: _ :: _, _) => none
  | (ds, rest) => some (ds, rest)

/-- The rest after a fraction and an exponent, of which either may be absent. -/
def skipScale? (cs : List Char) : Option (List Char) := (skipFraction? cs).bind skipExponent?

def startsScale : List Char → Bool
  | c :: _ => c = '.' || c = 'e' || c = 'E'
  | [] => false

/-- A number.  It has a value if it is written as digits alone. -/
def readNumber : List Char → Option (Option Nat × List Char)
  | '-' :: cs => (readDigits cs).bind fun r => (skipScale? r.2).map (none, ·)
  | cs => (readDigits cs).bind fun r =>
    if startsScale r.2 then (skipScale? r.2).map (none, ·) else some (Numeral.value? 10 r.1, r.2)

mutual

/-- A value after any blanks, with at most `fuel` levels of nesting and steps along arrays and
objects. -/
def readValue : Nat → List Char → Option (Json × List Char)
  | 0, _ => none
  | fuel + 1, cs =>
    match skipBlanks cs with
    | 'n' :: 'u' :: 'l' :: 'l' :: rest => some (.null, rest)
    | 't' :: 'r' :: 'u' :: 'e' :: rest => some (.bool true, rest)
    | 'f' :: 'a' :: 'l' :: 's' :: 'e' :: rest => some (.bool false, rest)
    | '"' :: rest => (readString rest).map fun r => (.string r.1, r.2)
    | '[' :: rest =>
      match skipBlanks rest with
      | ']' :: rest => some (.array [], rest)
      | rest => (readElements fuel rest).map fun r => (.array r.1, r.2)
    | '{' :: rest =>
      match skipBlanks rest with
      | '}' :: rest => some (.object [], rest)
      | rest => (readMembers fuel rest).map fun r => (.object r.1, r.2)
    | rest => (readNumber rest).map fun r => (.number r.1, r.2)

/-- One element or more, and the end of the array. -/
def readElements : Nat → List Char → Option (List Json × List Char)
  | 0, _ => none
  | fuel + 1, cs =>
    match readValue fuel cs with
    | none => none
    | some (e, rest) =>
      match skipBlanks rest with
      | ']' :: rest => some ([e], rest)
      | ',' :: rest => (readElements fuel rest).map fun r => (e :: r.1, r.2)
      | _ => none

/-- One member or more, and the end of the object. -/
def readMembers : Nat → List Char → Option (List (Option String × Json) × List Char)
  | 0, _ => none
  | fuel + 1, cs =>
    match skipBlanks cs with
    | '"' :: rest =>
      match readString rest with
      | none => none
      | some (k, rest) =>
        match skipBlanks rest with
        | ':' :: rest =>
          match readValue fuel rest with
          | none => none
          | some (v, rest) =>
            match skipBlanks rest with
            | '}' :: rest => some ([(k, v)], rest)
            | ',' :: rest => (readMembers fuel rest).map fun r => ((k, v) :: r.1, r.2)
            | _ => none
        | _ => none
    | _ => none

end

/-- The value that a text is, with nothing but blanks around it. -/
def ofChars? (cs : List Char) : Option Json :=
  match readValue (2 * cs.length + 1) cs with
  | some (j, rest) => if (skipBlanks rest).isEmpty then some j else none
  | none => none

def ofText? (s : String) : Option Json := ofChars? s.toList

end PluginBroker.Json
