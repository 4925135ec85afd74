import PluginBroker.Json
import PluginBroker.Numeral

/-! JSON values as text, on one line or indented.  In a string only the quote, the backslash and the
control characters below the blank are escaped. -/

namespace PluginBroker.Json

def hexDigit (n : Nat) : Char := if n < 10 then Char.ofNat (48 + n) else Char.ofNat (87 + n)

def escape (c : Char) : List Char :=
  if c = '"' then ['\\', '"']
  else if c = '\\' then ['\\', '\\']
  else if c = '\x08' then ['\\', 'b']
  else if c = '\t' then ['\\', 't']
  else if c = '\n' then ['\\', 'n']
  else if c = '\x0c' then ['\\', 'f']
  else if c = '\r' then ['\\', 'r']
  else if c < ' ' then ['\\', 'u', '0', '0', hexDigit (c.toNat / 16), hexDigit (c.toNat % 16)]
  else [c]

def quote (s : String) : List Char := '"' :: s.toList.flatMap escape ++ ['"']

/-- A string literal; one without a text is written as the empty one. -/
def literal (s : Option String) : List Char := quote (s.getD "")

/-- A number literal; one without a value is written as zero. -/
def numeral (n : Option Nat) : List Char := Numeral.decimal (n.getD 0)

def boolean (b : Bool) : List Char := if b then ['t', 'r', 'u', 'e'] else ['f', 'a', 'l', 's', 'e']

mutual

/-- The value without any blanks. -/
def chars : Json → List Char
  | null => ['n', 'u', 'l', 'l']
  | bool b => boolean b
  | number n => numeral n
  | string s => literal s
  | array [] => ['[', ']']
  | array (e :: es) => '[' :: chars e ++ elementChars es
  | object [] => ['{', '}']
  | object ((k, v) :: ms) => '{' :: literal k ++ ':' :: chars v ++ memberChars ms

/-- The elements after the first one, and the end of the array. -/
def elementChars : List Json → List Char
  | [] => [']']
  | e :: es => ',' :: chars e ++ elementChars es

/-- The members after the first one, and the end of the object. -/
def memberChars : List (Option String × Json) → List Char
  | [] => ['}']
  | (k, v) :: ms => ',' :: literal k ++ ':' :: chars v ++ memberChars ms

end

def compact (j : Json) : String := String.ofList j.chars

/-- The start of a line that is `depth` levels deep, two blanks a level. -/
def newline (depth : Nat) : List Char := '\n' :: List.replicate (2 * depth) ' '

mutual

/-- The value with each element and each member on a line of its own. -/
def prettyChars (depth : Nat) : Json → List Char
  | array (e :: es) =>
    '[' :: newline (depth + 1) ++ prettyChars (depth + 1) e ++ prettyElements depth es
  | object ((k, v) :: ms) =>
    '{' :: newline (depth + 1) ++ literal k ++ ':' :: ' ' :: prettyChars (depth + 1) v ++
      prettyMembers depth ms
  | array [] => ['[', ']']
  | object [] => ['{', '}']
  | null => ['n', 'u', 'l', 'l']
  | bool b => boolean b
  | number n => numeral n
  | string s => literal s

def prettyElements (depth : Nat) : List Json → List Char
  | [] => newline depth ++ [']']
  | e :: es =>
    ',' :: newline (depth + 1) ++ prettyChars (depth + 1) e ++ prettyElements depth es

def prettyMembers (depth : Nat) : List (Option String × Json) → List Char
  | [] => newline depth ++ ['}']
  | (k, v) :: ms =>
    ',' :: newline (depth + 1) ++ literal k ++ ':' :: ' ' :: prettyChars (depth + 1) v ++
      prettyMembers depth ms

end

def pretty (j : Json) : String := String.ofList (j.prettyChars 0)

end PluginBroker.Json
