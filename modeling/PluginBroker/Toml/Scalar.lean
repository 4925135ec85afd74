import PluginBroker.Numeral
import PluginBroker.Toml

/-! Values that are written without quotes or brackets: truth values, integers, numbers with a
fraction or an exponent, dates and times. -/

namespace PluginBroker.Toml

def readBoolean? (cs : List Char) : Option Bool :=
  if cs = ['t', 'r', 'u', 'e'] then some true
  else if cs = ['f', 'a', 'l', 's', 'e'] then some false
  else none

/-- The digits of a numeral in which single underscores may stand between digits. -/
def ungroup? (radix : Nat) : List Char → Option (List Char)
  | [] => none
  | [c] => if Numeral.isDigit radix c then some [c] else none
  | c :: '_' :: cs => if Numeral.isDigit radix c then (ungroup? radix cs).map (c :: ·) else none
  | c :: cs => if Numeral.isDigit radix c then (ungroup? radix cs).map (c :: ·) else none

inductive Sign where
  | plus
  | minus
deriving DecidableEq

/-- A number with a sign or without. -/
def signed (sign : Option Sign) (n : Nat) : Int :=
  if sign = some .minus then -Int.ofNat n else Int.ofNat n

def takeSign : List Char → Option Sign × List Char
  | '-' :: cs => (some .minus, cs)
  | '+' :: cs => (some .plus, cs)
  | cs => (none, cs)

/-- The digits of a decimal numeral, which starts with a zero only if it is zero. -/
def ungroupDecimal? (cs : List Char) : Option (List Char) :=
  match ungroup? 10 cs with
  | some ('0' :: _ :: _) => none
  | ds => ds

/-- An integer: hexadecimal, octal or binary without a sign, or decimal. -/
def readInteger? (cs : List Char) : Option Int :=
  match cs with
  | '0' :: 'x' :: ds => ((ungroup? 16 ds).bind (Numeral.value? 16)).map Int.ofNat
  | '0' :: 'o' :: ds => ((ungroup? 8 ds).bind (Numeral.value? 8)).map Int.ofNat
  | '0' :: 'b' :: ds => ((ungroup? 2 ds).bind (Numeral.value? 2)).map Int.ofNat
  | cs =>
    let (sign, ds) := takeSign cs
    ((ungroupDecimal? ds).bind (Numeral.value? 10)).map (signed sign)

/-- Whether every underscore stands between hexadecimal digits. -/
def isGrouped : List Char → Bool
  | [] => true
  | [c] => c ≠ '_'
  | c :: d :: cs =>
    (c ≠ '_' || Numeral.isDigit 16 d) && (d ≠ '_' || Numeral.isDigit 16 c) && isGrouped (d :: cs)

/-- Whether the characters pass for an integer although they are none.  The mark of a radix does so
with nothing after it.  So does a decimal numeral that goes on, after its first underscore, with any
characters except a space, a point and an exponent mark, as long as every underscore stands between
hexadecimal digits. -/
def isGarbled (cs : List Char) : Bool :=
  if cs = ['0', 'x'] ∨ cs = ['0', 'o'] ∨ cs = ['0', 'b'] then true
  else
    let (_, ds) := takeSign cs
    match ds.span (Numeral.isDigit 10) with
    | (c :: _, '_' :: rest) => c ≠ '0' && isGrouped ds && rest.all (· ∉ [' ', '.', 'e', 'E'])
    | _ => false

/-- The least number that rounds to no double. -/
def doubleLimit : Nat := Nat.pow 2 1024 - Nat.pow 2 970

/-- Whether `digits * 10 ^ exponent`, the first factor having `length` digits, is below the limit.
Only numbers of 309 digits before the point have to be compared in full. -/
def isBelowLimit (digits length : Nat) (exponent : Int) : Bool :=
  let places := length + exponent
  if digits = 0 ∨ places < 309 then true
  else if 309 < places then false
  else if 0 ≤ exponent then decide (digits * Nat.pow 10 exponent.toNat < doubleLimit)
  else decide (digits < doubleLimit * Nat.pow 10 (-exponent).toNat)

/-- The characters up to an exponent mark, and those after it if there is one. -/
def splitExponent (cs : List Char) : List Char × Option (List Char) :=
  match cs.span fun c => c ≠ 'e' && c ≠ 'E' with
  | (front, []) => (front, none)
  | (front, _ :: back) => (front, some back)

/-- The characters up to a point, and those after it if there is one. -/
def splitPoint (cs : List Char) : List Char × Option (List Char) :=
  match cs.span (· ≠ '.') with
  | (front, []) => (front, none)
  | (front, _ :: back) => (front, some back)

/-- An exponent; a missing one is zero. -/
def readExponent? : Option (List Char) → Option Int
  | none => some 0
  | some cs =>
    let (sign, ds) := takeSign cs
    ((ungroup? 10 ds).bind (Numeral.value? 10)).map (signed sign)

/-- The digits after a point; a missing point has none. -/
def readFraction? : Option (List Char) → Option (List Char)
  | none => some []
  | some cs => ungroup? 10 cs

/-- The digits with leading zeros taken off. -/
def significant (ds : List Char) : List Char := ds.dropWhile (· = '0')

/-- Whether a double can hold a number with a fraction or an exponent or both, given without its
sign. -/
def readDecimal? (cs : List Char) : Option Bool := do
  let (mantissa, exponent) := splitExponent cs
  let (whole, fraction) := splitPoint mantissa
  if exponent.isNone && fraction.isNone then none
  let exponent ← readExponent? exponent
  let fraction ← readFraction? fraction
  let whole ← ungroupDecimal? whole
  let digits := significant (whole ++ fraction)
  let n := (Numeral.value? 10 digits).getD 0
  return isBelowLimit n digits.length (exponent - fraction.length)

/-- Whether a double can hold a number that is written with a fraction or an exponent, or named. -/
def readFloat? (cs : List Char) : Option Bool :=
  let (_, cs) := takeSign cs
  if cs = ['i', 'n', 'f'] ∨ cs = ['n', 'a', 'n'] then some true else readDecimal? cs

def daysOf (year month : Nat) : Nat :=
  if month = 2 then
    if year % 4 = 0 ∧ (year % 100 ≠ 0 ∨ year % 400 = 0) then 29 else 28
  else if month = 4 ∨ month = 6 ∨ month = 9 ∨ month = 11 then 30
  else 31

/-- Whether the digits of a year, a month and a day make a date. -/
def isDate (y m d : List Char) : Bool :=
  match Numeral.value? 10 y, Numeral.value? 10 m, Numeral.value? 10 d with
  | some y, some m, some d => 1 ≤ m && m ≤ 12 && 1 ≤ d && d ≤ daysOf y m
  | _, _, _ => false

/-- The rest after a date. -/
def takeDate? : List Char → Option (List Char)
  | y1 :: y2 :: y3 :: y4 :: '-' :: m1 :: m2 :: '-' :: d1 :: d2 :: cs =>
    if isDate [y1, y2, y3, y4] [m1, m2] [d1, d2] then some cs else none
  | _ => none

/-- Whether two digits are a number up to `limit`. -/
def isUpTo (limit : Nat) (ds : List Char) : Bool :=
  match Numeral.value? 10 ds with
  | some n => n ≤ limit
  | none => false

/-- The rest after a fraction of a second, if there is one. -/
def takeSubsecond? : List Char → Option (List Char)
  | '.' :: cs =>
    match cs.span (Numeral.isDigit 10) with
    | ([], _) => none
    | (_, rest) => some rest
  | cs => some cs

/-- The rest after seconds, if there are any. -/
def takeSeconds? : List Char → Option (List Char)
  | ':' :: s1 :: s2 :: cs => if isUpTo 60 [s1, s2] then takeSubsecond? cs else none
  | ':' :: _ => none
  | cs => some cs

def takeTime? : List Char → Option (List Char)
  | h1 :: h2 :: ':' :: m1 :: m2 :: cs =>
    if isUpTo 23 [h1, h2] && isUpTo 59 [m1, m2] then takeSeconds? cs else none
  | _ => none

/-- Whether the characters are an offset from universal time, or none at all. -/
def isOffset : List Char → Bool
  | [] => true
  | [c] => c = 'Z' || c = 'z'
  | [sign, h1, h2, ':', m1, m2] =>
    (sign = '+' || sign = '-') && isUpTo 23 [h1, h2] && isUpTo 59 [m1, m2]
  | _ => false

/-- Whether the character may stand between a date and a time. -/
def isDateSeparator (c : Char) : Bool := c = 'T' || c = 't' || c = ' '

/-- Whether the characters are a date, a time of day, or both, then perhaps with an offset. -/
def isDatetime (cs : List Char) : Bool :=
  match takeDate? cs with
  | some [] => true
  | some (c :: rest) => isDateSeparator c && ((takeTime? rest).map isOffset).getD false
  | none => takeTime? cs = some []

/-- The value that is written without quotes or brackets. -/
def readScalar? (cs : List Char) : Option Value :=
  match readBoolean? cs, readInteger? cs, readFloat? cs with
  | some b, _, _ => some (.boolean b)
  | _, some n, _ => some (.integer n)
  | _, _, some holdable => some (.float holdable)
  | none, none, none =>
    if isDatetime cs then some .datetime
    else if isGarbled cs then some .garbled
    else none

end PluginBroker.Toml
