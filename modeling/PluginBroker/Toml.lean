/-! TOML values.  A literal is kept only as far as some type can take it, and a table remembers how
it came about, because that decides what may still be added to it. -/

namespace PluginBroker.Toml

/-- How a table came about. -/
inductive Origin where
  /-- Written in braces. -/
  | inline
  /-- Opened by a header of its own. -/
  | opened
  /-- On the way to a table that was opened by a header. -/
  | passed
  /-- On the way to a key that was assigned. -/
  | dotted
deriving DecidableEq

/-- A TOML value.  A number with a fraction or an exponent is kept as whether a double can hold it;
what is set out like an integer, but is none, is `garbled`.  An array is `growing` if it is made of
tables that headers open. -/
inductive Value where
  | string (s : String)
  | integer (n : Int)
  | garbled
  | float (holdable : Bool)
  | boolean (b : Bool)
  | datetime
  | array (growing : Bool) (elements : List Value)
  | table (origin : Origin) (entries : List (String × Value))

/-- The keys of a table, each with its value; no key occurs twice. -/
abbrev Entries := List (String × Value)

namespace Value

def string? : Value → Option String
  | string s => some s
  | _ => none

def boolean? : Value → Option Bool
  | boolean b => some b
  | _ => none

def nat? : Value → Option Nat
  | integer (.ofNat n) => some n
  | _ => none

def elements? : Value → Option (List Value)
  | array _ es => some es
  | _ => none

mutual

/-- Whether every number in the value fits into the widest number of its kind: a signed or unsigned
integer of 128 bits, or a double.  What is garbled fits into none. -/
def isHoldable : Value → Bool
  | integer n => decide (-(2 ^ 127) ≤ n) && decide (n < 2 ^ 128)
  | garbled => false
  | float holdable => holdable
  | array _ es => elementsHoldable es
  | table _ es => entriesHoldable es
  | string _ | boolean _ | datetime => true

def elementsHoldable : List Value → Bool
  | [] => true
  | e :: es => isHoldable e && elementsHoldable es

def entriesHoldable : List (String × Value) → Bool
  | [] => true
  | (_, e) :: es => isHoldable e && entriesHoldable es

end

/-- The entries, by name, of a record with the given names.  A table may have other keys too, whose
values only have to fit.  An array stands for the record if it holds the values of some of the first
names, in order; what it holds beyond the last name does not matter.  A date stands for a record
without any entry. -/
def fields? (names : List String) : Value → Option Entries
  | table _ es =>
    if es.all fun e => names.contains e.1 || e.2.isHoldable then some es else none
  | array _ es => some (names.zip es)
  | datetime => some []
  | _ => none

end Value

def required? {α : Type} (decode : Value → Option α) (entries : Entries) (name : String) :
    Option α :=
  (entries.lookup name).bind decode

/-- The value of a name, decoded, or the default if there is none. -/
def optional? {α : Type} (decode : Value → Option α) (entries : Entries) (name : String)
    (default : α) : Option α :=
  match entries.lookup name with
  | some v => decode v
  | none => some default

end PluginBroker.Toml
