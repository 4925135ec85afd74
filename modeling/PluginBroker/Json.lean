/-! JSON values.  A literal is kept only as far as some type can take it: a number as a natural
number, and a string as a text. -/

namespace PluginBroker

/-- A JSON value.  A number has a value if it is written as digits alone.  A string, also one that
names a member, has a text unless it holds an unpaired surrogate.  Members are in the order of
writing and may repeat a name. -/
inductive Json where
  | null
  | bool (value : Bool)
  | number (value? : Option Nat)
  | string (text? : Option String)
  | array (elements : List Json)
  | object (members : List (Option String × Json))

namespace Json

def nat (n : Nat) : Json := number (some n)

def text (s : String) : Json := string (some s)

def record (members : List (String × Json)) : Json :=
  object (members.map fun m => (some m.1, m.2))

def bool? : Json → Option Bool
  | bool b => some b
  | _ => none

def nat? : Json → Option Nat
  | number n => n
  | _ => none

def text? : Json → Option String
  | string s => s
  | _ => none

def elements? : Json → Option (List Json)
  | array es => some es
  | _ => none

/-- Whether one of the names is named twice. -/
def repeats (names : List String) (members : List (Option String × Json)) : Bool :=
  names.any fun n => 1 < members.countP fun m => m.1 == some n

/-- The members, by name, of a record with the given names.  An object may have other members too,
but each name in it has to be a text, and none of the given ones may be repeated.  An array stands
for the record if it holds the values of some of the first names, in order. -/
def fields? (names : List String) : Json → Option (List (Option String × Json))
  | object members =>
    if members.all (·.1.isSome) && !repeats names members then some members else none
  | array elements =>
    if elements.length ≤ names.length then some ((names.map some).zip elements) else none
  | _ => none

def required? {α : Type} (decode : Json → Option α) (members : List (Option String × Json))
    (name : String) : Option α :=
  (members.lookup (some name)).bind decode

/-- The member of a name, decoded, or the default if there is none. -/
def optional? {α : Type} (decode : Json → Option α) (members : List (Option String × Json))
    (name : String) (default : α) : Option α :=
  match members.lookup (some name) with
  | some j => decode j
  | none => some default

end Json

end PluginBroker
