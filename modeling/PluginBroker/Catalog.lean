import PluginBroker.Context
import PluginBroker.Multimap
import PluginBroker.Numeral

/-! The catalog: one table per category, in which each interface name has a shelf of contexts in the
order of registration. -/

namespace PluginBroker

abbrev Table := Multimap String Context

/-- How a caller chooses a context from a shelf. -/
inductive Choice where
  | first
  /-- The one at a position, counted from zero. -/
  | nth (n : Nat)
  /-- The oldest one that has the id. -/
  | withId (id : String)
  /-- The one at a position among those that have the id. -/
  | nthWithId (id : String) (n : Nat)
deriving DecidableEq

/-- A position past the end of a shelf that is not empty. -/
structure OutOfRange where
  interface : String
  position : Nat
  size : Nat
deriving DecidableEq

def OutOfRange.message (e : OutOfRange) : String :=
  "ordinal " ++ Numeral.text e.position ++ " out of range for " ++ e.interface ++ " (" ++
    Numeral.text e.size ++ " registered)"

structure Catalog where
  cpu : Table := .empty
  memory : Table := .empty
  device : Table := .empty
  compiler : Table := .empty
deriving DecidableEq

namespace Catalog

def empty : Catalog := {}

def table (k : Catalog) : Category → Table
  | .cpu => k.cpu
  | .memory => k.memory
  | .device => k.device
  | .compiler => k.compiler

def setTable (k : Catalog) (c : Category) (t : Table) : Catalog :=
  match c with
  | .cpu => { k with cpu := t }
  | .memory => { k with memory := t }
  | .device => { k with device := t }
  | .compiler => { k with compiler := t }

@[simp] theorem table_setTable_same (k : Catalog) (c : Category) (t : Table) :
    (k.setTable c t).table c = t := by
  cases c <;> rfl

theorem table_setTable_ne (k : Catalog) {c d : Category} (h : d ≠ c) (t : Table) :
    (k.setTable c t).table d = k.table d := by
  cases c <;> cases d <;> simp_all [setTable, table]

@[simp] theorem setTable_table (k : Catalog) (c : Category) : k.setTable c (k.table c) = k := by
  cases c <;> rfl

@[ext] theorem ext_table {k l : Catalog} (h : ∀ c, k.table c = l.table c) : k = l := by
  cases k
  cases l
  exact (Catalog.mk.injEq ..).mpr ⟨h .cpu, h .memory, h .device, h .compiler⟩

/-- The contexts under a category and an interface name, oldest first. -/
def shelf (k : Catalog) (c : Category) (name : String) : List Context := (k.table c).get name

def size (k : Catalog) (c : Category) : Nat := (k.table c).size

/-- The first category in which the context occurs. -/
def categoryOf? (k : Catalog) (v : Context) : Option Category :=
  Category.all.find? fun c => (k.table c).values.contains v

def contains (k : Catalog) (v : Context) : Bool := (k.categoryOf? v).isSome

/-- Puts a context at the end of a shelf. -/
def put (k : Catalog) (c : Category) (name : String) (v : Context) : Catalog :=
  k.setTable c ((k.table c).push name v)

/-- Takes a context out of the first category in which it occurs, and names that category; `none` if
it occurs in none. -/
def take? (k : Catalog) (v : Context) : Option (Category × Catalog) :=
  (k.categoryOf? v).map fun c => (c, k.setTable c ((k.table c).erase v))

/-- Takes from one shelf the contexts for which `drop` holds, and lists them. -/
def takeWhere (k : Catalog) (c : Category) (name : String) (drop : Context → Bool) :
    List Context × Catalog :=
  ((k.shelf c name).filter drop, k.setTable c ((k.table c).filterAt name fun v => !drop v))

/-- Chooses from a shelf.  An empty shelf has nothing to choose from, whatever the choice; on
another one a position past the end is an error, but a position past the last context of an id is
not. -/
def pick (k : Catalog) (profiles : Profiles) (c : Category) (name : String) (choice : Choice) :
    Except OutOfRange (Option Context) :=
  let shelf := k.shelf c name
  let having (id : String) := shelf.filter fun v => (profiles v).id? == some id
  if shelf.isEmpty then .ok none
  else match choice with
    | .first => .ok shelf[0]?
    | .nth n =>
      match shelf[n]? with
      | some v => .ok (some v)
      | none => .error ⟨name, n, shelf.length⟩
    | .withId id => .ok (having id)[0]?
    | .nthWithId id n => .ok (having id)[n]?

end Catalog

end PluginBroker
