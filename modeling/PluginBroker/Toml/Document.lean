import PluginBroker.Toml

/-! A TOML document: assignments, and sections of assignments under headers.  What a document means
is the table that its sections build one after the other, unless one of them defines again what is
defined already. -/

namespace PluginBroker.Toml

/-- A dotted key: the names of the tables on the way, and the last name. -/
structure Key where
  parents : List String := []
  name : String
deriving DecidableEq

structure Assignment where
  key : Key
  value : Value

/-- A header: it opens a table, or a further element of an array of tables. -/
structure Header where
  element : Bool
  key : Key
deriving DecidableEq

inductive Line where
  | assignment (a : Assignment)
  | header (h : Header)

structure Section where
  header : Header
  body : List Assignment

structure Document where
  top : List Assignment := []
  sections : List Section := []

/-- The document that lines make: an assignment belongs to the last header before it. -/
def Document.ofLines : List Line → Document
  | [] => {}
  | .assignment a :: lines =>
    let d := ofLines lines
    { d with top := a :: d.top }
  | .header h :: lines =>
    let d := ofLines lines
    { sections := ⟨h, d.top⟩ :: d.sections }

namespace Entries

/-- Another value for a key that is present. -/
def replace (es : Entries) (k : String) (v : Value) : Entries :=
  es.map fun e => if e.1 = k then (k, v) else e

/-- A value for a key, whether it is present or not. -/
def put (es : Entries) (k : String) (v : Value) : Entries :=
  if (es.lookup k).isSome then replace es k v else es ++ [(k, v)]

/-- Changes the entries of a table that a path leads to.  A missing table on the way comes about as
`made`; an array that grows leads to its last table; a table in braces leads nowhere.  If `made` is
`dotted`, an opened table leads nowhere either, and one that was only passed through turns into a
table that dotted keys made. -/
def along? (made : Origin) (change : Origin → Entries → Option Entries) :
    Origin → List String → Entries → Option Entries
  | here, [], es => change here es
  | _, k :: ks, es =>
    match es.lookup k with
    | none => (along? made change made ks []).map fun sub => put es k (.table made sub)
    | some (.table .inline _) => none
    | some (.table there sub) =>
      if there = .opened ∧ made = .dotted then none
      else
        let there := if made = .dotted then .dotted else there
        (along? made change there ks sub).map fun sub => put es k (.table there sub)
    | some (.array true elements) =>
      match elements.getLast? with
      | some (.table there sub) =>
        (along? made change there ks sub).map fun sub =>
          put es k (.array true (elements.dropLast ++ [.table there sub]))
      | _ => none
    | some _ => none

/-- A new key in a table.  A table that dotted keys made takes further keys only through dotted
keys, and every other one only directly. -/
def add? (a : Assignment) (here : Origin) (es : Entries) : Option Entries :=
  if (es.lookup a.key.name).isSome then none
  else if (here == .dotted) == a.key.parents.isEmpty then none
  else some (es ++ [(a.key.name, a.value)])

def assign? (es : Entries) (a : Assignment) : Option Entries :=
  along? .dotted (add? a) .opened a.key.parents es

def assignAll? (es : Entries) (as : List Assignment) : Option Entries := as.foldlM assign? es

/-- A section's table as a new value of a key: a table that was only passed through before is now
opened, and an array that grows gets a further element. -/
def open? (s : Section) (es : Entries) : Option Entries :=
  let k := s.header.key.name
  match s.header.element, es.lookup k with
  | false, none => (assignAll? [] s.body).map fun sub => put es k (.table .opened sub)
  | false, some (.table .passed sub) =>
    (assignAll? sub s.body).map fun sub => put es k (.table .opened sub)
  | true, none => (assignAll? [] s.body).map fun sub => put es k (.array true [.table .opened sub])
  | true, some (.array true elements) =>
    (assignAll? [] s.body).map fun sub => put es k (.array true (elements ++ [.table .opened sub]))
  | _, _ => none

def addSection? (es : Entries) (s : Section) : Option Entries :=
  along? .passed (fun _ => open? s) .opened s.header.key.parents es

end Entries

/-- The entries of the table that a document means. -/
def Document.entries? (d : Document) : Option Entries :=
  (Entries.assignAll? [] d.top).bind fun es => d.sections.foldlM Entries.addSection? es

end PluginBroker.Toml
