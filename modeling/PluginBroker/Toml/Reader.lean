import PluginBroker.Toml.Document
import PluginBroker.Toml.Scalar
import PluginBroker.Toml.Text

/-! Reading TOML text into the lines of a document. -/

namespace PluginBroker.Toml

/-- How deep arrays and tables in braces may be nested, and how many names a key may have. -/
def depthLimit : Nat := 80

/-- Whether the character may stand in a key without quotes. -/
def isBareChar (c : Char) : Bool := c.isAlphanum || c = '_' || c = '-'

/-- Whether the character may stand in a word of a value without quotes or brackets: every one may
that neither ends a value nor separates it from what follows. -/
def isScalarChar (c : Char) : Bool :=
  c ∉ ['=', ',', '[', ']', '{', '}', '#', ' ', '\t', '\r', '\n']

/-- The rest after blanks, newlines and comments; `inComment` if it starts within one. -/
def skipFiller? (inComment : Bool) : List Char → Option (List Char)
  | [] => some []
  | '\n' :: cs => skipFiller? false cs
  | '\r' :: '\n' :: cs => skipFiller? false cs
  | c :: cs =>
    if inComment then if isTextChar c then skipFiller? true cs else none
    else if isBlank c then skipFiller? false cs
    else if c = '#' then skipFiller? true cs
    else some (c :: cs)

/-- One name of a key. -/
def readName? (cs : List Char) : Option (String × List Char) :=
  match cs with
  | '"' :: cs => (readBasic cs.length cs).map fun r => (String.ofList r.1, r.2)
  | '\'' :: cs => (readLiteral cs).map fun r => (String.ofList r.1, r.2)
  | cs =>
    match cs.span isBareChar with
    | ([], _) => none
    | (name, rest) => some (String.ofList name, rest)

/-- A key of at most `fuel` names and the blanks after it. -/
def readKey? : Nat → List Char → Option (Key × List Char)
  | 0, _ => none
  | fuel + 1, cs =>
    match readName? cs with
    | none => none
    | some (name, rest) =>
      match skipBlanks rest with
      | '.' :: rest =>
        (readKey? fuel (skipBlanks rest)).map fun r => (⟨name :: r.1.parents, r.1.name⟩, r.2)
      | rest => some (⟨[], name⟩, rest)

/-- Whether a further word of a value without quotes or brackets follows, perhaps after blanks; what
starts with a quote is a value of its own. -/
def wordFollows (cs : List Char) : Bool :=
  match skipBlanks cs with
  | [] => false
  | c :: _ => isScalarChar c && c ≠ '"' && c ≠ '\''

/-- The characters of a value without quotes or brackets: its words and the blanks between them. -/
def spanScalar : List Char → List Char × List Char
  | [] => ([], [])
  | c :: cs =>
    if isScalarChar c || isBlank c && wordFollows cs then
      let (chars, rest) := spanScalar cs
      (c :: chars, rest)
    else ([], c :: cs)

def braced? (as : List Assignment) : Option Value :=
  (Entries.assignAll? [] as).map (.table .inline)

/-- The rest after the equals sign of an assignment, and blanks. -/
def skipEquals? : List Char → Option (List Char)
  | '=' :: cs => some (skipBlanks cs)
  | _ => none

/-- The rest after the equals sign of an assignment in braces, where blanks, newlines and comments
may stand on either side of it. -/
def skipBracedEquals? (cs : List Char) : Option (List Char) :=
  match skipFiller? false cs with
  | some ('=' :: cs) => skipFiller? false cs
  | _ => none

mutual

/-- A value in which at most `depth` arrays and tables in braces are nested.  The fuel bounds the
steps along arrays and tables. -/
def readValue? : Nat → Nat → List Char → Option (Value × List Char)
  | 0, _, _ => none
  | fuel + 1, depth, cs =>
    match cs with
    | '[' :: cs =>
      match depth with
      | 0 => none
      | depth + 1 => (readElements? fuel depth cs).map fun r => (.array false r.1, r.2)
    | '{' :: cs =>
      match depth with
      | 0 => none
      | depth + 1 =>
        (readPairs? fuel depth cs).bind fun r => (braced? r.1).map fun v => (v, r.2)
    | '"' :: _ | '\'' :: _ => (readString? cs).map fun r => (.string r.1, r.2)
    | cs =>
      let (chars, rest) := spanScalar cs
      (readScalar? chars).map fun v => (v, rest)

/-- The elements of an array after its opening bracket or a comma, and the end of the array. -/
def readElements? : Nat → Nat → List Char → Option (List Value × List Char)
  | 0, _, _ => none
  | fuel + 1, depth, cs =>
    match skipFiller? false cs with
    | none => none
    | some (']' :: cs) => some ([], cs)
    | some cs =>
      match readValue? fuel depth cs with
      | none => none
      | some (v, cs) =>
        match skipFiller? false cs with
        | some (']' :: cs) => some ([v], cs)
        | some (',' :: cs) => (readElements? fuel depth cs).map fun r => (v :: r.1, r.2)
        | _ => none

/-- The assignments of a table in braces after its opening brace or a comma, and the end of the
table. -/
def readPairs? : Nat → Nat → List Char → Option (List Assignment × List Char)
  | 0, _, _ => none
  | fuel + 1, depth, cs =>
    match skipFiller? false cs with
    | none => none
    | some ('}' :: cs) => some ([], cs)
    | some cs =>
      match readKey? depthLimit cs with
      | none => none
      | some (key, cs) =>
        match (skipBracedEquals? cs).bind (readValue? fuel depth) with
        | none => none
        | some (v, cs) =>
          match skipFiller? false cs with
          | some ('}' :: cs) => some ([⟨key, v⟩], cs)
          | some (',' :: cs) => (readPairs? fuel depth cs).map fun r => (⟨key, v⟩ :: r.1, r.2)
          | _ => none

end

def readAssignment? (cs : List Char) : Option (Assignment × List Char) :=
  match readKey? depthLimit cs with
  | none => none
  | some (key, cs) =>
    (skipEquals? cs).bind fun cs =>
      (readValue? (2 * cs.length + 1) depthLimit cs).map fun r => (⟨key, r.1⟩, r.2)

/-- A header after its opening bracket. -/
def readHeader? : List Char → Option (Header × List Char)
  | '[' :: cs =>
    match readKey? depthLimit (skipBlanks cs) with
    | some (key, ']' :: ']' :: cs) => some (⟨true, key⟩, cs)
    | _ => none
  | cs =>
    match readKey? depthLimit (skipBlanks cs) with
    | some (key, ']' :: cs) => some (⟨false, key⟩, cs)
    | _ => none

/-- A header or an assignment. -/
def readLine? : List Char → Option (Line × List Char)
  | '[' :: cs => (readHeader? cs).map fun r => (.header r.1, r.2)
  | cs => (readAssignment? cs).map fun r => (.assignment r.1, r.2)

/-- Whether the line ends here, blanks and a comment aside. -/
def endsLine (cs : List Char) : Bool :=
  match skipBlanks cs with
  | [] | '#' :: _ | '\n' :: _ | '\r' :: '\n' :: _ => true
  | _ => false

/-- The lines of a text, of which there are at most `fuel`. -/
def readLines? : Nat → List Char → Option (List Line)
  | 0, _ => none
  | fuel + 1, cs =>
    match skipFiller? false cs with
    | none => none
    | some [] => some []
    | some cs =>
      match readLine? cs with
      | none => none
      | some (line, cs) =>
        if endsLine cs then (readLines? fuel cs).map (line :: ·) else none

/-- The rest after a byte order mark. -/
def skipMark : List Char → List Char
  | '\uFEFF' :: cs => cs
  | cs => cs

def Document.ofText? (text : String) : Option Document :=
  let cs := skipMark text.toList
  (readLines? (cs.length + 1) cs).map ofLines

end PluginBroker.Toml
