import PluginBroker.Category
import PluginBroker.Numeral

/-! Interfaces: the four root contracts, one per category, and extensions, each with one parent, a
declared contract and methods of its own. -/

namespace PluginBroker

/-- One method of an interface, described by the canonical names of its types. -/
structure Method where
  name : String
  returns : String
  params : List String := []
deriving DecidableEq

/-- What an extension declares about its shape: a version, and the text of the fingerprint that its
methods are meant to have. -/
structure Contract where
  version : UInt32
  fingerprint : String
deriving DecidableEq

def Contract.text (c : Contract) : String :=
  "v" ++ Numeral.text c.version.toNat ++ ":" ++ c.fingerprint

/-- The root contract of a category, or an interface that extends another one. -/
inductive Interface where
  | root (category : Category)
  | extension (name : String) (parent : Interface) (contract : Contract) (methods : List Method)
deriving DecidableEq

namespace Category

def rootName : Category → String
  | cpu => "CpuContext"
  | memory => "MemoryContext"
  | device => "DeviceContext"
  | compiler => "CompilerContext"

def rootMethods : Category → List Method
  | cpu =>
    [⟨"clear_interrupt", "()", ["DeviceContext", "u8"]⟩, ⟨"id", "Option<&str>", []⟩,
      ⟨"is_interrupt_supported", "bool", []⟩, ⟨"set_interrupt", "()", ["DeviceContext", "u8"]⟩]
  | memory =>
    [⟨"clear", "()", []⟩, ⟨"data_type", "DataType", []⟩, ⟨"id", "Option<&str>", []⟩,
      ⟨"read", "Word", ["u64"]⟩, ⟨"write", "()", ["u64", "Word"]⟩]
  | device =>
    [⟨"data_type", "DataType", []⟩, ⟨"id", "Option<&str>", []⟩, ⟨"read", "Word", []⟩,
      ⟨"write", "()", ["Word"]⟩]
  | compiler => [⟨"id", "Option<&str>", []⟩, ⟨"program_start", "Option<u64>", []⟩]

end Category

namespace Interface

def name : Interface → String
  | root c => c.rootName
  | extension n _ _ _ => n

/-- The interface's own methods in the order of declaration, without inherited ones. -/
def methods : Interface → List Method
  | root c => c.rootMethods
  | extension _ _ _ ms => ms

/-- The declared contract; root contracts declare none. -/
def contract? : Interface → Option Contract
  | root _ => none
  | extension _ _ c _ => some c

/-- The interface that is extended; root contracts extend none. -/
def parent? : Interface → Option Interface
  | root _ => none
  | extension _ p _ _ => some p

def isRoot (i : Interface) : Bool := i.parent?.isNone

def category : Interface → Category
  | root c => c
  | extension _ p _ _ => p.category

/-- Whether the interface, or one that it descends from, has the name. -/
def bears : Interface → String → Bool
  | root c, n => c.rootName == n
  | extension m p _ _, n => m == n || p.bears n

/-- Whether the interface stands in for `other`: both have one category, and the name of `other` is
borne on the way from the interface to its root. -/
def refines (i other : Interface) : Bool := i.category == other.category && i.bears other.name

end Interface

end PluginBroker
