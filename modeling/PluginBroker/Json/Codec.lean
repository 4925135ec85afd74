import PluginBroker.Config
import PluginBroker.Interface
import PluginBroker.Json.Printer
import PluginBroker.Json.Reader

/-! The types that are exchanged as JSON, each with the value that it is written as and the values
that it is read from. -/

namespace PluginBroker

namespace Json

def ofList {α : Type} (encode : α → Json) (as : List α) : Json := array (as.map encode)

/-- An array of values that can all be decoded. -/
def list? {α : Type} (decode : Json → Option α) (j : Json) : Option (List α) :=
  j.elements?.bind fun es => es.mapM decode

def decode? {α : Type} (ofJson? : Json → Option α) (s : String) : Option α :=
  (ofText? s).bind ofJson?

end Json

namespace Category

def toJson (c : Category) : Json := .text c.text

/-- A category is read from its word, or from an object whose only member has that name and is
null. -/
def ofJson? : Json → Option Category
  | .string s => s.bind ofText?
  | .object [(name, .null)] => name.bind ofText?
  | _ => none

end Category

namespace PluginId

def toJson (p : PluginId) : Json := .nat p.number.toNat

/-- A plugin is read from a natural number below `2 ^ 64`. -/
def ofJson? (j : Json) : Option PluginId := (j.nat?.bind Numeral.toUInt64?).map (⟨·⟩)

end PluginId

namespace Method

def toJson (m : Method) : Json :=
  .record [("name", .text m.name), ("returns", .text m.returns),
    ("params", .ofList .text m.params)]

/-- A method may be read without parameters. -/
def ofJson? (j : Json) : Option Method := do
  let members ← j.fields? ["name", "returns", "params"]
  let name ← Json.required? Json.text? members "name"
  let returns ← Json.required? Json.text? members "returns"
  let params ← Json.optional? (Json.list? Json.text?) members "params" []
  return { name, returns, params }

end Method

namespace Contract

def toJson (c : Contract) : Json :=
  .record [("version", .nat c.version.toNat), ("fingerprint", .text c.fingerprint)]

/-- A version is a natural number below `2 ^ 32`. -/
def ofJson? (j : Json) : Option Contract := do
  let members ← j.fields? ["version", "fingerprint"]
  let version ← Json.required? (fun j => j.nat?.bind Numeral.toUInt32?) members "version"
  let fingerprint ← Json.required? Json.text? members "fingerprint"
  return { version, fingerprint }

end Contract

namespace Link

def toJson (l : Link) : Json :=
  .record [("from", l.source.toJson), ("to", l.target.toJson),
    ("bidirectional", .bool l.bidirectional)]

/-- A link may be read without saying whether it is bidirectional; then it is not. -/
def ofJson? (j : Json) : Option Link := do
  let members ← j.fields? ["from", "to", "bidirectional"]
  let source ← Json.required? PluginId.ofJson? members "from"
  let target ← Json.required? PluginId.ofJson? members "to"
  let bidirectional ← Json.optional? Json.bool? members "bidirectional" false
  return { source, target, bidirectional }

end Link

namespace Topology

def toJson (t : Topology) : Json := .record [("links", .ofList Link.toJson t.links)]

def ofJson? (j : Json) : Option Topology := do
  let members ← j.fields? ["links"]
  let links ← Json.optional? (Json.list? Link.ofJson?) members "links" []
  return { links }

end Topology

namespace Config

def toJson (c : Config) : Json :=
  .record [("log_filter", .text c.logFilter),
    ("compiler_lookups_gated", .bool c.compilerLookupsGated), ("topology", c.topology.toJson)]

/-- Every member of a configuration may be left out. -/
def ofJson? (j : Json) : Option Config := do
  let default : Config := {}
  let members ← j.fields? ["log_filter", "compiler_lookups_gated", "topology"]
  let logFilter ← Json.optional? Json.text? members "log_filter" default.logFilter
  let compilerLookupsGated ←
    Json.optional? Json.bool? members "compiler_lookups_gated" default.compilerLookupsGated
  let topology ← Json.optional? Topology.ofJson? members "topology" default.topology
  return { logFilter, compilerLookupsGated, topology }

end Config

end PluginBroker
