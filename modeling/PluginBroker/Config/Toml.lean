import PluginBroker.Config
import PluginBroker.Toml.Reader

/-! Configurations written in TOML. -/

namespace PluginBroker

/-- A plugin is read from an integer from 0 to `2 ^ 64 - 1`. -/
def PluginId.ofToml? (v : Toml.Value) : Option PluginId :=
  (v.nat?.bind Numeral.toUInt64?).map (⟨·⟩)

/-- A link may be read without saying whether it is bidirectional; then it is not. -/
def Link.ofToml? (v : Toml.Value) : Option Link := do
  let entries ← v.fields? ["from", "to", "bidirectional"]
  let source ← Toml.required? PluginId.ofToml? entries "from"
  let target ← Toml.required? PluginId.ofToml? entries "to"
  let bidirectional ← Toml.optional? Toml.Value.boolean? entries "bidirectional" false
  return { source, target, bidirectional }

def Link.listOfToml? (v : Toml.Value) : Option (List Link) :=
  v.elements?.bind fun es => es.mapM Link.ofToml?

def Topology.ofToml? (v : Toml.Value) : Option Topology := do
  let entries ← v.fields? ["links"]
  let links ← Toml.optional? Link.listOfToml? entries "links" []
  return { links }

namespace Config

/-- Every entry of a configuration may be left out. -/
def ofToml? (v : Toml.Value) : Option Config := do
  let default : Config := {}
  let entries ← v.fields? ["log_filter", "compiler_lookups_gated", "topology"]
  let logFilter ← Toml.optional? Toml.Value.string? entries "log_filter" default.logFilter
  let compilerLookupsGated ← Toml.optional? Toml.Value.boolean? entries "compiler_lookups_gated"
    default.compilerLookupsGated
  let topology ← Toml.optional? Topology.ofToml? entries "topology" default.topology
  return { logFilter, compilerLookupsGated, topology }

def ofDocument? (d : Toml.Document) : Option Config :=
  d.entries?.bind fun es => ofToml? (.table .opened es)

def ofText? (text : String) : Option Config := (Toml.Document.ofText? text).bind ofDocument?

end Config

end PluginBroker
