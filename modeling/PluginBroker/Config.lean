import PluginBroker.LinkSet

/-! What the host configures: a filter for the log, whether lookups of compiler contexts need
permission, and which plugins are linked. -/

namespace PluginBroker

/-- The links between plugins, as the host wrote them down. -/
structure Topology where
  links : List Link := []
deriving DecidableEq

def Topology.linkSet (t : Topology) : LinkSet := .ofLinks t.links

/-- The configuration of a broker; a host that says nothing gets the defaults. -/
structure Config where
  logFilter : String := "info"
  compilerLookupsGated : Bool := false
  topology : Topology := {}
deriving DecidableEq

end PluginBroker
