import PluginBroker.Broker.Refusal
import PluginBroker.Plugin

/-! The log.  Every event has a level, a message and named fields, and none of them holds a trust
token or anything computed from one. -/

namespace PluginBroker

inductive Level where
  | debug
  | info
  | warn
deriving DecidableEq

def Level.text : Level → String
  | debug => "debug"
  | info => "info"
  | warn => "warn"

inductive Event where
  | registered (plugin : PluginId) (interface : String) (category : Category) (id? : Option String)
  | refused (plugin : PluginId) (interface : String) (refusal : Refusal)
  | unregistered (plugin : PluginId) (category : Category)
  | unregisteredUnder (plugin : PluginId) (interface : String) (removed : Nat)
  | tokenSet
  | tokenRejected
  | graphBound
  | graphRejected
  | lookupDenied (requester : PluginId) (interface : String) (category : Category)
  | configLoaded (path : String) (links : Nat)
deriving DecidableEq

namespace Event

/-- Changes are information, refused attempts to gain trust are warnings, and all else is for
debugging. -/
def level : Event → Level
  | registered .. | unregistered .. | unregisteredUnder .. | tokenSet | graphBound => .info
  | tokenRejected | graphRejected => .warn
  | refused .. | lookupDenied .. | configLoaded .. => .debug

def message : Event → String
  | registered .. => "Registered context"
  | refused .. => "Context registration rejected"
  | unregistered .. => "Unregistered context"
  | unregisteredUnder .. => "Unregistered contexts"
  | tokenSet => "Trust token set"
  | tokenRejected => "Rejected attempt to set trust token"
  | graphBound => "Connection graph bound"
  | graphRejected => "Rejected connection graph binding"
  | lookupDenied .. => "Context lookup denied"
  | configLoaded .. => "Loaded broker config"

/-- The named fields of the event, each as text; an id that is missing is empty. -/
def fields : Event → List (String × String)
  | registered p i c id? =>
    [("plugin_id", p.text), ("interface", i), ("category", c.text), ("context_id", id?.getD "")]
  | refused p i r => [("plugin_id", p.text), ("interface", i), ("error", r.message)]
  | unregistered p c => [("plugin_id", p.text), ("category", c.text)]
  | unregisteredUnder p i n =>
    [("plugin_id", p.text), ("interface", i), ("removed", Numeral.text n)]
  | tokenSet | tokenRejected | graphBound | graphRejected => []
  | lookupDenied r i c => [("requester", r.text), ("interface", i), ("category", c.text)]
  | configLoaded path n => [("path", path), ("links", Numeral.text n)]

end Event

end PluginBroker
