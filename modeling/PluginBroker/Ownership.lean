import PluginBroker.Context
import PluginBroker.Multimap
import PluginBroker.Plugin

/-! Which plugin owns which registered contexts, kept both as a list per plugin and as an index from
contexts to owners. -/

namespace PluginBroker

/-- The contexts of each plugin in the order of registration, and the owner of each context. -/
structure Ownership where
  contexts : Multimap PluginId Context := .empty
  owners : List (Context × PluginId) := []
deriving DecidableEq

namespace Ownership

def empty : Ownership := {}

def ownerOf? (o : Ownership) (v : Context) : Option PluginId := o.owners.lookup v

def isOwned (o : Ownership) (v : Context) : Bool := (o.ownerOf? v).isSome

def owns (o : Ownership) (p : PluginId) (v : Context) : Bool := o.ownerOf? v == some p

/-- The contexts of a plugin, oldest first. -/
def contextsOf (o : Ownership) (p : PluginId) : List Context := o.contexts.get p

def ownsAny (o : Ownership) (p : PluginId) : Bool := !(o.contextsOf p).isEmpty

def size (o : Ownership) : Nat := o.owners.length

/-- Gives a context to a plugin, unless it has an owner already. -/
def grant (o : Ownership) (p : PluginId) (v : Context) : Ownership :=
  if o.isOwned v then o else ⟨o.contexts.push p v, o.owners ++ [(v, p)]⟩

/-- Takes a context from a plugin, if the plugin is its owner. -/
def revoke (o : Ownership) (p : PluginId) (v : Context) : Ownership :=
  if o.owns p v then ⟨o.contexts.filterAt p (· != v), o.owners.filter (·.1 != v)⟩ else o

/-- Takes a list of contexts from a plugin, as far as it owns them. -/
def revokeAll (o : Ownership) (p : PluginId) (vs : List Context) : Ownership :=
  vs.foldl (fun o v => o.revoke p v) o

end Ownership

end PluginBroker
