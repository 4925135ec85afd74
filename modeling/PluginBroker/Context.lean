import PluginBroker.Interface

/-! Contexts are what plugins register.  The broker tells them apart by identity alone, and asks
them for their interfaces and their id at the moment of each call. -/

namespace PluginBroker

structure Context where
  token : Nat
deriving DecidableEq

/-- What a context reports when it is asked: the interfaces that it implements, and an id if it has
one. -/
structure Profile where
  interfaces : List Interface := []
  id? : Option String := none
deriving DecidableEq

/-- What each context reports at one moment. -/
abbrev Profiles := Context → Profile

end PluginBroker
