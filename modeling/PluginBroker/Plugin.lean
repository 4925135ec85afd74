import PluginBroker.Numeral

/-! Plugins are known to the broker by a number only. -/

namespace PluginBroker

/-- The number that the host gave a plugin. -/
structure PluginId where
  number : UInt64
deriving DecidableEq

def PluginId.text (p : PluginId) : String := Numeral.text p.number.toNat

end PluginBroker
