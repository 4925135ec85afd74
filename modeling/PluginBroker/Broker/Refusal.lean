import PluginBroker.Interface.Fingerprint

/-! Why a registration is refused.  A refused registration changes nothing, and no refusal tells of
a lack of permission: what a caller may not see is reported as absent. -/

namespace PluginBroker

/-- The first check that a registration fails. -/
inductive Refusal where
  /-- The context has an owner already. -/
  | taken
  /-- None of the context's interfaces stands in for the requested one. -/
  | unimplemented (interface : String)
  /-- The context's interfaces do not all descend from one root contract. -/
  | ambiguous (categories : List Category)
  /-- The interface declares another fingerprint than its methods have. -/
  | drifted (interface : String) (drift : Drift)
deriving DecidableEq

def Category.titles (cs : List Category) : String :=
  "[" ++ String.intercalate ", " (cs.map title) ++ "]"

def Refusal.message : Refusal → String
  | taken => "context is already registered"
  | unimplemented name => "context does not implement interface " ++ name
  | ambiguous cs => "context implements several root contracts: " ++ Category.titles cs
  | drifted name d =>
    "contract fingerprint mismatch for " ++ name ++ ": expected " ++ d.declared ++ ", actual " ++
      d.actual.text

end PluginBroker
