import PluginBroker.Digest.Sha256
import PluginBroker.LinkSet

/-! Trust in the host.  The host sets a token once and binds a graph by presenting the same token
again; only the token's digest is kept, and nothing is permitted before a graph is bound. -/

namespace PluginBroker

/-- How far the host has come, with the digest of its token and the graph in force. -/
inductive Trust where
  | unbootstrapped
  | unbound (token : Digest)
  | bound (token : Digest) (graph : Graph)

inductive Phase where
  | unbootstrapped
  | unbound
  | bound
deriving DecidableEq

namespace Phase

/-- The word for the phase in data. -/
def text : Phase → String
  | unbootstrapped => "unbootstrapped"
  | unbound => "unbound"
  | bound => "bound"

/-- The word for the phase in descriptions. -/
def title : Phase → String
  | unbootstrapped => "Unbootstrapped"
  | unbound => "Unbound"
  | bound => "Bound"

end Phase

namespace Trust

def phase : Trust → Phase
  | unbootstrapped => .unbootstrapped
  | unbound _ => .unbound
  | bound _ _ => .bound

def token? : Trust → Option Digest
  | unbootstrapped => none
  | unbound d => some d
  | bound d _ => some d

def graph? : Trust → Option Graph
  | bound _ g => some g
  | _ => none

/-- Sets the token; `none` if there is one already or the new one is empty. -/
def setToken? (t : Trust) (token : String) : Option Trust :=
  match t with
  | unbootstrapped => if token.isEmpty then none else some (.unbound (Sha256.hashText token))
  | _ => none

/-- Puts a graph in force, in place of an earlier one; `none` if no token was set or another one is
presented. -/
def bind? (t : Trust) (presented : String) (graph : Graph) : Option Trust :=
  match t.token? with
  | some d => if d = Sha256.hashText presented then some (.bound d graph) else none
  | none => none

/-- Whether the graph in force connects the requester to the owner; before a graph is bound nothing
is connected. -/
def connects (t : Trust) (requester owner : PluginId) : Bool :=
  match t.graph? with
  | some g => g requester owner
  | none => false

end Trust

end PluginBroker
