import PluginBroker.Broker.Event
import PluginBroker.Catalog
import PluginBroker.Ownership
import PluginBroker.Trust

/-! The broker: plugins register contexts under interfaces, only the owner of a context can take it
out again, and lookups are answered as the bound graph permits.  Every operation answers, logs at
most one event, and leaves a broker behind. -/

namespace PluginBroker

/-- The catalog and the owners of what is in it, the trust in the host, and whether lookups of
compiler contexts need permission like all others. -/
structure Broker where
  catalog : Catalog := .empty
  ownership : Ownership := .empty
  trust : Trust := .unbootstrapped
  compilerGated : Bool := false

/-- What an operation answers, the broker after it, and the event that it logs, if any. -/
structure Reply (α : Type) where
  answer : α
  broker : Broker
  event? : Option Event := none

/-- What a lookup comes to before denial is made to look like absence. -/
inductive Finding where
  | absent
  | denied
  | found (v : Context)
deriving DecidableEq

def Finding.shown? : Finding → Option Context
  | found v => some v
  | absent | denied => none

/-- What a permission check comes to: no graph is bound, nobody registered the context, the context
is registered but has no owner, which is a fault of the broker, or the graph answers. -/
inductive Verdict where
  | unbound
  | unregistered
  | diverged
  | answered (connected : Bool)
deriving DecidableEq

def Verdict.allows : Verdict → Bool
  | answered connected => connected
  | unbound | unregistered | diverged => false

def categoriesOf (declared : List Interface) : List Category :=
  Category.all.filter fun c => declared.any fun d => d.category == c

namespace Broker

def fresh (compilerGated : Bool) : Broker := { compilerGated }

/-! ### Registration -/

/-- The category in which a context that declares `declared` is to be registered under `i`, or the
first check that fails: some declared interface stands in for `i`, all of them descend from the root
contract of `i`, the fingerprint of `i` is the declared one, and the context has no owner yet. -/
def admission (b : Broker) (declared : List Interface) (v : Context) (i : Interface) :
    Except Refusal Category :=
  if declared.any fun d => d.refines i then
    match categoriesOf declared with
    | [c] =>
      if c = i.category then
        match i.check with
        | .ok _ => if b.ownership.isOwned v then .error .taken else .ok c
        | .error d => .error (.drifted i.name d)
      else .error (.unimplemented i.name)
    | cs => .error (.ambiguous cs)
  else .error (.unimplemented i.name)

def enter (b : Broker) (p : PluginId) (v : Context) (c : Category) (name : String) : Broker :=
  { b with catalog := b.catalog.put c name v, ownership := b.ownership.grant p v }

def register (b : Broker) (profiles : Profiles) (p : PluginId) (v : Context) (i : Interface) :
    Reply (Except Refusal Unit) :=
  match b.admission (profiles v).interfaces v i with
  | .ok c => ⟨.ok (), b.enter p v c i.name, some (.registered p i.name c (profiles v).id?)⟩
  | .error r => ⟨.error r, b, some (.refused p i.name r)⟩

/-- Takes out a context if the plugin is its owner. -/
def unregister (b : Broker) (p : PluginId) (v : Context) : Reply Bool :=
  if b.ownership.owns p v then
    match b.catalog.take? v with
    | some (c, catalog) =>
      ⟨true, { b with catalog, ownership := b.ownership.revoke p v }, some (.unregistered p c)⟩
    | none => ⟨false, b, none⟩
  else ⟨false, b, none⟩

/-- Takes out every context that the plugin registered under the interface. -/
def unregisterUnder (b : Broker) (p : PluginId) (i : Interface) : Reply Bool :=
  if b.ownership.ownsAny p then
    let (taken, catalog) := b.catalog.takeWhere i.category i.name (b.ownership.owns p)
    let after := { b with catalog, ownership := b.ownership.revokeAll p taken }
    if taken.isEmpty then ⟨false, after, none⟩
    else ⟨true, after, some (.unregisteredUnder p i.name taken.length)⟩
  else ⟨false, b, none⟩

/-! ### Trust and permission -/

/-- Sets the trust token, which can be done once. -/
def setToken (b : Broker) (token : String) : Reply Bool :=
  match b.trust.setToken? token with
  | some trust => ⟨true, { b with trust }, some .tokenSet⟩
  | none => ⟨false, b, some .tokenRejected⟩

/-- Binds a graph if the trust token is presented; the caller is not told whether it was. -/
def bind (b : Broker) (token : String) (graph : Graph) : Reply Unit :=
  match b.trust.bind? token graph with
  | some trust => ⟨(), { b with trust }, some .graphBound⟩
  | none => ⟨(), b, some .graphRejected⟩

def phase (b : Broker) : Phase := b.trust.phase

/-- Checks what the graph in force says of the requester and the owner of the context. -/
def judge (b : Broker) (requester : PluginId) (v : Context) : Verdict :=
  if b.phase = .bound then
    match b.ownership.ownerOf? v with
    | some owner => .answered (b.trust.connects requester owner)
    | none => if b.catalog.contains v then .diverged else .unregistered
  else .unbound

/-- Whether the requester may use the context: a graph is bound, the context has an owner, and the
graph connects the two. -/
def permits (b : Broker) (requester : PluginId) (v : Context) : Bool :=
  (b.judge requester v).allows

/-- Whether lookups in the category need permission. -/
def gated (b : Broker) (c : Category) : Bool := c != .compiler || b.compilerGated

/-! ### Lookup -/

/-- Looks for a context of an interface in a category.  In a category that is not the interface's
own nothing is found; a context that was chosen is denied if lookups in the category need permission
and the requester has none. -/
def find (b : Broker) (profiles : Profiles) (c : Category) (requester : PluginId) (i : Interface)
    (choice : Choice) : Except OutOfRange Finding :=
  if i.category = c then
    match b.catalog.pick profiles c i.name choice with
    | .ok (some v) =>
      if b.gated c && !b.permits requester v then .ok .denied else .ok (.found v)
    | .ok none => .ok .absent
    | .error e => .error e
  else .ok .absent

/-- Looks up a context of an interface in a category; what is denied is answered like what is
absent, and only the log tells them apart. -/
def lookupIn (b : Broker) (profiles : Profiles) (c : Category) (requester : PluginId)
    (i : Interface) (choice : Choice) : Reply (Except OutOfRange (Option Context)) :=
  match b.find profiles c requester i choice with
  | .ok .denied => ⟨.ok none, b, some (.lookupDenied requester i.name c)⟩
  | .ok finding => ⟨.ok finding.shown?, b, none⟩
  | .error e => ⟨.error e, b, none⟩

/-- Looks up a context of an interface in the interface's own category. -/
def lookup (b : Broker) (profiles : Profiles) (requester : PluginId) (i : Interface)
    (choice : Choice) : Reply (Except OutOfRange (Option Context)) :=
  b.lookupIn profiles i.category requester i choice

def cpuContext (b : Broker) (profiles : Profiles) := b.lookupIn profiles .cpu

def memoryContext (b : Broker) (profiles : Profiles) := b.lookupIn profiles .memory

def deviceContext (b : Broker) (profiles : Profiles) := b.lookupIn profiles .device

def compilerContext (b : Broker) (profiles : Profiles) := b.lookupIn profiles .compiler

/-! ### What is registered -/

def ownerOf? (b : Broker) (v : Context) : Option PluginId := b.ownership.ownerOf? v

/-- The contexts of a plugin in the order of registration. -/
def contextsOf (b : Broker) (p : PluginId) : List Context := b.ownership.contextsOf p

def isRegistered (b : Broker) (v : Context) : Bool := b.ownership.isOwned v

def size (b : Broker) (c : Category) : Nat := b.catalog.size c

def isEmpty (b : Broker) : Bool := b.ownership.size == 0

/-- A description for people: the size of each table, the phase and the policy. -/
def describe (b : Broker) : String :=
  let sizes := Category.all.map fun c => c.text ++ ": " ++ Numeral.text (b.size c)
  "ContextBroker \x7b registry: ContextRegistry \x7b " ++ String.intercalate ", " sizes ++
    " \x7d, trust: " ++ b.phase.title ++ ", compiler_lookups_gated: " ++
    (if b.compilerGated then "true" else "false") ++ ", .. \x7d"

end Broker

end PluginBroker
