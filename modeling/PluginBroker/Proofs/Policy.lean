import PluginBroker.Proofs.Run

/-! Where trust and policy have a say.  Registering, unregistering and the questions about what is
registered go the same way under any trust and any policy, and the other questions depend on no more
of trust than the phase and the graph in force. -/

namespace PluginBroker

/-! ### The same broker under another policy -/

namespace Broker

/-- The broker with another trust, and with compiler lookups gated or not. -/
def withPolicy (b : Broker) (trust : Trust) (gated : Bool) : Broker :=
  { b with trust, compilerGated := gated }

end Broker

def Reply.withPolicy {α : Type} (r : Reply α) (trust : Trust) (gated : Bool) : Reply α :=
  { r with broker := r.broker.withPolicy trust gated }

namespace Broker

variable {b : Broker} {profiles : Profiles} {trust : Trust} {gated : Bool}

theorem register_withPolicy (p : PluginId) (v : Context) (i : Interface) :
    (b.withPolicy trust gated).register profiles p v i =
      (b.register profiles p v i).withPolicy trust gated := by
  have admission : (b.withPolicy trust gated).admission (profiles v).interfaces v i =
      b.admission (profiles v).interfaces v i := rfl
  unfold Broker.register
  rw [admission]
  split
  · rfl
  · rfl

theorem unregister_withPolicy (p : PluginId) (v : Context) :
    (b.withPolicy trust gated).unregister p v = (b.unregister p v).withPolicy trust gated := by
  unfold Broker.unregister Broker.withPolicy
  dsimp only
  split
  · split
    · rfl
    · rfl
  · rfl

theorem unregisterUnder_withPolicy (p : PluginId) (i : Interface) :
    (b.withPolicy trust gated).unregisterUnder p i =
      (b.unregisterUnder p i).withPolicy trust gated := by
  unfold Broker.unregisterUnder Broker.withPolicy
  dsimp only
  split
  · split
    · rfl
    · rfl
  · rfl

/-! ### What the questions about permission depend on -/

section Same

variable (hphase : trust.phase = b.trust.phase) (hgraph : trust.graph? = b.trust.graph?)
include hphase hgraph

theorem permits_withPolicy (requester : PluginId) (v : Context) :
    (b.withPolicy trust gated).permits requester v = b.permits requester v := by
  have connects (owner : PluginId) :
      trust.connects requester owner = b.trust.connects requester owner := by
    rw [Trust.connects, Trust.connects, hgraph]
  rw [Bool.eq_iff_iff, permits_iff, permits_iff]
  simp only [phase, ownerOf?, withPolicy, hphase, connects]

theorem lookupIn_withPolicy (c : Category) (requester : PluginId) (i : Interface)
    (choice : Choice) :
    (b.withPolicy trust b.compilerGated).lookupIn profiles c requester i choice =
      (b.lookupIn profiles c requester i choice).withPolicy trust b.compilerGated := by
  have find : (b.withPolicy trust b.compilerGated).find profiles c requester i choice =
      b.find profiles c requester i choice := by
    unfold Broker.find
    simp only [permits_withPolicy hphase hgraph]
    rfl
  unfold lookupIn
  rw [find]
  split <;> rfl

end Same

/-- A description shows the sizes of the tables, the phase and the policy, and nothing else. -/
theorem describe_congr (b d : Broker) (hsize : ∀ c, d.size c = b.size c)
    (hphase : d.phase = b.phase) (hgated : d.compilerGated = b.compilerGated) :
    d.describe = b.describe := by
  unfold describe
  rw [hphase, hgated]
  simp only [hsize]

end Broker

/-! ### Steps -/

def Session.withPolicy (s : Session) (trust : Trust) (gated : Bool) : Session :=
  { s with broker := s.broker.withPolicy trust gated }

def Step.withPolicy (t : Step) (trust : Trust) (gated : Bool) : Step :=
  { t with session := t.session.withPolicy trust gated }

/-- Whether the operation changes trust or asks for trust or policy. -/
def Op.consults : Op → Bool
  | .setToken _ | .bind .. | .phase | .permits .. | .lookupIn .. | .lookup .. | .describe => true
  | _ => false

namespace Session

variable {s : Session} {op : Op} {trust : Trust} {gated : Bool}

theorem step_withPolicy (h : op.consults = false) :
    (s.withPolicy trust gated).step op = (s.step op).withPolicy trust gated := by
  cases op with
  | register p v i =>
    simp only [step, replied, withPolicy, Broker.register_withPolicy]
    rfl
  | unregister p v =>
    simp only [step, replied, withPolicy, Broker.unregister_withPolicy]
    rfl
  | unregisterUnder p i =>
    simp only [step, replied, withPolicy, Broker.unregisterUnder_withPolicy]
    rfl
  | report | ownerOf | contextsOf | isRegistered | size | isEmpty => rfl
  | setToken | bind | phase | permits | lookupIn | lookup | describe => cases h

end Session

end PluginBroker
