import PluginBroker.Proofs.Run

/-! What a plugin owns stays where it is until the plugin itself has it taken out.  The plugin's part
of the roll can only grow at its end, whatever others do, so its contexts keep their owner, their
shelves and their order. -/

namespace PluginBroker

/-- Whether the operation takes contexts out on behalf of the plugin. -/
def Op.removesFor (p : PluginId) : Op → Bool
  | .unregister q _ | .unregisterUnder q _ => q = p
  | _ => false

/-! ### The plugin's part of the roll -/

namespace Roll

variable {r : Roll} {p : PluginId}

/-- The entries of an owner, oldest first. -/
def ofOwner (r : Roll) (p : PluginId) : Roll := r.filter (·.owner = p)

theorem mem_ofOwner {e : Entry} : e ∈ r.ofOwner p ↔ e ∈ r ∧ e.owner = p := by
  simp [ofOwner]

theorem under_eq_filter (r : Roll) (p : PluginId) (c : Category) (name : String) :
    r.under p c name = (r.ofOwner p).filter fun e => e.category = c ∧ e.name = name := by
  rw [under, ofOwner, List.filter_filter]
  refine List.filter_congr fun e _ => ?_
  by_cases hp : e.owner = p <;> simp [hp]

theorem ofOwner_strike {v : Context} (h : ∀ e ∈ r, e.context = v → e.owner ≠ p) :
    (r.strike v).ofOwner p = r.ofOwner p := by
  rw [ofOwner, ofOwner, strike, List.filter_filter]
  refine List.filter_congr fun e he => ?_
  by_cases hv : e.context = v
  · simp [h e he hv]
  · simp [hv]

theorem ofOwner_strikeUnder {q : PluginId} (hq : q ≠ p) (c : Category) (name : String) :
    (r.strikeUnder q c name).ofOwner p = r.ofOwner p := by
  rw [ofOwner, ofOwner, strikeUnder, List.filter_filter]
  refine List.filter_congr fun e _ => ?_
  by_cases hp : e.owner = p
  · simp [hp, Ne.symm hq]
  · simp [hp]

end Roll

namespace Broker

variable {b : Broker} {r : Roll}

/-- Only the owner of a context is told that it was taken out. -/
theorem Matches.owner_of_unregister (h : b.Matches r) {p : PluginId} {v : Context}
    (ha : (b.unregister p v).answer = true) {e : Entry} (he : e ∈ r) (hv : e.context = v) :
    e.owner = p := by
  by_contra hp
  have notOwned : ¬ b.ownership.owns p v = true := by
    rw [← hv, h.ownership.owns_context_iff h.distinct he]
    exact hp
  rw [unregister_of_not_owns notOwned] at ha
  cases ha

theorem Matches.ownerOf?_iff (h : b.Matches r) {p : PluginId} {v : Context} :
    b.ownerOf? v = some p ↔ ∃ e ∈ r.ofOwner p, e.context = v := by
  have owns := h.ownership.owns_iff h.distinct (p := p) (v := v)
  rw [Ownership.owns, beq_iff_eq] at owns
  rw [ownerOf?, owns]
  simp only [Roll.mem_ofOwner, and_assoc]

theorem Matches.mem_shelf_iff (h : b.Matches r) {e : Entry} (he : e ∈ r) {c : Category}
    {name : String} :
    e.context ∈ b.catalog.shelf c name ↔ e.category = c ∧ e.name = name := by
  rw [h.catalog.shelf, Roll.shelf, List.mem_map]
  constructor
  · rintro ⟨d, hd, hv⟩
    obtain ⟨hd, hcn⟩ := List.mem_filter.mp hd
    rw [h.distinct.eq_of_context hd he hv] at hcn
    exact of_decide_eq_true hcn
  · intro hcn
    exact ⟨e, List.mem_filter.mpr ⟨he, decide_eq_true hcn⟩, rfl⟩

end Broker

/-! ### Runs in which nobody removes for the plugin -/

namespace Session

variable {s : Session} {r : Roll} {p : PluginId}

theorem ofOwner_step (h : s.broker.Matches r) {op : Op} (hop : op.removesFor p = false) :
    r.ofOwner p <+: (r.note op (s.step op).answer).ofOwner p := by
  generalize ha : (s.step op).answer = a
  unfold Roll.note
  split
  · rw [Roll.ofOwner, Roll.ofOwner, List.filter_append]
    exact List.prefix_append _ _
  · next q v =>
    have hq : q ≠ p := by simpa [Op.removesFor] using hop
    -- that it was taken out means that `q` owned it, so it was none of those of `p`
    have kept : (r.strike v).ofOwner p = r.ofOwner p := by
      refine Roll.ofOwner_strike fun e he hv => ?_
      rw [h.owner_of_unregister (Answer.flag.inj ha) he hv]
      exact hq
    exact kept ▸ List.prefix_refl _
  · next q i =>
    have hq : q ≠ p := by simpa [Op.removesFor] using hop
    exact Roll.ofOwner_strikeUnder hq _ _ ▸ List.prefix_refl _
  · exact List.prefix_refl _

theorem ofOwner_run (h : s.broker.Matches r) {ops : List Op}
    (hops : ∀ op ∈ ops, op.removesFor p = false) :
    ∃ after, (s.run ops).broker.Matches after ∧ r.ofOwner p <+: after.ofOwner p := by
  induction ops generalizing s r with
  | nil => exact ⟨r, h, List.prefix_refl _⟩
  | cons op ops ih =>
    obtain ⟨hop, hrest⟩ := List.forall_mem_cons.mp hops
    obtain ⟨after, hafter, hprefix⟩ := ih (matches_step h op) hrest
    exact ⟨after, hafter, (ofOwner_step h hop).trans hprefix⟩

end Session

/-- All that a plugin owns in one broker it owns in the other, on the same shelves and in the same
order; the plugin may own more there, which comes after. -/
structure Broker.KeepsFor (p : PluginId) (b after : Broker) : Prop where
  registered : ∀ v, b.ownerOf? v = some p → after.isRegistered v = true
  owner : ∀ v, b.ownerOf? v = some p → after.ownerOf? v = some p
  place : ∀ v, b.ownerOf? v = some p → ∀ c name,
    v ∈ after.catalog.shelf c name ↔ v ∈ b.catalog.shelf c name
  shelves : ∀ c name, (b.catalog.shelf c name).filter (b.ownership.owns p) <+:
    (after.catalog.shelf c name).filter (after.ownership.owns p)
  list : b.contextsOf p <+: after.contextsOf p

theorem Broker.Matches.keepsFor {b after : Broker} {r r' : Roll} {p : PluginId} (h : b.Matches r)
    (h' : after.Matches r') (hp : r.ofOwner p <+: r'.ofOwner p) : b.KeepsFor p after := by
  have owner : ∀ v, b.ownerOf? v = some p → after.ownerOf? v = some p := by
    intro v hv
    obtain ⟨e, he, hev⟩ := h.ownerOf?_iff.mp hv
    exact h'.ownerOf?_iff.mpr ⟨e, hp.subset he, hev⟩
  constructor
  · intro v hv
    exact Option.isSome_of_eq_some (owner v hv)
  · exact owner
  · intro v hv c name
    -- one entry accounts for the context before and after
    obtain ⟨e, he, rfl⟩ := h.ownerOf?_iff.mp hv
    rw [h.mem_shelf_iff (Roll.mem_ofOwner.mp he).1,
      h'.mem_shelf_iff (Roll.mem_ofOwner.mp (hp.subset he)).1]
  · intro c name
    rw [h.owned_on_shelf, h'.owned_on_shelf, Roll.under_eq_filter, Roll.under_eq_filter]
    exact (hp.filter _).map _
  · rw [contextsOf, contextsOf, h.ownership.contextsOf, h'.ownership.contextsOf]
    exact hp.map _

/-- In whatever state a run has left the broker, a plugin keeps all that it owns through every
further run in which nothing is taken out on its behalf. -/
theorem Session.run_keepsFor (gated : Bool) (ops more : List Op) (p : PluginId)
    (hmore : ∀ op ∈ more, op.removesFor p = false) :
    ((fresh gated).run ops).broker.KeepsFor p ((fresh gated).run (ops ++ more)).broker := by
  have h := matches_roll gated ops
  obtain ⟨after, hafter, hprefix⟩ := ofOwner_run h hmore
  rw [run_append]
  exact h.keepsFor hafter hprefix

/-- Plugin 2 shares a shelf with plugin 1 and does what it can to have it cleared. -/
theorem Session.raid_keepsFor :
    let report (n : Nat) : Op := .report ⟨n⟩ { interfaces := [.root .memory] }
    let register (p n) : Op := .register ⟨p⟩ ⟨n⟩ (.root .memory)
    let start := [report 0, report 1, report 2, register 1 0, register 2 1, register 1 2]
    let raid : List Op := [.unregister ⟨2⟩ ⟨0⟩, .unregisterUnder ⟨2⟩ (.root .memory),
      .report ⟨0⟩ { interfaces := [.root .cpu], id? := some "x" },
      .register ⟨2⟩ ⟨0⟩ (.root .cpu), .setToken "t", .bind "u" fun _ _ => false, register 2 1]
    (∀ op ∈ raid, op.removesFor ⟨1⟩ = false) ∧
    ((fresh false).run start).broker.contextsOf ⟨1⟩ = [⟨0⟩, ⟨2⟩] ∧
    ((fresh false).run start).broker.catalog.shelf .memory "MemoryContext" = [⟨0⟩, ⟨1⟩, ⟨2⟩] ∧
    ((fresh false).run start).broker.KeepsFor ⟨1⟩ ((fresh false).run (start ++ raid)).broker := by
  intro report register start raid
  have bystander : ∀ op ∈ raid, op.removesFor ⟨1⟩ = false := by
    simp [raid, register, Op.removesFor]
  exact ⟨bystander, by decide, by decide, run_keepsFor false start raid ⟨1⟩ bystander⟩

end PluginBroker
