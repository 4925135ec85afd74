import PluginBroker.Proofs.Run

/-! Who is let through.  A lookup hands out a context exactly where the policy leaves the category
open or the graph that the host bound last connects the requester to the context's owner; a requester
that is let through to nothing on a shelf is told that nothing is there, except that a position past
the end of a shelf that is not empty is an error whoever asks. -/

namespace PluginBroker

/-! ### The graph in force -/

theorem Trust.connects_iff {t : Trust} {requester owner : PluginId} :
    t.connects requester owner = true ↔
      ∃ graph, t.graph? = some graph ∧ graph requester owner = true := by
  cases t <;> simp [connects, graph?]

theorem Trust.graph?_setToken? {t t' : Trust} {token : String} (h : t.setToken? token = some t') :
    t'.graph? = t.graph? := by
  cases t with
  | unbootstrapped =>
    unfold setToken? at h
    dsimp only at h
    split at h
    · cases h
    · obtain rfl := Option.some.inj h
      rfl
  | unbound d => cases h
  | bound d graph => cases h

theorem Trust.graph?_bind? {t t' : Trust} {token : String} {graph : Graph}
    (h : t.bind? token graph = some t') : t'.graph? = some graph := by
  unfold bind? at h
  split at h
  · split at h
    · obtain rfl := Option.some.inj h
      rfl
    · cases h
  · cases h

namespace Session

/-- The graph of the last accepted bind after an operation, told from the event. -/
def noteGraph (last? : Option Graph) : Op → Option Event → Option Graph
  | .bind _ graph, some .graphBound => some graph
  | _, _ => last?

/-- The graph of the last bind that a run accepted. -/
def lastGraph? (gated : Bool) (ops : List Op) : Option Graph :=
  (fresh gated).watch (fun last? op taken => noteGraph last? op taken.event?) none ops

theorem graph?_step (s : Session) (op : Op) : (s.step op).session.broker.trust.graph? =
    noteGraph s.broker.trust.graph? op (s.step op).event? := by
  rw [step_trust]
  cases op with
  | setToken token =>
    rw [Trust.after, noteGraph]
    · cases h : s.broker.trust.setToken? token with
      | none => rfl
      | some t => exact Trust.graph?_setToken? h
    · simp
  | bind token graph =>
    simp only [Trust.after, step, replied, Broker.bind]
    cases h : s.broker.trust.bind? token graph with
    | none => rfl
    | some t => exact Trust.graph?_bind? h
  | _ => rfl

/-- The graph in force is the one of the last bind that was accepted. -/
theorem run_graph? (gated : Bool) (ops : List Op) :
    ((fresh gated).run ops).broker.trust.graph? = lastGraph? gated ops :=
  watch_induction (P := fun s last? => s.broker.trust.graph? = last?)
    (fun s _ op h => h ▸ graph?_step s op) rfl ops

end Session

/-! ### Who is handed what -/

namespace Session

variable {gated : Bool} {ops : List Op} {requester : PluginId} {c : Category}

/-- After a run the requester has access to a context in a category: the policy leaves the category
open, or a graph is bound and the one that was accepted last connects the requester to the owner. -/
def Access (gated : Bool) (ops : List Op) (requester : PluginId) (c : Category) (v : Context) :
    Prop :=
  (c = .compiler ∧ gated = false) ∨
    (((fresh gated).run ops).broker.phase = .bound ∧ ∃ graph owner,
      lastGraph? gated ops = some graph ∧ ((fresh gated).run ops).broker.ownerOf? v = some owner ∧
        graph requester owner = true)

theorem run_gated_iff : ((fresh gated).run ops).broker.gated c = true ↔
    ¬(c = .compiler ∧ gated = false) := by
  rw [Broker.gated, run_compilerGated]
  cases c <;> cases gated <;> decide

theorem run_permits_iff {v : Context} :
    ((fresh gated).run ops).broker.permits requester v = true ↔
      ((fresh gated).run ops).broker.phase = .bound ∧ ∃ graph owner,
        lastGraph? gated ops = some graph ∧ ((fresh gated).run ops).broker.ownerOf? v = some owner ∧
          graph requester owner = true := by
  rw [Broker.permits_iff, ← run_graph?]
  refine and_congr_right fun _ => ?_
  constructor
  · rintro ⟨owner, ho, hconnects⟩
    obtain ⟨graph, hg, hgraph⟩ := Trust.connects_iff.mp hconnects
    exact ⟨graph, owner, hg, ho, hgraph⟩
  · rintro ⟨graph, owner, hg, ho, hgraph⟩
    exact ⟨owner, ho, Trust.connects_iff.mpr ⟨graph, hg, hgraph⟩⟩

/-- Access is what a lookup asks for: permission where permission is needed. -/
theorem access_iff {v : Context} : Access gated ops requester c v ↔
    (((fresh gated).run ops).broker.gated c = true →
      ((fresh gated).run ops).broker.permits requester v = true) := by
  rw [run_gated_iff, run_permits_iff, Access, or_iff_not_imp_left]

/-- A lookup hands out only what stands on the requested shelf and what the requester has access to,
and hands all of that out by position; where permission is needed, access is permission; and every
way to look up is a lookup in one category. -/
theorem run_lookup_authorised (gated : Bool) (ops : List Op) (requester : PluginId) (c : Category)
    (i : Interface) :
    let s := (fresh gated).run ops
    (∀ choice v, (s.broker.lookupIn s.profiles c requester i choice).answer = .ok (some v) →
      i.category = c ∧ v ∈ s.broker.catalog.shelf c i.name ∧ Access gated ops requester c v) ∧
    (i.category = c → ∀ v ∈ s.broker.catalog.shelf c i.name, Access gated ops requester c v →
      ∃ n < (s.broker.catalog.shelf c i.name).length,
        (s.broker.lookupIn s.profiles c requester i (.nth n)).answer = .ok (some v)) ∧
    (i.category ≠ c → ∀ choice,
      (s.broker.lookupIn s.profiles c requester i choice).answer = .ok none) ∧
    (c ≠ .compiler ∨ gated = true → ∀ v,
      Access gated ops requester c v ↔ s.broker.permits requester v = true) ∧
    (∀ choice, s.broker.lookup s.profiles requester i choice =
      s.broker.lookupIn s.profiles i.category requester i choice) ∧
    s.broker.cpuContext s.profiles = s.broker.lookupIn s.profiles .cpu ∧
    s.broker.memoryContext s.profiles = s.broker.lookupIn s.profiles .memory ∧
    s.broker.deviceContext s.profiles = s.broker.lookupIn s.profiles .device ∧
    s.broker.compilerContext s.profiles = s.broker.lookupIn s.profiles .compiler := by
  intro s
  refine ⟨?_, ?_, ?_, ?_, fun _ => rfl, rfl, rfl, rfl, rfl⟩
  · intro choice v h
    obtain ⟨hc, hpick, hpermits⟩ := Broker.lookupIn_some_iff.mp h
    exact ⟨hc, Catalog.mem_shelf_of_pick hpick, access_iff.mpr hpermits⟩
  · intro hc v hv ha
    obtain ⟨n, hn, hnv⟩ := List.mem_iff_getElem.mp hv
    have pick : s.broker.catalog.pick s.profiles c i.name (.nth n) = .ok (some v) :=
      Catalog.pick_nth_iff.mpr (List.getElem?_eq_some_iff.mpr ⟨hn, hnv⟩)
    exact ⟨n, hn, Broker.lookupIn_some_iff.mpr ⟨hc, pick, access_iff.mp ha⟩⟩
  · intro hc choice
    rw [Broker.lookupIn_answer, Broker.find_of_ne hc]
    rfl
  · intro hc v
    have needed : s.broker.gated c = true := by
      rw [run_gated_iff]
      rintro ⟨rfl, rfl⟩
      simp at hc
    rw [access_iff]
    exact ⟨fun h => h needed, fun h _ => h⟩

/-- An interface that bears the name of another category's root contract is not looked up in that
category, although the shelf of that name has a context that the requester has access to. -/
theorem other_category_hides : ¬ ∀ (gated : Bool) (ops : List Op) (requester : PluginId)
    (c : Category) (i : Interface), ∀ v ∈ ((fresh gated).run ops).broker.catalog.shelf c i.name,
      Access gated ops requester c v →
        ∃ n < (((fresh gated).run ops).broker.catalog.shelf c i.name).length,
          (((fresh gated).run ops).broker.lookupIn ((fresh gated).run ops).profiles c requester i
            (.nth n)).answer = .ok (some v) := by
  intro h
  obtain ⟨n, -, hn⟩ := h false
    [.report ⟨0⟩ { interfaces := [.root .compiler] }, .register ⟨1⟩ ⟨0⟩ (.root .compiler)] ⟨9⟩
    .compiler (.extension "CompilerContext" (.root .cpu) ⟨1, ""⟩ []) ⟨0⟩ (by decide)
    (.inl ⟨rfl, rfl⟩)
  have := (Broker.lookupIn_some_iff.mp hn).1
  cases this

end Session

namespace Broker

variable {b : Broker} {profiles : Profiles} {c : Category} {requester : PluginId} {i : Interface}
  {choice : Choice}

/-! ### Denial looks like absence -/

/-- The requester reaches nothing on a shelf: no graph is bound, or the graph connects it to no
owner of a context on the shelf. -/
def CutOff (b : Broker) (requester : PluginId) (c : Category) (name : String) : Prop :=
  b.phase ≠ .bound ∨ ∀ v ∈ b.catalog.shelf c name, ∀ p, b.ownerOf? v = some p →
    b.trust.connects requester p = false

theorem CutOff.not_permits {name : String} (h : b.CutOff requester c name) {v : Context}
    (hv : v ∈ b.catalog.shelf c name) : ¬ b.permits requester v = true := by
  rw [permits_iff]
  rintro ⟨hb, p, hp, hconnects⟩
  rcases h with hphase | hnone
  · exact hphase hb
  · rw [hnone v hv p hp] at hconnects
    cases hconnects

/-- A requester that is cut off from a shelf gets no context from it. -/
theorem CutOff.lookupIn_ne_some (h : b.CutOff requester i.category i.name)
    (hg : b.gated i.category = true) (v : Context) :
    (b.lookupIn profiles c requester i choice).answer ≠ .ok (some v) := by
  intro hs
  obtain ⟨rfl, hp, hpermits⟩ := lookupIn_some_iff.mp hs
  exact h.not_permits (Catalog.mem_shelf_of_pick hp) (hpermits hg)

/-- What a requester is told of a shelf from which it is cut off is what it is told of an empty
shelf, except that a position past the end of a shelf that is not empty is an error, and the error
has the size of the shelf. -/
theorem lookupIn_of_cutOff (hg : b.gated i.category = true)
    (h : b.CutOff requester i.category i.name) (other : Broker) (others : Profiles)
    (he : other.catalog.shelf i.category i.name = []) (c : Category) :
    (other.lookupIn others c requester i choice).answer = .ok none ∧
    ((b.lookupIn profiles c requester i choice).answer =
        (other.lookupIn others c requester i choice).answer ↔
      ¬(i.category = c ∧ choice.Overruns (b.catalog.shelf c i.name).length)) ∧
    (i.category = c → choice.Overruns (b.catalog.shelf c i.name).length →
      ∃ n, choice = .nth n ∧ (b.lookupIn profiles c requester i choice).answer =
        .error ⟨i.name, n, (b.catalog.shelf c i.name).length⟩) := by
  have absent : (other.lookupIn others c requester i choice).answer = .ok none := by
    rw [lookupIn_answer]
    by_cases hc : i.category = c
    · subst hc
      rw [find, if_pos rfl, Catalog.pick_of_isEmpty he]
      rfl
    · rw [find_of_ne hc]
      rfl
  have overrun (hc : i.category = c) (ho : choice.Overruns (b.catalog.shelf c i.name).length) :
      ∃ n, choice = .nth n ∧ (b.lookupIn profiles c requester i choice).answer =
        .error ⟨i.name, n, (b.catalog.shelf c i.name).length⟩ := by
    cases choice with
    | nth n =>
      exact ⟨n, rfl, lookupIn_error_iff.mpr ⟨hc, Catalog.pick_error_iff.mpr ⟨ho, n, rfl, rfl⟩⟩⟩
    | first | withId id | nthWithId id n => exact ho.elim
  refine ⟨absent, ?_, overrun⟩
  rw [absent]
  constructor
  · rintro hn ⟨hc, ho⟩
    obtain ⟨n, -, herror⟩ := overrun hc ho
    rw [herror] at hn
    cases hn
  · intro hn
    cases ha : (b.lookupIn profiles c requester i choice).answer with
    | error e =>
      obtain ⟨hc, hp⟩ := lookupIn_error_iff.mp ha
      exact absurd ⟨hc, (Catalog.pick_error_iff.mp hp).1⟩ hn
    | ok shown? =>
      cases shown? with
      | none => rfl
      | some v => exact absurd ha (h.lookupIn_ne_some hg v)

/-- Plugin 1 registers a memory context. -/
def lone : List Op :=
  [.report ⟨0⟩ { interfaces := [.root .memory] }, .register ⟨1⟩ ⟨0⟩ (.root .memory)]

/-- Plugin 1 registers a memory context, and the host connects only plugin 3 to anybody. -/
def secluded : List Op := lone ++ [.setToken "t", .bind "t" fun requester _ => requester = ⟨3⟩]

/-- Plugin 2 is cut off by the graph, and a lookup of the first context finds nothing. -/
theorem secluded_first :
    let b := ((Session.fresh false).run secluded).broker
    b.phase = .bound ∧ b.catalog.shelf .memory "MemoryContext" = [⟨0⟩] ∧
    b.gated .memory = true ∧ b.CutOff ⟨2⟩ .memory "MemoryContext" ∧
    (b.lookupIn (fun _ => {}) .memory ⟨2⟩ (.root .memory) .first).answer =
      ((fresh false).lookupIn (fun _ => {}) .memory ⟨2⟩ (.root .memory) .first).answer := by
  intro b
  have heq : b = { ((Session.fresh false).run lone).broker with
      trust := .bound (Sha256.hashText "t") fun requester _ => requester = ⟨3⟩ } := by
    have trust : ((Session.fresh false).run lone).broker.trust = .unbootstrapped := rfl
    simp [b, secluded, Session.run_append, Session.step, Session.replied, setToken_broker,
      bind_broker, trust, Trust.setToken?, Trust.bind?, Trust.token?]
  have shelf : b.catalog.shelf .memory "MemoryContext" = [⟨0⟩] := by rw [heq]; decide
  have cutOff : b.CutOff ⟨2⟩ .memory "MemoryContext" := by
    rw [heq]
    exact .inr fun _ _ _ _ => rfl
  have gated : b.gated .memory = true := by rw [heq]; rfl
  refine ⟨by rw [heq]; rfl, shelf, gated, cutOff, ?_⟩
  have h := @lookupIn_of_cutOff b (fun _ => {}) ⟨2⟩ (.root .memory) .first gated cutOff
    (fresh false) (fun _ => {}) rfl .memory
  exact h.2.1.mpr fun ho => ho.2

/-- Before any graph is bound, a requester that asks for the second memory context is told that
there is one. -/
theorem overrun_tells_size : ¬ ∀ (gated : Bool) (ops : List Op) (requester : PluginId)
    (i : Interface) (choice : Choice), ((Session.fresh gated).run ops).broker.gated i.category = true →
      ((Session.fresh gated).run ops).broker.CutOff requester i.category i.name →
      (((Session.fresh gated).run ops).broker.lookup ((Session.fresh gated).run ops).profiles requester
        i choice).answer = .ok none := by
  intro h
  have hidden := h false lone ⟨2⟩ (.root .memory) (.nth 1) (by decide) (.inl (by decide))
  have error : (((Session.fresh false).run lone).broker.lookup ((Session.fresh false).run lone).profiles
      ⟨2⟩ (.root .memory) (.nth 1)).answer = .error ⟨"MemoryContext", 1, 1⟩ := rfl
  rw [error] at hidden
  cases hidden

end Broker

end PluginBroker
