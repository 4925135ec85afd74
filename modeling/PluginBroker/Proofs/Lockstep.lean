import Mathlib.Algebra.GroupWithZero.Nat
import PluginBroker.Proofs.Run

/-! The three places that hold the registered contexts stay in step over every run: the tables, the
owned lists and the index of owners all show the one roll that the answers tell. -/

namespace PluginBroker

/-- The contexts of all shelves of all tables. -/
def Catalog.values (k : Catalog) : List Context := Category.all.flatMap fun c => (k.table c).values

theorem Catalog.Matches.values_perm {k : Catalog} {r : Roll} (h : k.Matches r) :
    k.values.Perm (r.map (·.context)) := by
  let groups := Category.all.map fun c => (c, (r.filter (·.category = c)).map (·.context))
  have tables : k.values.Perm (groups.flatMap (·.2)) := by
    rw [List.flatMap_map]
    exact List.Perm.flatMap_left _ fun c _ => h.perm c
  have keys : (groups.map (·.1)).Nodup := by
    rw [List.map_map]
    exact Category.nodup_all
  have whole : (groups.flatMap (·.2)).Perm ((r.map fun e => (e.category, e.context)).map (·.2)) := by
    refine Multimap.flatMap_perm keys fun c => ?_
    rw [List.filter_map, List.map_map]
    cases c <;> rfl
  rw [List.map_map] at whole
  exact tables.trans whole

theorem Catalog.length_values (k : Catalog) : k.values.length = (Category.all.map k.size).sum := by
  rw [Catalog.values, List.length_flatMap]
  rfl

namespace Broker

/-- Nobody owns the context, no shelf has it, and no owned list has it. -/
def Nowhere (b : Broker) (v : Context) : Prop :=
  b.ownerOf? v = none ∧ v ∉ b.catalog.values ∧ ∀ p, v ∉ b.contextsOf p

/-- The plugin is the one owner of the context, which stands once in the plugin's owned list, in no
other owned list, and once on all shelves together. -/
def HeldBy (b : Broker) (v : Context) (p : PluginId) : Prop :=
  b.ownerOf? v = some p ∧ (b.contextsOf p).count v = 1 ∧ (∀ q, q ≠ p → v ∉ b.contextsOf q) ∧
    b.catalog.values.count v = 1

/-- The tables, the owned lists and the index of owners hold the same contexts, each once. -/
structure Lockstep (b : Broker) : Prop where
  held : ∀ v, b.Nowhere v ∨ ∃ p, b.HeldBy v p
  shelves : ∀ c, ∀ e ∈ (b.catalog.table c).entries, e.2 ≠ []
  lists : ∀ e ∈ b.ownership.contexts.entries, e.2 ≠ []
  sizes : (Category.all.map b.size).sum = b.ownership.size
  owned : b.ownership.contexts.size = b.ownership.size
  isEmpty_iff : b.isEmpty = true ↔ ∀ c, b.size c = 0

variable {b : Broker} {r : Roll}

theorem Matches.nowhere (h : b.Matches r) {v : Context} (hv : ∀ e ∈ r, e.context ≠ v) :
    b.Nowhere v := by
  refine ⟨?_, ?_, ?_⟩
  · rw [ownerOf?, h.ownership.ownerOf?, Roll.entryOf?_eq_none.mpr hv, Option.map_none]
  · rw [h.catalog.values_perm.mem_iff]
    intro hm
    obtain ⟨e, he, hc⟩ := List.mem_map.mp hm
    exact hv e he hc
  · intro p
    rw [contextsOf, h.ownership.contextsOf, Roll.mem_contextsOf]
    rintro ⟨e, he, -, hc⟩
    exact hv e he hc

theorem Matches.heldBy (h : b.Matches r) {e : Entry} (he : e ∈ r) :
    b.HeldBy e.context e.owner := by
  refine ⟨h.ownership.ownerOf?_eq h.distinct he, ?_, ?_, ?_⟩
  · rw [contextsOf, h.ownership.contextsOf]
    have hm : e.context ∈ r.contextsOf e.owner := Roll.mem_contextsOf.mpr ⟨e, he, rfl, rfl⟩
    exact List.count_eq_one_of_mem (h.distinct.filter _) hm
  · intro q hq
    rw [contextsOf, h.ownership.contextsOf, Roll.mem_contextsOf]
    rintro ⟨d, hd, hp, hc⟩
    rw [h.distinct.eq_of_context hd he hc] at hp
    exact hq hp.symm
  · rw [h.catalog.values_perm.count_eq]
    exact List.count_eq_one_of_mem h.distinct (List.mem_map_of_mem he)

theorem Matches.sum_size (h : b.Matches r) : (Category.all.map b.size).sum = r.length := by
  have hlength := h.catalog.values_perm.length_eq
  rwa [Catalog.length_values, List.length_map] at hlength

theorem Matches.isEmpty_iff (h : b.Matches r) : b.isEmpty = true ↔ r = [] := by
  rw [isEmpty, h.ownership.size, beq_iff_eq, List.length_eq_zero_iff]

theorem Matches.lockstep (h : b.Matches r) : b.Lockstep where
  held v := by
    by_cases hv : ∃ e ∈ r, e.context = v
    · obtain ⟨e, he, rfl⟩ := hv
      exact .inr ⟨e.owner, h.heldBy he⟩
    · exact .inl (h.nowhere fun e he hc => hv ⟨e, he, hc⟩)
  shelves c := (b.catalog.table c).nonempty
  lists := b.ownership.contexts.nonempty
  sizes := h.sum_size.trans h.ownership.size.symm
  owned := by rw [h.ownership.lists.size, List.length_map, h.ownership.size]
  isEmpty_iff := by
    rw [h.isEmpty_iff]
    constructor
    · rintro rfl c
      exact h.catalog.size c
    · intro hc
      have := h.sum_size
      simpa [Category.all, hc, eq_comm] using this

theorem Matches.judge_ne_diverged (h : b.Matches r) (p : PluginId) (v : Context) :
    b.judge p v ≠ .diverged := by
  intro hj
  unfold judge at hj
  split at hj
  · split at hj
    · cases hj
    · next ho =>
      split at hj
      · next hc =>
        obtain ⟨e, he, rfl⟩ := h.catalog.contains_iff.mp hc
        rw [h.ownership.ownerOf?_eq h.distinct he] at ho
        cases ho
      · cases hj
  · cases hj

theorem Matches.take?_isSome (h : b.Matches r) {p : PluginId} {v : Context}
    (ho : b.ownership.owns p v = true) : (b.catalog.take? v).isSome = true := by
  obtain ⟨e, he, -, rfl⟩ := (h.ownership.owns_iff h.distinct).mp ho
  obtain ⟨catalog, htake, -⟩ := h.catalog.take? h.distinct he
  rw [htake, Option.isSome_some]

end Broker

/-- In every state that a run reaches, the tables, the owned lists and the index are in step, no
permission check finds a registered context without an owner, no owner of a context finds it missing
from the tables, and a context is taken out for exactly the plugin that owns it. -/
theorem Session.run_lockstep (gated : Bool) (ops : List Op) :
    ((fresh gated).run ops).broker.Lockstep ∧
    (∀ p v, ((fresh gated).run ops).broker.judge p v ≠ .diverged) ∧
    (∀ p v, ((fresh gated).run ops).broker.ownership.owns p v = true →
      (((fresh gated).run ops).broker.catalog.take? v).isSome = true) ∧
    ∀ p v, (((fresh gated).run ops).broker.unregister p v).answer =
      ((fresh gated).run ops).broker.ownership.owns p v :=
  have h := matches_roll gated ops
  ⟨h.lockstep, h.judge_ne_diverged, fun _ _ ho => h.take?_isSome ho, h.unregister_answer⟩

/-! ### The one roll -/

/-- All that can be asked of a broker about what is registered is answered from the roll. -/
structure Broker.Shows (b : Broker) (r : Roll) : Prop where
  distinct : r.Distinct
  shelves : ∀ c name, b.catalog.shelf c name = r.shelf c name
  positions : ∀ profiles requester i, (∀ v ∈ r.shelf i.category i.name,
      b.gated i.category = true → b.permits requester v = true) →
    ∀ n v, (b.lookup profiles requester i (.nth n)).answer = .ok (some v) ↔
      (r.shelf i.category i.name)[n]? = some v
  lists : ∀ p, b.contextsOf p = r.contextsOf p
  owner : ∀ e ∈ r, b.ownerOf? e.context = some e.owner
  ownerless : ∀ v, (∀ e ∈ r, e.context ≠ v) → b.ownerOf? v = none
  registered : ∀ v, b.isRegistered v = true ↔ ∃ e ∈ r, e.context = v
  sizes : ∀ c, b.size c = (r.filter (·.category = c)).length
  isEmpty_iff : b.isEmpty = true ↔ r = []

theorem Broker.Matches.positions {b : Broker} {r : Roll} (h : b.Matches r) (profiles : Profiles)
    (requester : PluginId) (i : Interface) (hp : ∀ v ∈ r.shelf i.category i.name,
      b.gated i.category = true → b.permits requester v = true) (n : Nat) (v : Context) :
    (b.lookup profiles requester i (.nth n)).answer = .ok (some v) ↔
      (r.shelf i.category i.name)[n]? = some v := by
  rw [lookup, lookupIn_some_iff, Catalog.pick_nth_iff, h.catalog.shelf]
  constructor
  · exact fun hl => hl.2.1
  · exact fun hv => ⟨rfl, hv, hp v (List.mem_of_getElem? hv)⟩

/-- After every run, all that can be asked about what is registered is answered from the roll that
the answers of the run tell. -/
theorem Session.run_shows_roll (gated : Bool) (ops : List Op) :
    ((fresh gated).run ops).broker.Shows (roll gated ops) := by
  have h := matches_roll gated ops
  constructor
  · exact h.distinct
  · exact h.catalog.shelf
  · exact h.positions
  · exact h.ownership.contextsOf
  · exact fun e he => h.ownership.ownerOf?_eq h.distinct he
  · exact fun v hv => (h.nowhere hv).1
  · exact fun v => h.ownership.isOwned_iff
  · exact h.catalog.size
  · exact h.isEmpty_iff

end PluginBroker
