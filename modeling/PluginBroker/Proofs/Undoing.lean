import PluginBroker.Proofs.Decision
import PluginBroker.Proofs.Removal

/-! Taking a registration back.  A context that was registered last is taken out of the very places
where it was put, so the broker is left as it was before, down to the shelves and lists that it has. -/

namespace PluginBroker

/-! ### The catalog and the owners -/

namespace Roll

variable {r : Roll} {e : Entry}

theorem strike_concat (he : ∀ d ∈ r, d.context ≠ e.context) :
    Roll.strike (r ++ [e]) e.context = r := by
  have kept : r.strike e.context = r := List.filter_eq_self.mpr fun d hd => decide_eq_true (he d hd)
  have struck : Roll.strike [e] e.context = [] := by simp [strike]
  calc Roll.strike (r ++ [e]) e.context
    _ = r.strike e.context ++ Roll.strike [e] e.context := List.filter_append ..
    _ = r := by rw [kept, struck, List.append_nil]

theorem strikeUnder_concat (r : Roll) (e : Entry) :
    Roll.strikeUnder (r ++ [e]) e.owner e.category e.name = r.strikeUnder e.owner e.category e.name := by
  simp [strikeUnder]

end Roll

namespace Catalog

variable {k : Catalog} {r : Roll} {c : Category} {name : String} {v : Context}

theorem setTable_setTable (k : Catalog) (c : Category) (s t : Table) :
    (k.setTable c s).setTable c t = k.setTable c t := by
  cases c <;> rfl

/-- A context that is new to the catalog is taken from where it was put. -/
theorem Matches.take?_put (h : k.Matches r) (hd : r.Distinct) {e : Entry}
    (he : ∀ d ∈ r, d.context ≠ e.context) :
    (k.put e.category e.name e.context).take? e.context = some (e.category, k) := by
  have place := (h.put e).categoryOf? (hd.append he) (List.mem_append_right r (List.mem_singleton_self e))
  have absent : e.context ∉ (k.table e.category).values := by
    rw [h.mem_values]
    rintro ⟨d, hdr, -, hv⟩
    exact he d hdr hv
  rw [Catalog.take?, place, Option.map_some, Catalog.put, table_setTable_same, Multimap.erase_push absent,
    setTable_setTable, setTable_table]

/-- Where nothing was to be dropped before, only the context that was put last is. -/
theorem takeWhere_put {drop : Context → Bool} (none : (k.shelf c name).filter drop = [])
    (hv : drop v = true) : (k.put c name v).takeWhere c name drop = ([v], k) := by
  have left : k.setTable c ((k.table c).filterAt name fun w => !drop w) = k :=
    congrArg Prod.snd (takeWhere_none none)
  have taken : ((k.put c name v).shelf c name).filter drop = [v] := by
    simp [Broker.shelf_put, List.filter_append, none, hv]
  rw [takeWhere, taken, put, table_setTable_same, setTable_setTable,
    Multimap.filterAt_push _ _ (by simp [hv]), left]

end Catalog

/-- An ownership that was granted last can be revoked. -/
theorem Ownership.Matches.revoke_grant {o : Ownership} {r : Roll} (h : o.Matches r)
    (hd : r.Distinct) {e : Entry} (he : ∀ d ∈ r, d.context ≠ e.context) :
    (o.grant e.owner e.context).revoke e.owner e.context = o := by
  have free : ¬ o.isOwned e.context = true := by
    rw [h.isOwned_iff]
    rintro ⟨d, hd, hv⟩
    exact he d hd hv
  have unlisted : ∀ v ∈ o.contexts.get e.owner, (v != e.context) = true := by
    intro v hv
    have listed : v ∈ r.contextsOf e.owner := by rwa [← h.contextsOf]
    obtain ⟨d, hd, -, rfl⟩ := Roll.mem_contextsOf.mp listed
    simpa using he d hd
  have unindexed : o.owners.filter (·.1 != e.context) = o.owners := by
    refine List.filter_eq_self.mpr fun q hq => ?_
    rw [h.index] at hq
    obtain ⟨d, hd, rfl⟩ := List.mem_map.mp hq
    simpa using he d hd
  have granted : o.grant e.owner e.context =
      ⟨o.contexts.push e.owner e.context, o.owners ++ [(e.context, e.owner)]⟩ := if_neg free
  have owned : (o.grant e.owner e.context).owns e.owner e.context = true := by
    exact ((h.grant he).owns_context_iff (hd.append he) (by simp)).mpr rfl
  rw [Ownership.revoke, if_pos owned, granted]
  simp [Multimap.filterAt_push, Multimap.filterAt_eq_self unlisted, List.filter_append, unindexed]

/-! ### The broker -/

namespace Broker

variable {b d : Broker} {r : Roll} {p : PluginId} {v : Context} {i : Interface} {e : Entry}

/-- What comes of it that a plugin takes out again, alone or with all that it has under the interface,
what it has just registered; the tables and lists may be arranged anew in between. -/
structure TakesBack (b entered : Broker) (p : PluginId) (v : Context) (i : Interface) : Prop where
  alone : entered.unregister p v = ⟨true, b, some (.unregistered p i.category)⟩
  together : (entered.unregisterUnder p i).answer = true
  together_iff : (entered.unregisterUnder p i).broker = b ↔ ∀ w, ¬ b.Share p i w
  rearranged : ∀ d, entered.Rearranges d →
    (d.unregister p v).answer = true ∧ b.Rearranges (d.unregister p v).broker ∧
    (d.unregisterUnder p i).answer = true ∧
    (b.Rearranges (d.unregisterUnder p i).broker ↔ ∀ w, ¬ b.Share p i w)

theorem Matches.unregister_enter (h : b.Matches r) (free : ∀ d ∈ r, d.context ≠ e.context) :
    (b.enter e.owner e.context e.category e.name).unregister e.owner e.context =
      ⟨true, b, some (.unregistered e.owner e.category)⟩ := by
  have entered := h.enter free
  have owned : (b.ownership.grant e.owner e.context).owns e.owner e.context = true :=
    (entered.ownership.owns_context_iff entered.distinct (by simp)).mpr rfl
  have taken := h.catalog.take?_put h.distinct free
  have revoked := h.ownership.revoke_grant h.distinct free
  simp only [Broker.unregister, Broker.enter, owned, taken, revoked, if_true]

/-- A plugin that had nothing under an interface has only what it registered there last. -/
theorem Matches.unregisterUnder_enter (h : b.Matches r) (free : ∀ d ∈ r, d.context ≠ v)
    (none : ∀ w, ¬ b.Share p i w) :
    (b.enter p v i.category i.name).unregisterUnder p i =
      ⟨true, b, some (.unregisteredUnder p i.name 1)⟩ := by
  have entered := h.enter (e := ⟨p, i.category, i.name, v⟩) free
  have owned : (b.ownership.grant p v).owns p v = true :=
    (entered.ownership.owns_context_iff (e := ⟨p, i.category, i.name, v⟩) entered.distinct
      (by simp)).mpr rfl
  have some : (b.ownership.grant p v).ownsAny p = true :=
    entered.ownership.ownsAny_iff.mpr ⟨⟨p, i.category, i.name, v⟩, by simp, rfl⟩
  have others : (b.catalog.shelf i.category i.name).filter ((b.ownership.grant p v).owns p) = [] := by
    refine List.filter_eq_nil_iff.mpr fun w hw ho => none w ⟨?_, hw⟩
    obtain ⟨d, hd, rfl⟩ := List.mem_map.mp (h.catalog.shelf .. ▸ hw)
    have hdr : d ∈ r := List.mem_of_mem_filter hd
    rw [ownerOf?, h.ownership.ownerOf?_eq h.distinct hdr]
    exact congrArg _ ((entered.ownership.owns_context_iff entered.distinct (by simp [hdr])).mp ho)
  have taken := Catalog.takeWhere_put others owned
  have revoked : (b.ownership.grant p v).revokeAll p [v] = b.ownership :=
    h.ownership.revoke_grant (e := ⟨p, i.category, i.name, v⟩) h.distinct free
  simp [Broker.unregisterUnder, Broker.enter, some, taken, revoked]

theorem Matches.not_share_iff (h : b.Matches r) :
    (∀ w, ¬ b.Share p i w) ↔ r.strikeUnder p i.category i.name = r := by
  rw [h.strikeUnder_eq, List.filter_eq_self]
  constructor
  · exact fun none e _ => decide_eq_true (none e.context)
  · intro kept w share
    obtain ⟨e, he, rfl⟩ := h.share_iff.mp share
    exact of_decide_eq_true (kept e (List.mem_of_mem_filter he)) share

/-- Brokers are the same but for arrangement only if their rolls have one length. -/
theorem Matches.length_eq_of_rearranges {s : Roll} (h : b.Matches r) (h' : d.Matches s)
    (arranged : b.Rearranges d) : s.length = r.length := by
  rw [← h.ownership.size, ← h'.ownership.size]
  exact congrArg List.length arranged.owners

theorem Matches.rearranges_unregister (h : b.Matches r) (free : ∀ d ∈ r, d.context ≠ e.context)
    (hd : d.Matches (r ++ [e])) (trust : d.trust = b.trust)
    (gated : d.compilerGated = b.compilerGated) :
    (d.unregister e.owner e.context).answer = true ∧
      b.Rearranges (d.unregister e.owner e.context).broker := by
  obtain ⟨catalog, ownership, heq, hafter⟩ := hd.unregister (e := e) (by simp)
  rw [Roll.strike_concat free] at hafter
  rw [heq]
  exact ⟨rfl, h.rearranges hafter trust gated⟩

theorem Matches.rearranges_unregisterUnder (h : b.Matches r)
    (hd : d.Matches (r ++ [⟨p, i.category, i.name, v⟩])) (trust : d.trust = b.trust)
    (gated : d.compilerGated = b.compilerGated) :
    (d.unregisterUnder p i).answer = true ∧
      (b.Rearranges (d.unregisterUnder p i).broker ↔ ∀ w, ¬ b.Share p i w) := by
  have some : Roll.under (r ++ [⟨p, i.category, i.name, v⟩]) p i.category i.name ≠ [] := by
    simp [Roll.under]
  obtain ⟨catalog, ownership, heq, hafter⟩ := hd.unregisterUnder_some some
  rw [Roll.strikeUnder_concat r ⟨p, i.category, i.name, v⟩] at hafter
  rw [heq, h.not_share_iff]
  refine ⟨rfl, fun arranged => ?_, fun kept => ?_⟩
  · have length := h.length_eq_of_rearranges hafter arranged
    exact List.filter_sublist.eq_of_length length
  · rw [kept] at hafter
    exact h.rearranges hafter trust gated

theorem Matches.takesBack (h : b.Matches r) {profiles : Profiles}
    (accepted : (b.register profiles p v i).answer = .ok ()) :
    b.TakesBack (b.register profiles p v i).broker p v i := by
  rcases h.register profiles p v i with ⟨refusal, heq⟩ | ⟨after, heq, free, rfl, entered⟩
  · rw [heq] at accepted
    cases accepted
  · rw [heq]
    show b.TakesBack (b.enter p v i.category i.name) p v i
    have rearranged : ∀ d, (b.enter p v i.category i.name).Rearranges d →
        (d.unregister p v).answer = true ∧ b.Rearranges (d.unregister p v).broker ∧
        (d.unregisterUnder p i).answer = true ∧
        (b.Rearranges (d.unregisterUnder p i).broker ↔ ∀ w, ¬ b.Share p i w) := by
      intro d arranged
      have hd := entered.of_rearranges arranged
      obtain ⟨alone, same⟩ :=
        h.rearranges_unregister free hd arranged.trust arranged.compilerGated
      obtain ⟨together, same_iff⟩ :=
        h.rearranges_unregisterUnder hd arranged.trust arranged.compilerGated
      exact ⟨alone, same, together, same_iff⟩
    obtain ⟨-, -, together, same_iff⟩ := rearranged _ (.refl _)
    constructor
    case alone => exact h.unregister_enter (e := ⟨p, i.category, i.name, v⟩) free
    case together => exact together
    case together_iff =>
      constructor
      · intro same
        rw [← same_iff, same]
        exact .refl b
      · intro none
        rw [h.unregisterUnder_enter free none]
    case rearranged => exact rearranged

end Broker

/-- In whatever state a run has left the broker, and however its tables are arranged, the owner can take
a registration back at once, and the broker is as it was before; all that the owner has under the
interface can be taken out instead exactly if that was nothing before. -/
theorem Session.run_register_undone (gated : Bool) (ops : List Op) {t : Session}
    (reached : (fresh gated).Shuffles ops t) {p : PluginId} {v : Context} {i : Interface}
    (accepted : (t.broker.register t.profiles p v i).answer = .ok ()) :
    t.broker.TakesBack (t.broker.register t.profiles p v i).broker p v i := by
  have arranged := reached.rearranges (Broker.matches_fresh gated)
  exact ((matches_roll gated ops).of_rearranges arranged.broker).takesBack accepted

/-- On a shelf that plugins 1 and 2 share, plugin 3 can take back a new context with all that it has there,
and plugin 1 only alone. -/
theorem Session.shared_shelf_undone :
    let report (n : Nat) : Op := .report ⟨n⟩ { interfaces := [.root .memory] }
    let register (p n) : Op := .register ⟨p⟩ ⟨n⟩ (.root .memory)
    let s := (fresh false).run [report 0, report 1, report 2, register 2 0, register 1 1]
    let entered (p : PluginId) := (s.broker.register s.profiles p ⟨2⟩ (.root .memory)).broker
    (∀ p, (s.broker.register s.profiles p ⟨2⟩ (.root .memory)).answer = .ok ()) ∧
    (∀ p, s.broker.TakesBack (entered p) p ⟨2⟩ (.root .memory)) ∧
    ((entered ⟨3⟩).unregisterUnder ⟨3⟩ (.root .memory)).broker = s.broker ∧
    ((entered ⟨1⟩).unregisterUnder ⟨1⟩ (.root .memory)).broker ≠ s.broker := by
  intro report register s entered
  have accepted : ∀ p, (s.broker.register s.profiles p ⟨2⟩ (.root .memory)).answer = .ok () :=
    fun p => rfl
  have undone (p : PluginId) : s.broker.TakesBack (entered p) p ⟨2⟩ (.root .memory) :=
    run_register_undone false _ (shuffles_run _ _) (accepted p)
  refine ⟨accepted, undone, (undone ⟨3⟩).together_iff.mpr ?_, ?_⟩
  · rintro w ⟨owner, shelf⟩
    have foreign : ∀ w ∈ s.broker.catalog.shelf .memory "MemoryContext",
        s.broker.ownerOf? w ≠ some ⟨3⟩ := by decide
    exact foreign w shelf owner
  · intro same
    exact (undone ⟨1⟩).together_iff.mp same ⟨1⟩ (by decide)

end PluginBroker
