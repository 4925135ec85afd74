import Mathlib.Data.List.Induction
import Mathlib.Data.List.Nodup
import PluginBroker.Proofs.Policy

/-! The order in which the shelves of a table, and the owned lists of the plugins, are kept.  Nothing that
can be asked of a broker depends on it, and no operation turns it into anything else: brokers that
differ in it alone answer and log alike, and still differ in it alone afterwards. -/

namespace PluginBroker

/-! ### Entries in any order -/

namespace Multimap

variable {κ α : Type} [DecidableEq κ] {m n : Multimap κ α}

/-- Two multimaps give every key the same values exactly if they have the same entries in some
order. -/
theorem entries_perm_iff : m.entries.Perm n.entries ↔ ∀ k, m.get k = n.get k := by
  have nodup (m : Multimap κ α) : m.entries.Nodup := .of_map _ m.nodup
  rw [List.perm_ext_iff_of_nodup (nodup m) (nodup n)]
  constructor
  · intro h k
    by_cases hk : m.get k = []
    · by_contra hne
      have mem : (k, n.get k) ∈ n.entries := mem_entries_iff.mpr ⟨fun h0 => hne (hk.trans h0.symm), rfl⟩
      exact hne (mem_entries_iff.mp ((h _).mpr mem)).2
    · have mem : (k, m.get k) ∈ m.entries := mem_entries_iff.mpr ⟨hk, rfl⟩
      exact (mem_entries_iff.mp ((h _).mp mem)).2.symm
  · rintro h ⟨k, as⟩
    rw [mem_entries_iff, mem_entries_iff, h k]

end Multimap

/-! ### Brokers -/

/-- The same broker, but for the order of the shelves in the tables and of the plugins among the owned
lists. -/
structure Broker.Rearranges (b d : Broker) : Prop where
  tables : ∀ c, (b.catalog.table c).entries.Perm (d.catalog.table c).entries
  lists : b.ownership.contexts.entries.Perm d.ownership.contexts.entries
  owners : d.ownership.owners = b.ownership.owners
  trust : d.trust = b.trust
  compilerGated : d.compilerGated = b.compilerGated

namespace Broker

variable {b d : Broker} {r : Roll}

theorem Rearranges.refl (b : Broker) : b.Rearranges b := ⟨fun _ => .refl _, .refl _, rfl, rfl, rfl⟩

theorem Rearranges.trans {a : Broker} (h : a.Rearranges b) (h' : b.Rearranges d) :
    a.Rearranges d where
  tables c := (h.tables c).trans (h'.tables c)
  lists := h.lists.trans h'.lists
  owners := h'.owners.trans h.owners
  trust := h'.trust.trans h.trust
  compilerGated := h'.compilerGated.trans h.compilerGated

theorem Rearranges.shelf (h : b.Rearranges d) (c : Category) (name : String) :
    d.catalog.shelf c name = b.catalog.shelf c name :=
  (Multimap.entries_perm_iff.mp (h.tables c) name).symm

theorem Rearranges.contextsOf (h : b.Rearranges d) (p : PluginId) :
    d.contextsOf p = b.contextsOf p :=
  (Multimap.entries_perm_iff.mp h.lists p).symm

theorem Rearranges.ownerOf? (h : b.Rearranges d) (v : Context) : d.ownerOf? v = b.ownerOf? v :=
  congrArg (List.lookup v) h.owners

theorem Rearranges.size (h : b.Rearranges d) (c : Category) : d.size c = b.size c :=
  (List.Perm.flatMap_right (fun e : String × List Context => e.2) (h.tables c)).length_eq.symm

/-- The roll does not tell in which order the tables and the owned lists are kept. -/
theorem Matches.of_rearranges (hb : b.Matches r) (h : b.Rearranges d) : d.Matches r where
  distinct := hb.distinct
  catalog c name := by
    rw [← Multimap.entries_perm_iff.mp (h.tables c) name]
    exact hb.catalog c name
  ownership :=
    { lists := fun p => by
        rw [← Multimap.entries_perm_iff.mp h.lists p]
        exact hb.ownership.lists p
      index := h.owners.trans hb.ownership.index }

/-- Brokers that match one roll, with the same trust and policy, are arranged differently at most. -/
theorem Matches.rearranges (hb : b.Matches r) (hd : d.Matches r) (trust : d.trust = b.trust)
    (gated : d.compilerGated = b.compilerGated) : b.Rearranges d where
  tables c := by
    refine Multimap.entries_perm_iff.mpr fun name => ?_
    rw [hb.catalog c name, hd.catalog c name]
  lists := by
    refine Multimap.entries_perm_iff.mpr fun p => ?_
    rw [hb.ownership.lists p, hd.ownership.lists p]
  owners := hd.ownership.index.trans hb.ownership.index.symm
  trust := trust
  compilerGated := gated

/-! ### The same answers and events -/

theorem Rearranges.register (h : b.Rearranges d) (profiles : Profiles) (p : PluginId) (v : Context)
    (i : Interface) : (d.register profiles p v i).answer = (b.register profiles p v i).answer ∧
      (d.register profiles p v i).event? = (b.register profiles p v i).event? := by
  have admission := admission_congr (congrArg Option.isSome (h.ownerOf? v))
    (profiles v).interfaces i
  unfold Broker.register
  rw [admission]
  split <;> exact ⟨rfl, rfl⟩

theorem Rearranges.unregister (h : b.Rearranges d) (hb : b.Matches r) (p : PluginId) (v : Context) :
    (d.unregister p v).answer = (b.unregister p v).answer ∧
      (d.unregister p v).event? = (b.unregister p v).event? := by
  have hd := hb.of_rearranges h
  have owns : d.ownership.owns p v = b.ownership.owns p v :=
    congrArg (· == some p) (h.ownerOf? v)
  by_cases ho : b.ownership.owns p v = true
  · obtain ⟨e, he, rfl, rfl⟩ := (hb.ownership.owns_iff hb.distinct).mp ho
    obtain ⟨_, _, heq, -⟩ := hb.unregister he
    obtain ⟨_, _, heq', -⟩ := hd.unregister he
    rw [heq, heq']
    exact ⟨rfl, rfl⟩
  · rw [unregister_of_not_owns ho, unregister_of_not_owns (owns ▸ ho)]
    exact ⟨rfl, rfl⟩

theorem Rearranges.unregisterUnder (h : b.Rearranges d) (hb : b.Matches r) (p : PluginId)
    (i : Interface) : (d.unregisterUnder p i).answer = (b.unregisterUnder p i).answer ∧
      (d.unregisterUnder p i).event? = (b.unregisterUnder p i).event? := by
  have hd := hb.of_rearranges h
  by_cases hu : r.under p i.category i.name = []
  · rw [hb.unregisterUnder_none hu, hd.unregisterUnder_none hu]
    exact ⟨rfl, rfl⟩
  · obtain ⟨_, _, heq, -⟩ := hb.unregisterUnder_some hu
    obtain ⟨_, _, heq', -⟩ := hd.unregisterUnder_some hu
    rw [heq, heq']
    exact ⟨rfl, rfl⟩

theorem Rearranges.setToken (h : b.Rearranges d) (token : String) :
    (d.setToken token).answer = (b.setToken token).answer ∧
      (d.setToken token).event? = (b.setToken token).event? := by
  unfold Broker.setToken
  rw [h.trust]
  split <;> exact ⟨rfl, rfl⟩

theorem Rearranges.bind (h : b.Rearranges d) (token : String) (graph : Graph) :
    (d.bind token graph).event? = (b.bind token graph).event? := by
  unfold Broker.bind
  rw [h.trust]
  split <;> rfl

theorem Rearranges.phase (h : b.Rearranges d) : d.phase = b.phase := congrArg Trust.phase h.trust

theorem Rearranges.permits (h : b.Rearranges d) (requester : PluginId) (v : Context) :
    d.permits requester v = b.permits requester v := by
  rw [Bool.eq_iff_iff, permits_iff, permits_iff]
  simp only [h.phase, h.ownerOf?, h.trust]

theorem Rearranges.lookupIn (h : b.Rearranges d) (profiles : Profiles) (c : Category)
    (requester : PluginId) (i : Interface) (choice : Choice) :
    (d.lookupIn profiles c requester i choice).answer =
        (b.lookupIn profiles c requester i choice).answer ∧
      (d.lookupIn profiles c requester i choice).event? =
        (b.lookupIn profiles c requester i choice).event? := by
  have pick : d.catalog.pick profiles c i.name choice = b.catalog.pick profiles c i.name choice := by
    unfold Catalog.pick
    rw [h.shelf]
  have find : d.find profiles c requester i choice = b.find profiles c requester i choice := by
    unfold Broker.find gated
    simp only [pick, h.permits, h.compilerGated]
  unfold Broker.lookupIn
  rw [find]
  split <;> exact ⟨rfl, rfl⟩

end Broker

namespace Session

/-- The contexts report the same, and the brokers are arranged differently at most. -/
structure Rearranges (s t : Session) : Prop where
  broker : s.broker.Rearranges t.broker
  profiles : t.profiles = s.profiles

variable {s t u : Session} {r : Roll} {ops : List Op}

theorem Rearranges.refl (s : Session) : s.Rearranges s := ⟨.refl _, rfl⟩

theorem Rearranges.trans (h : s.Rearranges t) (h' : t.Rearranges u) : s.Rearranges u :=
  ⟨h.broker.trans h'.broker, h'.profiles.trans h.profiles⟩

/-- No operation can tell the arrangement. -/
theorem Rearranges.reply (h : s.Rearranges t) (hs : s.broker.Matches r) (op : Op) :
    (t.step op).answer = (s.step op).answer ∧ (t.step op).event? = (s.step op).event? := by
  have hb := h.broker
  cases op with
  | report => exact ⟨rfl, rfl⟩
  | register p v i =>
    obtain ⟨answer, event⟩ := hb.register s.profiles p v i
    simp only [step, replied, h.profiles, answer, event, and_self]
  | unregister p v =>
    obtain ⟨answer, event⟩ := hb.unregister hs p v
    simp only [step, replied, answer, event, and_self]
  | unregisterUnder p i =>
    obtain ⟨answer, event⟩ := hb.unregisterUnder hs p i
    simp only [step, replied, answer, event, and_self]
  | setToken token =>
    obtain ⟨answer, event⟩ := hb.setToken token
    simp only [step, replied, answer, event, and_self]
  | bind token graph => simp only [step, replied, hb.bind, and_self]
  | phase => simp only [step, told, hb.phase, and_self]
  | permits requester v => simp only [step, told, hb.permits, and_self]
  | lookupIn c requester i choice =>
    obtain ⟨answer, event⟩ := hb.lookupIn s.profiles c requester i choice
    simp only [step, replied, h.profiles, answer, event, and_self]
  | lookup requester i choice =>
    obtain ⟨answer, event⟩ := hb.lookupIn s.profiles i.category requester i choice
    simp only [step, replied, Broker.lookup, h.profiles, answer, event, and_self]
  | ownerOf v => simp only [step, told, hb.ownerOf?, and_self]
  | contextsOf p => simp only [step, told, hb.contextsOf, and_self]
  | isRegistered v =>
    have registered : t.broker.isRegistered v = s.broker.isRegistered v :=
      congrArg Option.isSome (hb.ownerOf? v)
    simp only [step, told, registered, and_self]
  | size c => simp only [step, told, hb.size, and_self]
  | isEmpty =>
    have isEmpty : t.broker.isEmpty = s.broker.isEmpty := congrArg (·.length == 0) hb.owners
    simp only [step, told, isEmpty, and_self]
  | describe =>
    have describe := Broker.describe_congr s.broker t.broker hb.size hb.phase hb.compilerGated
    simp only [step, told, describe, and_self]

/-- After any operation the two are arranged differently at most. -/
theorem Rearranges.step (h : s.Rearranges t) (hs : s.broker.Matches r) (op : Op) :
    (s.step op).session.Rearranges (t.step op).session where
  broker := by
    have ht := matches_step (hs.of_rearranges h.broker) op
    rw [(h.reply hs op).1] at ht
    refine (matches_step hs op).rearranges ht ?_ ?_
    · rw [step_trust, step_trust, h.broker.trust]
    · rw [step_compilerGated, step_compilerGated, h.broker.compilerGated]
  profiles := by
    cases op with
    | report v profile => simp only [Session.step, report, h.profiles]
    | _ => exact h.profiles

/-- A run of the operations in which the tables and the owned lists may be arranged anew before the
first operation and after each. -/
inductive Shuffles (s : Session) : List Op → Session → Prop
  | start {t : Session} (arranged : s.Rearranges t) : Shuffles s [] t
  | step {ops : List Op} {t u : Session} (before : Shuffles s ops t) (op : Op)
    (arranged : (t.step op).session.Rearranges u) : Shuffles s (ops ++ [op]) u

theorem shuffles_run (s : Session) (ops : List Op) : s.Shuffles ops (s.run ops) := by
  induction ops using List.reverseRecOn with
  | nil => exact .start (.refl s)
  | append_singleton ops op ih =>
    rw [run_concat]
    exact .step ih op (.refl _)

/-- A run comes to the same, however things are arranged on the way. -/
theorem Shuffles.rearranges (h : s.Shuffles ops t) (hs : s.broker.Matches r) :
    (s.run ops).Rearranges t := by
  induction h with
  | start arranged => exact arranged
  | @step ops t u _ op arranged ih =>
    rw [run_concat]
    exact (ih.step (matches_follow hs ops) op).trans arranged

end Session

end PluginBroker
