import PluginBroker.Proofs.Arrangement
import PluginBroker.Proofs.Lockstep
import PluginBroker.Proofs.Origin
import PluginBroker.Proofs.Placement

/-! What unregistering takes out.  A context goes from its shelf and from the list of its owner at once,
and what else stands there keeps its order; a plugin's whole share of a shelf goes in the same way.
Nothing but what the plugin owns is ever taken out on its behalf. -/

namespace PluginBroker

/-! ### Rolls with some contexts struck -/

namespace Roll

variable {r : Roll}

theorem shelf_filter (r : Roll) (keep : Context → Bool) (c : Category) (name : String) :
    Roll.shelf (r.filter fun e => keep e.context) c name = (r.shelf c name).filter keep := by
  rw [shelf, shelf, List.filter_map, List.filter_comm]
  rfl

theorem contextsOf_filter (r : Roll) (keep : Context → Bool) (p : PluginId) :
    Roll.contextsOf (r.filter fun e => keep e.context) p = (r.contextsOf p).filter keep := by
  rw [contextsOf, contextsOf, List.filter_map, List.filter_comm]
  rfl

theorem under_strikeUnder (r : Roll) (p : PluginId) (c : Category) (name : String) :
    (r.strikeUnder p c name).under p c name = [] := by
  simp [under, strikeUnder]

end Roll

namespace Multimap

variable {κ α : Type} [DecidableEq κ] [DecidableEq α] {m n : Multimap κ α} {k : κ} {a : α}

/-- A key that loses a value goes exactly if it had no other. -/
theorem mem_keys_iff_of_get (h : (m.get k).Nodup) (get : n.get k = (m.get k).filter (· ≠ a)) :
    k ∈ n.keys ↔ k ∈ m.keys ∧ m.get k ≠ [a] := by
  have erased : n.get k = (m.get k).erase a := by
    rw [get, h.erase_eq_filter]
    exact List.filter_congr fun b _ => by by_cases hb : b = a <;> simp [hb]
  rw [mem_keys_iff, mem_keys_iff, erased, ne_eq, List.erase_eq_nil_iff, not_or]

end Multimap

theorem Catalog.mem_values_iff {k : Catalog} {v : Context} :
    v ∈ k.values ↔ ∃ c name, v ∈ k.shelf c name := by
  simp only [values, List.mem_flatMap, Category.mem_all, true_and, Multimap.mem_values_iff]
  rfl

/-- The second broker holds what the first one does, as far as `keep` lets it through: the other
contexts are gone from every shelf and every owned list, and nobody owns them.  All else is the
same. -/
structure Broker.Retains (b after : Broker) (keep : Context → Bool) : Prop where
  shelf : ∀ c name, after.catalog.shelf c name = (b.catalog.shelf c name).filter keep
  contextsOf : ∀ p, after.contextsOf p = (b.contextsOf p).filter keep
  ownerOf? : ∀ v, after.ownerOf? v = if keep v then b.ownerOf? v else none
  trust : after.trust = b.trust
  compilerGated : after.compilerGated = b.compilerGated

namespace Broker

variable {b after : Broker} {r : Roll} {keep : Context → Bool} {p : PluginId} {v : Context}
  {i : Interface} {e : Entry}

theorem Matches.retains (h : b.Matches r)
    (h' : after.Matches (r.filter fun e => keep e.context)) (trust : after.trust = b.trust)
    (gated : after.compilerGated = b.compilerGated) : b.Retains after keep where
  shelf c name := by rw [h.catalog.shelf, h'.catalog.shelf, Roll.shelf_filter]
  contextsOf q := by
    rw [Broker.contextsOf, Broker.contextsOf, h.ownership.contextsOf, h'.ownership.contextsOf,
      Roll.contextsOf_filter]
  ownerOf? w := by
    refine Option.ext fun q => ?_
    rw [h'.ownerOf?_iff]
    by_cases hw : keep w = true
    · rw [if_pos hw, h.ownerOf?_iff]
      refine exists_congr fun d => and_congr_left ?_
      rintro rfl
      simp [Roll.mem_ofOwner, hw]
    · rw [if_neg hw]
      refine iff_of_false ?_ (by simp)
      rintro ⟨d, hd, rfl⟩
      exact hw (List.mem_filter.mp (Roll.mem_ofOwner.mp hd).1).2
  trust := trust
  compilerGated := gated

theorem Retains.mem_values_iff (h : b.Retains after keep) :
    v ∈ after.catalog.values ↔ v ∈ b.catalog.values ∧ keep v = true := by
  simp only [Catalog.mem_values_iff, h.shelf, List.mem_filter, exists_and_right]

/-! ### One context -/

/-- The context goes from the one shelf where it stands and from the list of its owner, and is nowhere
any more; the shelf, and the list, go with it if they had nothing else.  One table has one context
fewer, and all else is the same. -/
structure TakenOut (b after : Broker) (p : PluginId) (v : Context) (c : Category) (name : String) :
    Prop where
  stands : b.Stands v p c name
  nowhere : after.Nowhere v
  retains : b.Retains after (· ≠ v)
  shelves : ∀ d other, other ∈ (after.catalog.table d).keys ↔
    other ∈ (b.catalog.table d).keys ∧ b.catalog.shelf d other ≠ [v]
  lists : ∀ q, q ∈ after.ownership.contexts.keys ↔
    q ∈ b.ownership.contexts.keys ∧ b.contextsOf q ≠ [v]
  size : ∀ d, b.size d = after.size d + if d = c then 1 else 0

theorem Matches.takenOut (h : b.Matches r) (he : e ∈ r) (h' : after.Matches (r.strike e.context))
    (trust : after.trust = b.trust) (gated : after.compilerGated = b.compilerGated) :
    b.TakenOut after e.owner e.context e.category e.name := by
  have retains : b.Retains after (· ≠ e.context) := h.retains h' trust gated
  constructor
  case stands => exact h.stands_iff.mpr he
  case nowhere => exact h'.nowhere fun d hd => of_decide_eq_true (List.mem_filter.mp hd).2
  case retains => exact retains
  case shelves =>
    intro d other
    have nodup := h.catalog.nodup_shelf h.distinct d other
    exact Multimap.mem_keys_iff_of_get nodup (retains.shelf d other)
  case lists =>
    intro q
    have nodup : (b.contextsOf q).Nodup := by
      rw [contextsOf, h.ownership.contextsOf]
      exact h.distinct.filter _
    exact Multimap.mem_keys_iff_of_get nodup (retains.contextsOf q)
  case size =>
    intro d
    have length := ((h.distinct.perm_strike he).filter (·.category = d)).length_eq
    rw [Broker.size, Broker.size, h.catalog.size, h'.catalog.size, length, List.filter_cons]
    by_cases hd : e.category = d
    · simp [hd]
    · simp [hd, Ne.symm hd]

/-- What it comes to that a plugin wants a context taken out. -/
structure UnregistersExactly (b : Broker) (p : PluginId) (v : Context) : Prop where
  answer_iff : (b.unregister p v).answer = true ↔ b.ownerOf? v = some p
  taken : (b.unregister p v).answer = true → ∃ c name,
    b.TakenOut (b.unregister p v).broker p v c name ∧
      (b.unregister p v).event? = some (.unregistered p c)
  idle : (b.unregister p v).answer = false → b.unregister p v = ⟨false, b, none⟩

theorem Matches.unregistersExactly (h : b.Matches r) (p : PluginId) (v : Context) :
    b.UnregistersExactly p v := by
  have answer_iff : (b.unregister p v).answer = true ↔ b.ownerOf? v = some p := by
    rw [h.unregister_answer, Ownership.owns, beq_iff_eq]
    rfl
  refine ⟨answer_iff, ?_, ?_⟩
  · intro ha
    obtain ⟨e, hp, rfl⟩ := h.ownerOf?_iff.mp (answer_iff.mp ha)
    obtain ⟨he, rfl⟩ := Roll.mem_ofOwner.mp hp
    obtain ⟨catalog, ownership, heq, hafter⟩ := h.unregister he
    rw [heq]
    exact ⟨e.category, e.name, h.takenOut he hafter rfl rfl, rfl⟩
  · intro ha
    refine unregister_of_not_owns ?_
    rw [← h.unregister_answer, ha]
    exact Bool.false_ne_true

/-! ### The share of a plugin -/

/-- The context belongs to the plugin and stands on the shelf of the interface. -/
def Share (b : Broker) (p : PluginId) (i : Interface) (v : Context) : Prop :=
  b.ownerOf? v = some p ∧ v ∈ b.catalog.shelf i.category i.name

instance : Decidable (b.Share p i v) := inferInstanceAs (Decidable (_ ∧ _))

theorem Matches.share_iff (h : b.Matches r) :
    b.Share p i v ↔ ∃ e ∈ r.under p i.category i.name, e.context = v := by
  constructor
  · rintro ⟨owner, shelf⟩
    obtain ⟨e, he, rfl⟩ := h.ownerOf?_iff.mp owner
    have her := (Roll.mem_ofOwner.mp he).1
    rw [Roll.under_eq_filter]
    exact ⟨e, List.mem_filter.mpr ⟨he, decide_eq_true ((h.mem_shelf_iff her).mp shelf)⟩, rfl⟩
  · rintro ⟨e, he, rfl⟩
    rw [Roll.under_eq_filter] at he
    obtain ⟨he, hcn⟩ := List.mem_filter.mp he
    exact ⟨h.ownerOf?_iff.mpr ⟨e, he, rfl⟩,
      (h.mem_shelf_iff (Roll.mem_ofOwner.mp he).1).mpr (of_decide_eq_true hcn)⟩

theorem Matches.strikeUnder_eq (h : b.Matches r) (p : PluginId) (i : Interface) :
    r.strikeUnder p i.category i.name = r.filter fun e => ¬ b.Share p i e.context := by
  refine List.filter_congr fun e he => ?_
  rw [decide_eq_decide, not_iff_not, Share, h.mem_shelf_iff he, ownerOf?,
    h.ownership.ownerOf?_eq h.distinct he, Option.some.injEq]

/-- The answer, and the broker that is left when a plugin wants all that it has under an interface
taken out. -/
structure ClearsExactly (b : Broker) (p : PluginId) (i : Interface) : Prop where
  answer_iff : (b.unregisterUnder p i).answer = true ↔ ∃ v, b.Share p i v
  retains : b.Retains (b.unregisterUnder p i).broker (fun v => ¬ b.Share p i v)
  catalog : ∀ v, (v ∈ b.catalog.values ∧ v ∉ (b.unregisterUnder p i).broker.catalog.values) ↔
    b.Share p i v
  owners : ∀ v, (b.ownerOf? v ≠ none ∧ (b.unregisterUnder p i).broker.ownerOf? v = none) ↔
    b.Share p i v
  lists : ∀ q v, (v ∈ b.contextsOf q ∧ v ∉ (b.unregisterUnder p i).broker.contextsOf q) ↔
    q = p ∧ b.Share p i v
  elsewhere : ∀ c name, ¬(c = i.category ∧ name = i.name) →
    (b.unregisterUnder p i).broker.catalog.shelf c name = b.catalog.shelf c name ∧
    ∀ v q, b.Stands v q c name → (b.unregisterUnder p i).broker.Stands v q c name
  idle : (b.unregisterUnder p i).answer = false → b.unregisterUnder p i = ⟨false, b, none⟩
  again : (b.unregisterUnder p i).broker.unregisterUnder p i =
    ⟨false, (b.unregisterUnder p i).broker, none⟩

/-- Whether or not there is something to take out, the roll afterwards is that without it. -/
theorem Matches.unregisterUnder (h : b.Matches r) (p : PluginId) (i : Interface) :
    (b.unregisterUnder p i).broker.Matches (r.strikeUnder p i.category i.name) := by
  by_cases hu : r.under p i.category i.name = []
  · have all : r.strikeUnder p i.category i.name = r := by
      refine List.filter_eq_self.mpr fun e he => decide_eq_true fun hpcn => ?_
      exact List.filter_eq_nil_iff.mp hu e he (decide_eq_true hpcn)
    rw [h.unregisterUnder_none hu, all]
    exact h
  · obtain ⟨catalog, ownership, heq, hafter⟩ := h.unregisterUnder_some hu
    rw [heq]
    exact hafter

theorem Matches.retains_unregisterUnder (h : b.Matches r) (p : PluginId) (i : Interface) :
    b.Retains (b.unregisterUnder p i).broker (fun v => ¬ b.Share p i v) := by
  obtain ⟨catalog, ownership, heq⟩ := b.unregisterUnder_broker p i
  have hafter := h.unregisterUnder p i
  rw [h.strikeUnder_eq] at hafter
  refine h.retains hafter ?_ ?_
  · rw [heq]
  · rw [heq]

/-- Nothing on another shelf is part of the share. -/
theorem Matches.not_share (h : b.Matches r) {c : Category} {name : String}
    (other : ¬(c = i.category ∧ name = i.name)) (hv : v ∈ b.catalog.shelf c name) :
    ¬ b.Share p i v := by
  intro share
  obtain ⟨e, he, rfl⟩ := h.share_iff.mp share
  obtain ⟨he, hu⟩ := List.mem_filter.mp he
  obtain ⟨rfl, rfl⟩ := (h.mem_shelf_iff he).mp hv
  exact other (of_decide_eq_true hu).2

theorem Matches.clearsExactly (h : b.Matches r) (p : PluginId) (i : Interface) :
    b.ClearsExactly p i := by
  have retains := h.retains_unregisterUnder p i
  have hafter := h.unregisterUnder p i
  constructor
  case answer_iff =>
    rw [h.unregisterUnder_answer_iff]
    simp only [h.share_iff]
    constructor
    · intro some
      obtain ⟨e, he⟩ := List.exists_mem_of_ne_nil _ some
      exact ⟨e.context, e, he, rfl⟩
    · rintro ⟨v, e, he, -⟩
      exact List.ne_nil_of_mem he
  case retains => exact retains
  case catalog =>
    intro v
    have stands : b.Share p i v → v ∈ b.catalog.values := fun share =>
      Catalog.mem_values_iff.mpr ⟨i.category, i.name, share.2⟩
    rw [retains.mem_values_iff]
    by_cases share : b.Share p i v
    · simp [share, stands share]
    · simp [share]
  case owners =>
    intro v
    rw [retains.ownerOf?]
    by_cases share : b.Share p i v
    · simp [share, share.1]
    · simp [share]
  case lists =>
    intro q v
    rw [retains.contextsOf, List.mem_filter]
    have owned : v ∈ b.contextsOf q ↔ b.ownerOf? v = some q := by
      rw [contextsOf, h.ownership.contextsOf, Roll.mem_contextsOf, h.ownerOf?_iff]
      simp only [Roll.mem_ofOwner, and_assoc]
    by_cases share : b.Share p i v
    · simp [share, owned, share.1, eq_comm]
    · simp [share]
  case elsewhere =>
    intro c name other
    constructor
    · rw [retains.shelf]
      exact List.filter_eq_self.mpr fun v hv => decide_eq_true (h.not_share other hv)
    · intro v q stands
      have he : ⟨q, c, name, v⟩ ∈ r := h.stands_iff.mp stands
      refine (hafter.stands_iff (e := ⟨q, c, name, v⟩)).mpr (List.mem_filter.mpr ⟨he, ?_⟩)
      exact decide_eq_true fun hu => other hu.2
  case idle =>
    intro ha
    refine h.unregisterUnder_none ?_
    by_contra hu
    rw [h.unregisterUnder_answer_iff.mpr hu] at ha
    cases ha
  case again => exact hafter.unregisterUnder_none (r.under_strikeUnder p i.category i.name)

end Broker

/-- In whatever state a run has left the broker, however its tables were arranged on the way and are at
the end, a context is taken out exactly for its owner; what that changes, and what is answered and
logged, does not depend on the arrangement. -/
theorem Session.run_unregister_exact (gated : Bool) (ops : List Op) :
    (fresh gated).Shuffles ops ((fresh gated).run ops) ∧
    ∀ t, (fresh gated).Shuffles ops t → ∀ p v,
      let canonical := ((fresh gated).run ops).broker.unregister p v
      t.broker.UnregistersExactly p v ∧
      (t.broker.unregister p v).answer = canonical.answer ∧
      (t.broker.unregister p v).event? = canonical.event? ∧
      canonical.broker.Rearranges (t.broker.unregister p v).broker := by
  refine ⟨shuffles_run _ ops, fun t ht p v => ?_⟩
  have matched := matches_roll gated ops
  have arranged := ht.rearranges (Broker.matches_fresh gated)
  obtain ⟨answer, event⟩ := arranged.broker.unregister matched p v
  refine ⟨(matched.of_rearranges arranged.broker).unregistersExactly p v, answer, event, ?_⟩
  exact (arranged.step matched (.unregister p v)).broker

/-- Where a context came and went, two shelves and two owned lists stand the other way round.  The same
context is taken out from there as from the broker that never had the other one. -/
theorem Session.detour_unregister_exact :
    let report (n : Nat) (i : Interface) : Op := .report ⟨n⟩ { interfaces := [i] }
    let reports := [report 0 bareLinker, report 1 (.root .compiler), report 2 (.root .compiler)]
    let linking := Op.register ⟨1⟩ ⟨0⟩ bareLinker
    let compiling (n : Nat) := Op.register ⟨2⟩ ⟨n⟩ (.root .compiler)
    let ops := reports ++ [linking, compiling 1]
    let detour := reports ++ [compiling 2, linking, compiling 1, .unregister ⟨2⟩ ⟨2⟩]
    let s := (fresh false).run ops
    let t := (fresh false).run detour
    s.broker.catalog.compiler.keys = ["Linker", "CompilerContext"] ∧
    t.broker.catalog.compiler.keys = ["CompilerContext", "Linker"] ∧
    (fresh false).Shuffles ops t ∧
    (t.broker.unregister ⟨2⟩ ⟨1⟩).answer = true ∧
    (t.broker.unregister ⟨2⟩ ⟨1⟩).event? = (s.broker.unregister ⟨2⟩ ⟨1⟩).event? ∧
    ∃ c name, t.broker.TakenOut (t.broker.unregister ⟨2⟩ ⟨1⟩).broker ⟨2⟩ ⟨1⟩ c name := by
  intro report reports linking compiling ops detour s t
  -- evaluated together, so that the fingerprint is only worked out once
  have ⟨same, keys, keys', owner⟩ : roll false detour = roll false ops ∧
      s.broker.catalog.compiler.keys = ["Linker", "CompilerContext"] ∧
      t.broker.catalog.compiler.keys = ["CompilerContext", "Linker"] ∧
      t.broker.ownerOf? ⟨1⟩ = some ⟨2⟩ := by decide +kernel
  have matched : t.broker.Matches (roll false ops) := same ▸ matches_roll false detour
  have arranged : s.broker.Rearranges t.broker := by
    refine (matches_roll false ops).rearranges matched ?_ ?_
    · simp [t, ops, detour, reports, report, linking, compiling, run, step_trust, Trust.after]
    · rw [run_compilerGated, run_compilerGated]
  have shuffled : (fresh false).Shuffles ops t :=
    .step (shuffles_run _ (reports ++ [linking])) (compiling 1) ⟨arranged, rfl⟩
  obtain ⟨exact, -, event, -⟩ := (run_unregister_exact false ops).2 t shuffled ⟨2⟩ ⟨1⟩
  have answer := exact.answer_iff.mpr owner
  obtain ⟨c, name, taken, -⟩ := exact.taken answer
  exact ⟨keys, keys', shuffled, answer, event, c, name, taken⟩

/-- In whatever state a run has left the broker, what a plugin has under an interface goes as a whole:
the same contexts leave the catalog, the index of owners and the list of the plugin, and no others
do. -/
theorem Session.run_unregisterUnder_exact (gated : Bool) (ops : List Op) (p : PluginId)
    (i : Interface) : ((fresh gated).run ops).broker.ClearsExactly p i :=
  (matches_roll gated ops).clearsExactly p i

end PluginBroker
