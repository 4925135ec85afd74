import Mathlib.Data.List.Nodup
import PluginBroker.Broker.Session
import PluginBroker.Proofs.Grouping

/-! The roll: one list with an entry for every registered context, in the order of registration.
A broker matches a roll when its tables group the entries by category and name, its owned lists
group them by owner, and its index has the owner of each.  Every operation that changes what is
registered is one operation on the roll. -/

namespace PluginBroker

/-- Who registered a context, in which category, and under which name. -/
structure Entry where
  owner : PluginId
  category : Category
  name : String
  context : Context
deriving DecidableEq

/-- The entries of the registered contexts, oldest first. -/
abbrev Roll := List Entry

namespace Roll

/-- The contexts of a category and a name, oldest first. -/
def shelf (r : Roll) (c : Category) (name : String) : List Context :=
  (r.filter fun e => e.category = c ∧ e.name = name).map (·.context)

/-- The contexts of an owner, oldest first. -/
def contextsOf (r : Roll) (p : PluginId) : List Context :=
  (r.filter (·.owner = p)).map (·.context)

/-- The entry of a context. -/
def entryOf? (r : Roll) (v : Context) : Option Entry := r.find? (·.context = v)

/-- No context has two entries. -/
def Distinct (r : Roll) : Prop := (r.map (·.context)).Nodup

/-- Without the entry of a context. -/
def strike (r : Roll) (v : Context) : Roll := r.filter (·.context ≠ v)

/-- What an owner has in a category under a name. -/
def under (r : Roll) (p : PluginId) (c : Category) (name : String) : Roll :=
  r.filter fun e => e.owner = p ∧ e.category = c ∧ e.name = name

/-- Without what an owner has in a category under a name. -/
def strikeUnder (r : Roll) (p : PluginId) (c : Category) (name : String) : Roll :=
  r.filter fun e => ¬(e.owner = p ∧ e.category = c ∧ e.name = name)

variable {r : Roll}

theorem Distinct.filter (h : r.Distinct) (keep : Entry → Bool) : Distinct (r.filter keep) :=
  h.sublist (List.filter_sublist.map _)

theorem Distinct.append (h : r.Distinct) {e : Entry} (he : ∀ d ∈ r, d.context ≠ e.context) :
    Distinct (r ++ [e]) := by
  unfold Distinct
  rw [List.map_append, List.nodup_append]
  refine ⟨h, by simp, ?_⟩
  intro v hv w hw
  obtain ⟨d, hd, rfl⟩ := List.mem_map.mp hv
  obtain rfl : w = e.context := by simpa using hw
  exact he d hd

theorem Distinct.eq_of_context (h : r.Distinct) {d e : Entry} (hd : d ∈ r) (he : e ∈ r)
    (hc : d.context = e.context) : d = e :=
  List.inj_on_of_nodup_map h hd he hc

theorem Distinct.entryOf?_eq (h : r.Distinct) {e : Entry} (he : e ∈ r) :
    r.entryOf? e.context = some e := by
  have hs : (r.entryOf? e.context).isSome := List.find?_isSome.mpr ⟨e, he, by simp⟩
  obtain ⟨d, hd⟩ := Option.isSome_iff_exists.mp hs
  have hc : d.context = e.context := by simpa using List.find?_some hd
  rw [hd, h.eq_of_context (List.mem_of_find?_eq_some hd) he hc]

/-- Of two entries of one context there is none, so what is struck with a context is its entry. -/
theorem Distinct.perm_strike (h : r.Distinct) {e : Entry} (he : e ∈ r) :
    r.Perm (e :: r.strike e.context) := by
  have nodup : r.Nodup := List.Nodup.of_map _ h
  have struck : r.strike e.context = r.erase e := by
    rw [nodup.erase_eq_filter, strike]
    refine List.filter_congr fun d hd => ?_
    have same : d.context = e.context ↔ d = e := ⟨h.eq_of_context hd he, congrArg _⟩
    simp [same, bne, beq_eq_decide]
  rw [struck]
  exact List.perm_cons_erase he

theorem entryOf?_eq_none {v : Context} : r.entryOf? v = none ↔ ∀ e ∈ r, e.context ≠ v := by
  simp [entryOf?]

theorem mem_of_entryOf? {v : Context} {e : Entry} (h : r.entryOf? v = some e) :
    e ∈ r ∧ e.context = v :=
  ⟨List.mem_of_find?_eq_some h, by simpa using List.find?_some h⟩

theorem mem_contextsOf {p : PluginId} {v : Context} :
    v ∈ r.contextsOf p ↔ ∃ e ∈ r, e.owner = p ∧ e.context = v := by
  simp [contextsOf, and_assoc]

end Roll

/-! ### The catalog -/

namespace Catalog

/-- Each table groups the entries of its category by name. -/
def Matches (k : Catalog) (r : Roll) : Prop :=
  ∀ c, (k.table c).Groups ((r.filter (·.category = c)).map fun e => (e.name, e.context))

variable {k : Catalog} {r : Roll}

theorem matches_empty : empty.Matches [] := by
  intro c
  cases c <;> exact Multimap.groups_empty

theorem Matches.shelf (h : k.Matches r) (c : Category) (name : String) :
    k.shelf c name = r.shelf c name := by
  rw [Catalog.shelf, h c name, List.filter_map, List.map_map, List.filter_filter, Roll.shelf]
  refine congrArg _ (List.filter_congr fun e _ => ?_)
  simp [Bool.and_comm]

theorem Matches.nodup_shelf (h : k.Matches r) (hd : r.Distinct) (c : Category) (name : String) :
    (k.shelf c name).Nodup := by
  rw [h.shelf]
  exact hd.filter _

theorem Matches.perm (h : k.Matches r) (c : Category) :
    (k.table c).values.Perm ((r.filter (·.category = c)).map (·.context)) := by
  simpa [Function.comp_def] using (h c).perm

theorem Matches.nodup_values (h : k.Matches r) (hd : r.Distinct) (c : Category) :
    (k.table c).values.Nodup :=
  (h.perm c).nodup_iff.mpr (hd.filter _)

theorem Matches.size (h : k.Matches r) (c : Category) :
    k.size c = (r.filter (·.category = c)).length := by
  rw [Catalog.size, (h c).size, List.length_map]

theorem Matches.mem_values (h : k.Matches r) {c : Category} {v : Context} :
    v ∈ (k.table c).values ↔ ∃ e ∈ r, e.category = c ∧ e.context = v := by
  rw [(h c).mem_values_iff]
  simp [and_assoc]

theorem Matches.categoryOf? (h : k.Matches r) (hd : r.Distinct) {e : Entry} (he : e ∈ r) :
    k.categoryOf? e.context = some e.category := by
  have holds : e.context ∈ (k.table e.category).values := h.mem_values.mpr ⟨e, he, rfl, rfl⟩
  have hs : (k.categoryOf? e.context).isSome :=
    List.find?_isSome.mpr ⟨e.category, Category.mem_all _, by simpa using holds⟩
  obtain ⟨c, hc⟩ := Option.isSome_iff_exists.mp hs
  obtain ⟨d, hdr, rfl, hde⟩ := h.mem_values.mp (by simpa using List.find?_some hc)
  rw [hc, hd.eq_of_context hdr he hde]

theorem Matches.contains_iff (h : k.Matches r) {v : Context} :
    k.contains v = true ↔ ∃ e ∈ r, e.context = v := by
  unfold Catalog.contains Catalog.categoryOf?
  rw [List.find?_isSome]
  simp only [List.contains_iff_mem, h.mem_values]
  constructor
  · rintro ⟨c, -, e, he, -, hv⟩
    exact ⟨e, he, hv⟩
  · rintro ⟨e, he, hv⟩
    exact ⟨e.category, Category.mem_all _, e, he, rfl, hv⟩

theorem takeWhere_none {c : Category} {name : String} {drop : Context → Bool}
    (h : (k.shelf c name).filter drop = []) : k.takeWhere c name drop = ([], k) := by
  have kept : (k.table c).filterAt name (fun v => !drop v) = k.table c := by
    refine Multimap.filterAt_eq_self fun v hv => ?_
    simpa using List.filter_eq_nil_iff.mp h v hv
  rw [Catalog.takeWhere, h, kept, setTable_table]

theorem Matches.put (h : k.Matches r) (e : Entry) :
    (k.put e.category e.name e.context).Matches (r ++ [e]) := by
  intro c
  rw [List.filter_append, List.map_append]
  by_cases hc : c = e.category
  · subst hc
    rw [Catalog.put, table_setTable_same]
    simpa using (h e.category).push e.name e.context
  · rw [Catalog.put, table_setTable_ne _ hc]
    simpa [Ne.symm hc] using h c

theorem Matches.take? (h : k.Matches r) (hd : r.Distinct) {e : Entry} (he : e ∈ r) :
    ∃ l, k.take? e.context = some (e.category, l) ∧ l.Matches (r.strike e.context) := by
  refine ⟨_, by rw [Catalog.take?, h.categoryOf? hd he]; rfl, ?_⟩
  intro c
  by_cases hc : c = e.category
  · subst hc
    rw [table_setTable_same]
    refine ((h e.category).erase (h.nodup_values hd _) e.context).congr ?_
    rw [List.filter_map, Roll.strike, List.filter_filter, List.filter_filter]
    refine congrArg _ (List.filter_congr fun d _ => ?_)
    by_cases hv : d.context = e.context <;> simp [hv]
  · rw [table_setTable_ne _ hc, Roll.strike, List.filter_filter]
    refine (h c).congr (congrArg _ (List.filter_congr fun d hdr => ?_))
    -- the entry of the context is the only one that goes, and its category is another one
    by_cases hv : d.context = e.context
    · simp [hd.eq_of_context hdr he hv, Ne.symm hc]
    · simp [hv]

theorem Matches.takeWhere (h : k.Matches r) (c : Category) (name : String)
    (drop : Context → Bool) : (k.takeWhere c name drop).2.Matches
      (r.filter fun e => ¬(e.category = c ∧ e.name = name ∧ drop e.context = true)) := by
  intro d
  rw [List.filter_filter]
  by_cases hd : d = c
  · subst hd
    rw [Catalog.takeWhere, table_setTable_same]
    refine ((h d).filterAt name fun v => !drop v).congr ?_
    rw [List.filter_map, List.filter_filter]
    refine congrArg _ (List.filter_congr fun e _ => ?_)
    by_cases hc : e.category = d <;> by_cases hn : e.name = name <;> simp [hc, hn]
  · rw [Catalog.takeWhere, table_setTable_ne _ hd]
    refine (h d).congr (congrArg _ (List.filter_congr fun e _ => ?_))
    by_cases hc : e.category = d
    · simp [hc, hd]
    · simp [hc]

end Catalog

/-! ### The owners -/

namespace Ownership

/-- The owned lists group the entries by owner, and the index has the owner of each entry. -/
structure Matches (o : Ownership) (r : Roll) : Prop where
  lists : o.contexts.Groups (r.map fun e => (e.owner, e.context))
  index : o.owners = r.map fun e => (e.context, e.owner)

variable {o : Ownership} {r : Roll}

theorem matches_empty : empty.Matches [] := ⟨Multimap.groups_empty, rfl⟩

theorem lookup_index (r : Roll) (v : Context) :
    (r.map fun e => (e.context, e.owner)).lookup v = (r.entryOf? v).map (·.owner) := by
  induction r with
  | nil => rfl
  | cons e r ih =>
    rw [Roll.entryOf?] at ih ⊢
    rw [List.map_cons, List.find?_cons, List.lookup_cons]
    by_cases hv : e.context = v
    · simp [hv]
    · simpa [hv, beq_false_of_ne (Ne.symm hv)] using ih

theorem Matches.ownerOf? (h : o.Matches r) (v : Context) :
    o.ownerOf? v = (r.entryOf? v).map (·.owner) := by
  rw [Ownership.ownerOf?, h.index, lookup_index]

theorem Matches.ownerOf?_eq (h : o.Matches r) (hd : r.Distinct) {e : Entry} (he : e ∈ r) :
    o.ownerOf? e.context = some e.owner := by
  rw [h.ownerOf?, hd.entryOf?_eq he, Option.map_some]

theorem Matches.owns_iff (h : o.Matches r) (hd : r.Distinct) {p : PluginId} {v : Context} :
    o.owns p v = true ↔ ∃ e ∈ r, e.owner = p ∧ e.context = v := by
  rw [Ownership.owns, beq_iff_eq]
  constructor
  · intro ho
    rw [h.ownerOf?, Option.map_eq_some_iff] at ho
    obtain ⟨e, he, hp⟩ := ho
    exact ⟨e, (Roll.mem_of_entryOf? he).1, hp, (Roll.mem_of_entryOf? he).2⟩
  · rintro ⟨e, he, rfl, rfl⟩
    exact h.ownerOf?_eq hd he

theorem Matches.owns_context_iff (h : o.Matches r) (hd : r.Distinct) {e : Entry} (he : e ∈ r)
    {p : PluginId} : o.owns p e.context = true ↔ e.owner = p := by
  rw [Ownership.owns, beq_iff_eq, h.ownerOf?_eq hd he, Option.some.injEq]

theorem Matches.isOwned_iff (h : o.Matches r) {v : Context} :
    o.isOwned v = true ↔ ∃ e ∈ r, e.context = v := by
  rw [Ownership.isOwned, h.ownerOf?, Option.isSome_map, Roll.entryOf?, List.find?_isSome]
  simp

theorem Matches.contextsOf (h : o.Matches r) (p : PluginId) :
    o.contextsOf p = r.contextsOf p := by
  rw [Ownership.contextsOf, h.lists p, List.filter_map, List.map_map]
  rfl

theorem Matches.ownsAny_iff (h : o.Matches r) {p : PluginId} :
    o.ownsAny p = true ↔ ∃ e ∈ r, e.owner = p := by
  rw [Ownership.ownsAny, h.contextsOf, Roll.contextsOf]
  simp

theorem Matches.size (h : o.Matches r) : o.size = r.length := by
  rw [Ownership.size, h.index, List.length_map]

theorem Matches.grant (h : o.Matches r) {e : Entry} (he : ∀ d ∈ r, d.context ≠ e.context) :
    (o.grant e.owner e.context).Matches (r ++ [e]) := by
  have free : ¬ o.isOwned e.context = true := by
    rw [h.isOwned_iff]
    rintro ⟨d, hd, hv⟩
    exact he d hd hv
  rw [Ownership.grant, if_neg free]
  constructor
  · simpa using h.lists.push e.owner e.context
  · simp [h.index]

theorem Matches.revoke (h : o.Matches r) (hd : r.Distinct) (p : PluginId) (v : Context) :
    (o.revoke p v).Matches (r.filter fun e => ¬(e.owner = p ∧ e.context = v)) := by
  by_cases ho : o.owns p v = true
  · obtain ⟨e, he, hp, hv⟩ := (h.owns_iff hd).mp ho
    rw [Ownership.revoke, if_pos ho]
    constructor
    · refine (h.lists.filterAt p (· != v)).congr ?_
      rw [List.filter_map]
      refine congrArg _ (List.filter_congr fun d _ => ?_)
      by_cases hdp : d.owner = p <;> by_cases hdv : d.context = v <;> simp [hdp, hdv]
    · rw [h.index, List.filter_map]
      refine congrArg _ (List.filter_congr fun d hdr => ?_)
      -- the plugin owns the context, so its one entry has the plugin as owner
      by_cases hdv : d.context = v
      · simp [hd.eq_of_context hdr he (hdv.trans hv.symm), hp, hv]
      · simp [hdv]
  · rw [Ownership.revoke, if_neg ho, List.filter_eq_self.mpr]
    · exact h
    · intro e he
      simp only [decide_eq_true_eq]
      exact fun hc => ho ((h.owns_iff hd).mpr ⟨e, he, hc⟩)

theorem Matches.revokeAll (h : o.Matches r) (hd : r.Distinct) (p : PluginId) (vs : List Context) :
    (o.revokeAll p vs).Matches (r.filter fun e => ¬(e.owner = p ∧ e.context ∈ vs)) := by
  induction vs generalizing o r with
  | nil => simpa [Ownership.revokeAll] using h
  | cons v vs ih =>
    have hrest := ih (h.revoke hd p v) (hd.filter _)
    rw [List.filter_filter] at hrest
    have hsplit : (r.filter fun e => ¬(e.owner = p ∧ e.context ∈ v :: vs)) =
        r.filter fun e =>
          ¬(e.owner = p ∧ e.context ∈ vs) && decide ¬(e.owner = p ∧ e.context = v) := by
      refine List.filter_congr fun e _ => ?_
      by_cases hp : e.owner = p <;> simp [hp, Bool.and_comm]
    rw [hsplit]
    exact hrest

end Ownership

end PluginBroker
