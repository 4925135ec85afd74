import PluginBroker.Proofs.Roll

/-! What registering and unregistering do to the roll of a broker, with the answer and the event of
every outcome, and what each operation leaves alone. -/

namespace PluginBroker.Broker

/-- The tables, the owned lists and the index all hold what is on the roll. -/
structure Matches (b : Broker) (r : Roll) : Prop where
  distinct : r.Distinct
  catalog : b.catalog.Matches r
  ownership : b.ownership.Matches r

variable {b : Broker} {r : Roll}

theorem matches_fresh (gated : Bool) : (fresh gated).Matches [] :=
  ⟨List.nodup_nil, Catalog.matches_empty, Ownership.matches_empty⟩

/-! ### What each operation leaves alone -/

theorem register_broker (profiles : Profiles) (p : PluginId) (v : Context) (i : Interface) :
    ∃ catalog ownership, (b.register profiles p v i).broker = { b with catalog, ownership } := by
  unfold Broker.register
  split
  · exact ⟨_, _, rfl⟩
  · exact ⟨b.catalog, b.ownership, rfl⟩

theorem unregister_broker (p : PluginId) (v : Context) :
    ∃ catalog ownership, (b.unregister p v).broker = { b with catalog, ownership } := by
  unfold Broker.unregister
  split
  · split
    · exact ⟨_, _, rfl⟩
    · exact ⟨b.catalog, b.ownership, rfl⟩
  · exact ⟨b.catalog, b.ownership, rfl⟩

theorem unregisterUnder_broker (p : PluginId) (i : Interface) :
    ∃ catalog ownership, (b.unregisterUnder p i).broker = { b with catalog, ownership } := by
  unfold Broker.unregisterUnder
  split
  · dsimp only
    split <;> exact ⟨_, _, rfl⟩
  · exact ⟨b.catalog, b.ownership, rfl⟩

theorem setToken_broker (token : String) : (b.setToken token).broker =
    { b with trust := (b.trust.setToken? token).getD b.trust } := by
  unfold setToken
  split
  · next h => rw [h, Option.getD_some]
  · next h => rw [h, Option.getD_none]

theorem bind_broker (token : String) (graph : Graph) : (b.bind token graph).broker =
    { b with trust := (b.trust.bind? token graph).getD b.trust } := by
  unfold bind
  split
  · next h => rw [h, Option.getD_some]
  · next h => rw [h, Option.getD_none]

theorem Matches.withTrust (h : b.Matches r) (trust : Trust) : { b with trust }.Matches r :=
  ⟨h.distinct, h.catalog, h.ownership⟩

/-! ### Registering -/

/-- What a registration under an interface asks of the interfaces that the context declares and of
the interface itself: one of the declared ones stands in for it, all of them descend from its root
contract, and it has the fingerprint that it declares. -/
structure Qualifies (declared : List Interface) (i : Interface) : Prop where
  implemented : ∃ d ∈ declared, d.refines i = true
  categories : categoriesOf declared = [i.category]
  checked : ∀ c, i.contract? = some c → i.fingerprint.accepts c.fingerprint = true

/-- A context is admitted to the category of the interface, if it qualifies and nobody owns it. -/
theorem admission_ok_iff {declared : List Interface} {v : Context} {i : Interface} {c : Category} :
    b.admission declared v i = .ok c ↔
      c = i.category ∧ Qualifies declared i ∧ b.ownership.isOwned v = false := by
  unfold admission
  constructor
  · intro h
    split at h
    · next hi =>
      split at h
      · next d hd =>
        split at h
        · next hc =>
          split at h
          · next f hf =>
            split at h
            · cases h
            · next ho =>
              obtain rfl : d = c := by simpa using h
              exact ⟨hc, ⟨by simpa using hi, hc ▸ hd, (Interface.check_ok_iff.mp hf).2⟩,
                by simpa using ho⟩
          · cases h
        · cases h
      · cases h
    · cases h
  · rintro ⟨rfl, hq, ho⟩
    have hi : (declared.any fun d => d.refines i) = true := by simpa using hq.implemented
    have hf : i.check = .ok i.fingerprint := Interface.check_ok_iff.mpr ⟨rfl, hq.checked⟩
    simp [hi, hq.categories, hf, ho]

/-- A registration is accepted if the context qualifies and nobody owns it. -/
theorem register_ok_iff {profiles : Profiles} {p : PluginId} {v : Context} {i : Interface} :
    (b.register profiles p v i).answer = .ok () ↔
      Qualifies (profiles v).interfaces i ∧ b.ownership.isOwned v = false := by
  unfold Broker.register
  constructor
  · intro h
    split at h
    · next hc => exact (admission_ok_iff.mp hc).2
    · cases h
  · intro h
    rw [admission_ok_iff.mpr ⟨rfl, h⟩]

/-- Of what is registered, admission asks only whether the context itself is. -/
theorem admission_congr {d : Broker} {v : Context}
    (h : d.ownership.isOwned v = b.ownership.isOwned v) (declared : List Interface)
    (i : Interface) : d.admission declared v i = b.admission declared v i := by
  unfold admission
  rw [h]

theorem register_answer {profiles : Profiles} {p : PluginId} {v : Context} {i : Interface} :
    (b.register profiles p v i).answer =
      (b.admission (profiles v).interfaces v i).map fun _ => () := by
  unfold Broker.register
  split
  · next h => rw [h]; rfl
  · next h => rw [h]; rfl

theorem Matches.enter (h : b.Matches r) {e : Entry} (he : ∀ d ∈ r, d.context ≠ e.context) :
    (b.enter e.owner e.context e.category e.name).Matches (r ++ [e]) :=
  ⟨h.distinct.append he, h.catalog.put e, h.ownership.grant he⟩

/-- A registration is refused and changes nothing, or it puts one entry at the end of the roll. -/
theorem Matches.register (h : b.Matches r) (profiles : Profiles) (p : PluginId) (v : Context)
    (i : Interface) :
    (∃ refusal, b.register profiles p v i = ⟨.error refusal, b, some (.refused p i.name refusal)⟩) ∨
    (∃ after, b.register profiles p v i =
        ⟨.ok (), after, some (.registered p i.name i.category (profiles v).id?)⟩ ∧
      (∀ e ∈ r, e.context ≠ v) ∧ after = b.enter p v i.category i.name ∧
      after.Matches (r ++ [⟨p, i.category, i.name, v⟩])) := by
  unfold Broker.register
  cases ha : b.admission (profiles v).interfaces v i with
  | error refusal => exact .inl ⟨refusal, rfl⟩
  | ok c =>
    obtain ⟨rfl, -, ho⟩ := admission_ok_iff.mp ha
    have free : ∀ e ∈ r, e.context ≠ v := by
      intro e he hv
      have := h.ownership.isOwned_iff.mpr ⟨e, he, hv⟩
      simp [ho] at this
    exact .inr ⟨_, rfl, free, rfl, h.enter (e := ⟨p, i.category, i.name, v⟩) free⟩

/-! ### Unregistering -/

theorem unregister_of_not_owns {p : PluginId} {v : Context}
    (h : ¬ b.ownership.owns p v = true) : b.unregister p v = ⟨false, b, none⟩ := by
  rw [Broker.unregister, if_neg h]

/-- The owner of a context takes it out of everything at once. -/
theorem Matches.unregister (h : b.Matches r) {e : Entry} (he : e ∈ r) :
    ∃ catalog ownership, b.unregister e.owner e.context =
        ⟨true, { b with catalog, ownership }, some (.unregistered e.owner e.category)⟩ ∧
      { b with catalog, ownership }.Matches (r.strike e.context) := by
  have owned := (h.ownership.owns_iff h.distinct).mpr ⟨e, he, rfl, rfl⟩
  obtain ⟨catalog, htake, hcatalog⟩ := h.catalog.take? h.distinct he
  refine ⟨catalog, b.ownership.revoke e.owner e.context, ?_, h.distinct.filter _, hcatalog, ?_⟩
  · rw [Broker.unregister, if_pos owned, htake]
  · have hrevoke := h.ownership.revoke h.distinct e.owner e.context
    rwa [List.filter_congr (q := fun d => d.context ≠ e.context)] at hrevoke
    intro d hd
    by_cases hv : d.context = e.context
    · simp [h.distinct.eq_of_context hd he hv]
    · simp [hv]

theorem Matches.unregister_answer (h : b.Matches r) (p : PluginId) (v : Context) :
    (b.unregister p v).answer = b.ownership.owns p v := by
  by_cases ho : b.ownership.owns p v = true
  · obtain ⟨e, he, rfl, rfl⟩ := (h.ownership.owns_iff h.distinct).mp ho
    obtain ⟨catalog, ownership, heq, -⟩ := h.unregister he
    rw [heq, ho]
  · rw [unregister_of_not_owns ho]
    exact (Bool.eq_false_iff.mpr ho).symm

/-- What a plugin owns on a shelf is what it has under the shelf's category and name. -/
theorem Matches.owned_on_shelf (h : b.Matches r) (p : PluginId) (c : Category) (name : String) :
    (b.catalog.shelf c name).filter (b.ownership.owns p) = (r.under p c name).map (·.context) := by
  rw [h.catalog.shelf, Roll.shelf, List.filter_map, List.filter_filter, Roll.under]
  refine congrArg _ (List.filter_congr fun e he => ?_)
  rw [Bool.eq_iff_iff]
  simp [h.ownership.owns_context_iff h.distinct he]

theorem Matches.takeWhere (h : b.Matches r) (p : PluginId) (c : Category) (name : String) :
    (b.catalog.takeWhere c name (b.ownership.owns p)).2.Matches (r.strikeUnder p c name) := by
  have htake := h.catalog.takeWhere c name (b.ownership.owns p)
  rwa [List.filter_congr (q := fun e => ¬(e.owner = p ∧ e.category = c ∧ e.name = name))] at htake
  intro e he
  rw [decide_eq_decide, h.ownership.owns_context_iff h.distinct he]
  tauto

theorem Matches.revokeAll (h : b.Matches r) (p : PluginId) (c : Category) (name : String) :
    (b.ownership.revokeAll p ((r.under p c name).map (·.context))).Matches
      (r.strikeUnder p c name) := by
  have hrevoke := h.ownership.revokeAll h.distinct p ((r.under p c name).map (·.context))
  rwa [List.filter_congr (q := fun e => ¬(e.owner = p ∧ e.category = c ∧ e.name = name))] at hrevoke
  intro e he
  rw [decide_eq_decide, not_iff_not]
  refine and_congr_right fun hp => ?_
  constructor
  · intro hm
    obtain ⟨d, hd, hv⟩ := List.mem_map.mp hm
    obtain ⟨hdr, hdu⟩ := List.mem_filter.mp hd
    rw [h.distinct.eq_of_context hdr he hv] at hdu
    exact (of_decide_eq_true hdu).2
  · intro hcn
    exact List.mem_map.mpr ⟨e, List.mem_filter.mpr ⟨he, decide_eq_true ⟨hp, hcn⟩⟩, rfl⟩

/-- A plugin that has nothing under an interface takes nothing out under it. -/
theorem Matches.unregisterUnder_none (h : b.Matches r) {p : PluginId} {i : Interface}
    (hu : r.under p i.category i.name = []) : b.unregisterUnder p i = ⟨false, b, none⟩ := by
  unfold Broker.unregisterUnder
  split
  · have none : (b.catalog.shelf i.category i.name).filter (b.ownership.owns p) = [] := by
      rw [h.owned_on_shelf, hu, List.map_nil]
    simp only [Catalog.takeWhere_none none]
    rfl
  · rfl

/-- A plugin takes out all that it has under an interface at once. -/
theorem Matches.unregisterUnder_some (h : b.Matches r) {p : PluginId} {i : Interface}
    (hu : r.under p i.category i.name ≠ []) :
    ∃ catalog ownership, b.unregisterUnder p i = ⟨true, { b with catalog, ownership },
        some (.unregisteredUnder p i.name (r.under p i.category i.name).length)⟩ ∧
      { b with catalog, ownership }.Matches (r.strikeUnder p i.category i.name) := by
  have owned : b.ownership.ownsAny p = true := by
    obtain ⟨e, he⟩ := List.exists_mem_of_ne_nil _ hu
    obtain ⟨her, heu⟩ := List.mem_filter.mp he
    exact h.ownership.ownsAny_iff.mpr ⟨e, her, (of_decide_eq_true heu).1⟩
  have taken := h.owned_on_shelf p i.category i.name
  refine ⟨(b.catalog.takeWhere i.category i.name (b.ownership.owns p)).2,
    b.ownership.revokeAll p ((r.under p i.category i.name).map (·.context)), ?_,
    h.distinct.filter _, h.takeWhere p i.category i.name, h.revokeAll p i.category i.name⟩
  have something : ((r.under p i.category i.name).map (·.context)).isEmpty = false := by
    simpa using hu
  simp [Broker.unregisterUnder, owned, Catalog.takeWhere, taken, something]

theorem Matches.unregisterUnder_answer_iff (h : b.Matches r) {p : PluginId} {i : Interface} :
    (b.unregisterUnder p i).answer = true ↔ r.under p i.category i.name ≠ [] := by
  by_cases hu : r.under p i.category i.name = []
  · simp [h.unregisterUnder_none hu, hu]
  · obtain ⟨catalog, ownership, heq, -⟩ := h.unregisterUnder_some hu
    simp [heq, hu]

end PluginBroker.Broker
