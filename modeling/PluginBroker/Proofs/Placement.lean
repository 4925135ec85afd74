import PluginBroker.Proofs.Custody
import PluginBroker.Proofs.Origin
import PluginBroker.Proofs.Reports

/-! Where a context is put, and how long it stays there.  What a context declares is checked when it is
registered, and never looked at again: the context stays on its shelf until it is taken out, and
nobody can tell from the broker's answers what it declares meanwhile. -/

namespace PluginBroker

/-- Whether the operation asks for the entry to be taken out, on behalf of its owner. -/
def Op.takesOut (e : Entry) : Op → Prop
  | .unregister p v => p = e.owner ∧ v = e.context
  | .unregisterUnder p i => p = e.owner ∧ i.category = e.category ∧ i.name = e.name
  | _ => False

/-- The context belongs to the plugin, and stands on this shelf and on no other. -/
structure Broker.Stands (b : Broker) (v : Context) (p : PluginId) (c : Category) (name : String) :
    Prop where
  owner : b.ownerOf? v = some p
  shelf : ∀ d other, v ∈ b.catalog.shelf d other ↔ d = c ∧ other = name

theorem Broker.Matches.stands_iff {b : Broker} {r : Roll} (h : b.Matches r) {e : Entry} :
    b.Stands e.context e.owner e.category e.name ↔ e ∈ r := by
  constructor
  · rintro ⟨owner, shelf⟩
    obtain ⟨d, hd, hv⟩ := h.ownerOf?_iff.mp owner
    obtain ⟨hdr, ho⟩ := Roll.mem_ofOwner.mp hd
    -- the one entry of the context has the owner, and the shelf that the context stands on
    have place : d.context ∈ b.catalog.shelf e.category e.name ↔
        d.category = e.category ∧ d.name = e.name := h.mem_shelf_iff hdr
    rw [hv, shelf] at place
    obtain ⟨hc, hn⟩ := place.mp ⟨rfl, rfl⟩
    obtain rfl : d = e := by
      cases d
      cases e
      simp_all
    exact hdr
  · intro he
    refine ⟨h.ownership.ownerOf?_eq h.distinct he, fun d other => ?_⟩
    rw [h.mem_shelf_iff he]
    exact and_congr eq_comm eq_comm

namespace Session

variable {s : Session} {r : Roll} {e : Entry} {op : Op} {ops : List Op}

/-- An entry outlasts every operation that does not ask for it to be taken out, and no other. -/
theorem mem_note_iff (h : s.broker.Matches r) (he : e ∈ r) :
    e ∈ r.note op (s.step op).answer ↔ ¬ op.takesOut e := by
  cases op with
  | register p v i =>
    have kept : e ∈ r.note (.register p v i) (s.step (.register p v i)).answer := by
      cases ha : (s.broker.register s.profiles p v i).answer with
      | error refusal => simpa only [step, replied, ha, Roll.note] using he
      | ok _ =>
        simp only [step, replied, ha, Roll.note]
        exact List.mem_append_left _ he
    exact iff_of_true kept id
  | unregister p v =>
    simp only [step, replied, h.unregister_answer]
    cases ho : s.broker.ownership.owns p v with
    | true =>
      simp only [Roll.note, Roll.strike, List.mem_filter, he, true_and, decide_eq_true_eq, Op.takesOut]
      rw [not_iff_not]
      constructor
      · rintro rfl
        exact ⟨((h.ownership.owns_context_iff h.distinct he).mp ho).symm, rfl⟩
      · exact fun h => h.2.symm
    | false =>
      refine iff_of_true he ?_
      rintro ⟨rfl, rfl⟩
      rw [(h.ownership.owns_context_iff h.distinct he).mpr rfl] at ho
      cases ho
  | unregisterUnder p i =>
    cases ha : (s.broker.unregisterUnder p i).answer with
    | true =>
      simp only [step, replied, ha, Roll.note, Roll.strikeUnder, List.mem_filter, he, true_and,
        decide_eq_true_eq, Op.takesOut]
      rw [not_iff_not]
      exact and_congr eq_comm (and_congr eq_comm eq_comm)
    | false =>
      simp only [step, replied, ha, Roll.note, he, true_iff]
      rintro ⟨rfl, hc, hn⟩
      have some : e ∈ r.under e.owner i.category i.name := by simp [Roll.under, he, hc, hn]
      have answer := h.unregisterUnder_answer_iff.mpr (List.ne_nil_of_mem some)
      rw [ha] at answer
      cases answer
  | _ => exact iff_of_true he id

theorem mem_follow (h : s.broker.Matches r) (he : e ∈ r) (hops : ∀ op ∈ ops, ¬ op.takesOut e) :
    e ∈ s.follow r ops := by
  induction ops generalizing s r with
  | nil => exact he
  | cons op ops ih =>
    obtain ⟨hop, hrest⟩ := List.forall_mem_cons.mp hops
    exact ih (matches_step h op) ((mem_note_iff h he).mpr hop) hrest

end Session

theorem Broker.Qualifies.category_eq {declared : List Interface} {i d : Interface}
    (h : Qualifies declared i) (hd : d ∈ declared) : d.category = i.category := by
  have listed : d.category ∈ categoriesOf declared := by
    refine List.mem_filter.mpr ⟨Category.mem_all _, List.any_eq_true.mpr ⟨d, hd, ?_⟩⟩
    exact beq_self_eq_true _
  rw [h.categories] at listed
  exact List.mem_singleton.mp listed

/-- The registration was right for the shelf: the interface belongs to the category and has the
fingerprint that it declares, all that the context declares belongs to the category, and some of it
bears the name. -/
structure RightFor (declared : List Interface) (i : Interface) (c : Category) (name : String) :
    Prop where
  category : i.category = c
  named : i.name = name
  checked : ∀ k, i.contract? = some k → i.fingerprint.accepts k.fingerprint = true
  categories : ∀ d ∈ declared, d.category = c
  bearer : ∃ d ∈ declared, ∃ e ∈ d.chain, e.name = name

theorem Broker.Qualifies.rightFor {declared : List Interface} {i : Interface}
    (h : Qualifies declared i) : RightFor declared i i.category i.name where
  category := rfl
  named := rfl
  checked := h.checked
  categories _ hd := h.category_eq hd
  bearer := by
    obtain ⟨d, hd, hi⟩ := h.implemented
    obtain ⟨e, he, -, hn⟩ := Interface.refines_iff.mp hi
    exact ⟨d, hd, e, he, hn⟩

/-- Every context on a shelf was registered there rightly, by what it declared at that moment, and has
stood there ever since with the owner that it got then; it stays there until its owner has it
taken out.  What a context declares after its last registration makes no difference to any
answer, and what ids contexts have makes one to lookups by id alone. -/
theorem Session.run_placement (gated : Bool) :
    (∀ ops c name, ∀ v ∈ ((fresh gated).run ops).broker.catalog.shelf c name,
      ∃ before p i, Registered gated ops before p v i ∧
        RightFor (((fresh gated).run before).profiles v).interfaces i c name ∧
        ∀ mid, before ++ [.register p v i] <+: mid → mid <+: ops →
          ((fresh gated).run mid).broker.Stands v p c name) ∧
    (∀ ops v p c name, ((fresh gated).run ops).broker.Stands v p c name →
      (∀ op, ((fresh gated).run (ops ++ [op])).broker.Stands v p c name ↔
        ¬ op.takesOut ⟨p, c, name, v⟩) ∧
      ∀ more, (∀ op ∈ more, ¬ op.takesOut ⟨p, c, name, v⟩) →
        ((fresh gated).run (ops ++ more)).broker.Stands v p c name) ∧
    (∀ v ops ops', DifferInInterfaces v ((fresh gated).calls ops) ((fresh gated).calls ops') →
      (fresh gated).replies ops = (fresh gated).replies ops') ∧
    (∀ ops ops', List.Forall₂ Call.SameButIds ((fresh gated).calls ops) ((fresh gated).calls ops') →
      ((fresh gated).replies ops).filter (fun x => !x.1.asksId) =
        ((fresh gated).replies ops').filter fun x => !x.1.asksId) := by
  refine ⟨?_, ?_, ?_, ?_⟩
  · intro ops c name v hv
    rw [(matches_roll gated ops).catalog.shelf] at hv
    obtain ⟨e, hshelf, rfl⟩ := List.mem_map.mp hv
    obtain ⟨he, hcn⟩ := List.mem_filter.mp hshelf
    obtain ⟨rfl, rfl⟩ := of_decide_eq_true hcn
    obtain ⟨before, i, hc, hn, registered, since⟩ := registered_since_of_mem_roll he
    refine ⟨before, e.owner, i, registered, hc ▸ hn ▸ registered.qualifies.rightFor, ?_⟩
    intro mid hb hm
    exact (matches_roll gated mid).stands_iff.mpr (since mid hb hm)
  · intro ops v p c name hv
    have matched := matches_roll gated ops
    have he := matched.stands_iff (e := ⟨p, c, name, v⟩) |>.mp hv
    constructor
    · intro op
      rw [← mem_note_iff matched he, ← roll_concat]
      exact (matches_roll gated (ops ++ [op])).stands_iff (e := ⟨p, c, name, v⟩)
    · intro more hmore
      refine ((matches_roll gated (ops ++ more)).stands_iff (e := ⟨p, c, name, v⟩)).mpr ?_
      rw [roll_append]
      exact mem_follow matched he hmore
  · intro v ops ops' h
    rw [replies_eq, replies_eq]
    exact Broker.repliesTo_of_differInInterfaces h _
  · intro ops ops' h
    rw [replies_eq, replies_eq]
    exact Broker.repliesTo_of_sameButIds h _

/-- A context that turns into another kind, or takes another id, stays where it was registered, and
nobody is told. -/
theorem Session.turncoat_placement :
    let report (c : Category) (id : String) : Op :=
      .report ⟨0⟩ { interfaces := [.root c], id? := some id }
    let start := [report .memory "a", .register ⟨1⟩ ⟨0⟩ (.root .memory)]
    let calls : List Op := [.lookup ⟨2⟩ (.root .compiler) .first, .contextsOf ⟨1⟩,
      .lookup ⟨2⟩ (.root .memory) (.withId "a"), .unregisterUnder ⟨1⟩ (.root .compiler)]
    let turned := start ++ report .compiler "a" :: calls
    let renamed := start ++ report .memory "b" :: calls
    let s := fresh false
    ⟨0⟩ ∈ (s.run start).broker.catalog.shelf .memory "MemoryContext" ∧
    (s.run start).broker.Stands ⟨0⟩ ⟨1⟩ .memory "MemoryContext" ∧
    (∀ op ∈ report .compiler "a" :: calls, ¬ op.takesOut ⟨⟨1⟩, .memory, "MemoryContext", ⟨0⟩⟩) ∧
    (s.run turned).broker.Stands ⟨0⟩ ⟨1⟩ .memory "MemoryContext" ∧
    DifferInInterfaces ⟨0⟩ (s.calls (start ++ calls)) (s.calls turned) ∧
    s.replies (start ++ calls) = s.replies turned ∧
    List.Forall₂ Call.SameButIds (s.calls (start ++ calls)) (s.calls renamed) ∧
    (s.replies (start ++ calls)).filter (fun x => !x.1.asksId) =
      (s.replies renamed).filter fun x => !x.1.asksId := by
  intro report start calls turned renamed s
  obtain ⟨origin, stays, interfaces, ids⟩ := run_placement false
  have shelved : ⟨0⟩ ∈ (s.run start).broker.catalog.shelf .memory "MemoryContext" := by decide
  have stands : (s.run start).broker.Stands ⟨0⟩ ⟨1⟩ .memory "MemoryContext" := by
    obtain ⟨before, p, i, registered, -, since⟩ := origin start .memory "MemoryContext" ⟨0⟩ shelved
    have stands := since start registered.origin (List.prefix_refl _)
    have owner : (s.run start).broker.ownerOf? ⟨0⟩ = some ⟨1⟩ := by decide
    obtain rfl : p = ⟨1⟩ := Option.some.inj (stands.owner.symm.trans owner)
    exact stands
  have left : ∀ op ∈ report .compiler "a" :: calls,
      ¬ op.takesOut ⟨⟨1⟩, .memory, "MemoryContext", ⟨0⟩⟩ := by
    simp [report, calls, Op.takesOut, Interface.category]
  have differ : DifferInInterfaces ⟨0⟩ (s.calls (start ++ calls)) (s.calls turned) := by
    refine ⟨s.calls start, (s.run start).calls calls,
      (s.run start).calls (report .compiler "a" :: calls), rfl, rfl, ?_⟩
    have others : ∀ w : Context, w ≠ ⟨0⟩ → ((s.run start).profiles w) =
        ((s.run start).step (report .compiler "a")).session.profiles w := by
      intro w hw
      simp [report, step, Session.report, hw]
    exact .cons ⟨rfl, id, rfl, others⟩ <| .cons ⟨rfl, id, rfl, others⟩ <|
      .cons ⟨rfl, id, rfl, others⟩ <| .cons ⟨rfl, id, rfl, others⟩ .nil
  have same : List.Forall₂ Call.SameButIds (s.calls (start ++ calls)) (s.calls renamed) := by
    have declared : ∀ v, ((s.run start).profiles v).interfaces =
        ((s.run (start ++ [report .memory "b"])).profiles v).interfaces := by
      intro v
      by_cases hv : v = ⟨0⟩ <;> simp [report, start, s, step, replied, Session.report, hv]
    exact .cons ⟨rfl, fun _ => rfl⟩ <| .cons ⟨rfl, declared⟩ <| .cons ⟨rfl, declared⟩ <|
      .cons ⟨rfl, declared⟩ <| .cons ⟨rfl, declared⟩ .nil
  exact ⟨shelved, stands, left, (stays start ⟨0⟩ ⟨1⟩ .memory "MemoryContext" stands).2 _ left, differ,
    interfaces ⟨0⟩ _ _ differ, same, ids _ _ same⟩

end PluginBroker
