import Mathlib.Data.List.Induction
import PluginBroker.Proofs.Run

/-! Where a registered context comes from: the registration that a run accepted last for it, the
interface of that registration, and what the context declared at that moment.  A lookup hands out
contexts by name and root contract.  The shapes of the interfaces that go by one name are compared
with nothing but what each of them declares, so they agree exactly as far as the plugins keep to one
shape for each name. -/

namespace PluginBroker

/-! ### The way to the root -/

/-- The interface and those that it descends from, up to its root contract. -/
def Interface.chain : Interface → List Interface
  | .root c => [.root c]
  | .extension n p k ms => .extension n p k ms :: p.chain

theorem Interface.bears_iff {i : Interface} {n : String} :
    i.bears n = true ↔ ∃ e ∈ i.chain, e.name = n := by
  induction i with
  | root c => simp [bears, chain, name]
  | extension m p k ms ih => simp [bears, chain, name, ih]

theorem Interface.category_of_mem_chain {i e : Interface} (h : e ∈ i.chain) :
    e.category = i.category := by
  induction i with
  | root c =>
    obtain rfl := List.mem_singleton.mp h
    rfl
  | extension m p k ms ih =>
    rcases List.mem_cons.mp h with rfl | h
    · rfl
    · exact ih h

theorem Interface.refines_iff {d i : Interface} :
    d.refines i = true ↔ ∃ e ∈ d.chain, e.category = i.category ∧ e.name = i.name := by
  rw [refines, Bool.and_eq_true, beq_iff_eq, bears_iff]
  constructor
  · rintro ⟨hc, e, he, hn⟩
    exact ⟨e, he, (category_of_mem_chain he).trans hc, hn⟩
  · rintro ⟨e, he, hc, hn⟩
    exact ⟨(category_of_mem_chain he).symm.trans hc, e, he, hn⟩

/-! ### What contexts report -/

/-- The interfaces that an operation brings into a run: the one that it registers under, or those on
the way from the reported ones to their roots. -/
def Op.interfaces : Op → List Interface
  | .report _ profile => profile.interfaces.flatMap Interface.chain
  | .register _ _ i => [i]
  | _ => []

/-- Interfaces of one name under one root contract have one fingerprint. -/
def Coherent (is : List Interface) : Prop :=
  ∀ a ∈ is, ∀ b ∈ is, a.category = b.category → a.name = b.name → a.fingerprint = b.fingerprint

namespace Session

variable {gated : Bool} {ops before : List Op} {p : PluginId} {v : Context} {i : Interface}

theorem profiles_step (s : Session) (op : Op) : (s.step op).session.profiles = s.profiles ∨
    ∃ w profile, op = .report w profile ∧ (s.step op).session = s.report w profile := by
  cases op with
  | report w profile => exact .inr ⟨w, profile, rfl, rfl⟩
  | _ => exact .inl rfl

theorem reported_of_declared {d : Interface}
    (h : d ∈ (((fresh gated).run ops).profiles v).interfaces) :
    ∃ profile, Op.report v profile ∈ ops ∧ d ∈ profile.interfaces := by
  induction ops using List.reverseRecOn with
  | nil => cases h
  | append_singleton ops op ih =>
    rw [run_concat] at h
    have earlier (hd : d ∈ (((fresh gated).run ops).profiles v).interfaces) :
        ∃ profile, Op.report v profile ∈ ops ++ [op] ∧ d ∈ profile.interfaces := by
      obtain ⟨profile, hm, hp⟩ := ih hd
      exact ⟨profile, List.mem_append_left _ hm, hp⟩
    -- only a report on `v` itself can replace what `v` declares
    rcases profiles_step ((fresh gated).run ops) op with hkept | ⟨w, profile, rfl, hw⟩
    · rw [hkept] at h
      exact earlier h
    · rw [hw] at h
      by_cases hv : v = w
      · subst hv
        exact ⟨profile, by simp, by simpa [report] using h⟩
      · exact earlier (by simpa [report, hv] using h)

/-! ### The registration that counts -/

/-- The context is registered at the end of a run because `p` registered it under `i` right after
the operations `before`, and `p` has owned it ever since. -/
structure Registered (gated : Bool) (ops before : List Op) (p : PluginId) (v : Context)
    (i : Interface) : Prop where
  origin : before ++ [.register p v i] <+: ops
  accepted : (((fresh gated).run before).step (.register p v i)).answer = .registration (.ok ())
  since : ∀ mid, before ++ [.register p v i] <+: mid → mid <+: ops →
    ((fresh gated).run mid).broker.ownerOf? v = some p

theorem Registered.qualifies (h : Registered gated ops before p v i) :
    Broker.Qualifies (((fresh gated).run before).profiles v).interfaces i := by
  have accepted := h.accepted
  simp only [step, replied, Answer.registration.injEq] at accepted
  exact (Broker.register_ok_iff.mp accepted).1

theorem Registered.mem (h : Registered gated ops before p v i) : Op.register p v i ∈ ops :=
  h.origin.subset (by simp)

theorem Registered.reported (h : Registered gated ops before p v i) {d : Interface}
    (hd : d ∈ (((fresh gated).run before).profiles v).interfaces) :
    ∃ profile, Op.report v profile ∈ ops ∧ d ∈ profile.interfaces := by
  obtain ⟨profile, hm, hp⟩ := reported_of_declared hd
  exact ⟨profile, h.origin.subset (List.mem_append_left _ hm), hp⟩

theorem owner_of_mem_roll {e : Entry} (h : e ∈ roll gated ops) :
    ((fresh gated).run ops).broker.ownerOf? e.context = some e.owner :=
  have matched := matches_roll gated ops
  matched.ownership.ownerOf?_eq matched.distinct h

/-- Every entry of the roll goes back to one registration, in its category and under its name, and has
been on the roll since. -/
theorem registered_since_of_mem_roll {e : Entry} (h : e ∈ roll gated ops) :
    ∃ before i, i.category = e.category ∧ i.name = e.name ∧
      Registered gated ops before e.owner e.context i ∧
      ∀ mid, before ++ [.register e.owner e.context i] <+: mid → mid <+: ops →
        e ∈ roll gated mid := by
  -- the owner at each moment is the one that the entry names
  suffices entered : ∃ before i, i.category = e.category ∧ i.name = e.name ∧
      before ++ [.register e.owner e.context i] <+: ops ∧
      (((fresh gated).run before).step (.register e.owner e.context i)).answer =
        .registration (.ok ()) ∧
      ∀ mid, before ++ [.register e.owner e.context i] <+: mid → mid <+: ops →
        e ∈ roll gated mid by
    obtain ⟨before, i, hc, hn, origin, accepted, since⟩ := entered
    have owned mid hb hm := owner_of_mem_roll (since mid hb hm)
    exact ⟨before, i, hc, hn, ⟨origin, accepted, owned⟩, since⟩
  induction ops using List.reverseRecOn with
  | nil => cases h
  | append_singleton ops op ih =>
    have current := h
    rw [roll_concat] at h
    rcases Roll.mem_note h with hold | ⟨i, rfl, hanswer, hc, hn⟩
    · -- an entry that was there before: one more moment at which it is there
      obtain ⟨before, i, hc, hn, origin, accepted, since⟩ := ih hold
      refine ⟨before, i, hc, hn, origin.trans (List.prefix_append _ _), accepted, ?_⟩
      intro mid hb hm
      rcases List.prefix_concat_iff.mp hm with rfl | hm
      · exact current
      · exact since mid hb hm
    · -- a new entry: the only moment since is the present one
      refine ⟨ops, i, hc.symm, hn.symm, List.prefix_refl _, hanswer, ?_⟩
      intro mid hb hm
      obtain rfl := hb.eq_of_length_le hm.length_le
      exact current

theorem registered_of_mem_roll {e : Entry} (h : e ∈ roll gated ops) :
    ∃ before i, i.category = e.category ∧ i.name = e.name ∧
      Registered gated ops before e.owner e.context i := by
  obtain ⟨before, i, hc, hn, hr, -⟩ := registered_since_of_mem_roll h
  exact ⟨before, i, hc, hn, hr⟩

theorem registered_of_mem_shelf {c : Category} {name : String}
    (h : v ∈ ((fresh gated).run ops).broker.catalog.shelf c name) :
    ∃ before p i, i.category = c ∧ i.name = name ∧ Registered gated ops before p v i := by
  rw [(matches_roll gated ops).catalog.shelf, Roll.shelf] at h
  obtain ⟨e, he, rfl⟩ := List.mem_map.mp h
  obtain ⟨he, hcn⟩ := List.mem_filter.mp he
  obtain ⟨before, i, hc, hn, hr⟩ := registered_of_mem_roll he
  obtain ⟨hec, hen⟩ := of_decide_eq_true hcn
  exact ⟨before, e.owner, i, hc.trans hec, hn.trans hen, hr⟩

/-! ### What a lookup vouches for -/

/-- A context that is handed out for an interface was registered under an interface of that name and
root contract, which had the fingerprint that it declares, and declared one of that name and root
contract itself.  All three have one fingerprint if the run keeps to one for each name. -/
theorem run_lookup_origin (gated : Bool) (ops : List Op) (c : Category) (requester : PluginId)
    (i : Interface) (choice : Choice) (v : Context)
    (h : (((fresh gated).run ops).broker.lookupIn ((fresh gated).run ops).profiles c requester i
      choice).answer = .ok (some v)) :
    ∃ before p j, Registered gated ops before p v j ∧ j.category = i.category ∧ j.name = i.name ∧
      (∀ k, j.contract? = some k → j.fingerprint.accepts k.fingerprint = true) ∧
      ∃ d ∈ (((fresh gated).run before).profiles v).interfaces, ∃ e ∈ d.chain,
        e.category = i.category ∧ e.name = i.name ∧
        (Coherent (i :: ops.flatMap Op.interfaces) →
          j.fingerprint = i.fingerprint ∧ e.fingerprint = i.fingerprint) := by
  obtain ⟨rfl, hpick, -⟩ := Broker.lookupIn_some_iff.mp h
  obtain ⟨before, p, j, hc, hn, hr⟩ := registered_of_mem_shelf (Catalog.mem_shelf_of_pick hpick)
  obtain ⟨d, hd, hdj⟩ := hr.qualifies.implemented
  obtain ⟨e, he, hec, hen⟩ := Interface.refines_iff.mp hdj
  refine ⟨before, p, j, hr, hc, hn, hr.qualifies.checked, d, hd, e, he, hec.trans hc,
    hen.trans hn, ?_⟩
  intro coherent
  have mem_j : j ∈ ops.flatMap Op.interfaces :=
    List.mem_flatMap.mpr ⟨_, hr.mem, by simp [Op.interfaces]⟩
  have mem_e : e ∈ ops.flatMap Op.interfaces := by
    obtain ⟨profile, hm, hp⟩ := hr.reported hd
    exact List.mem_flatMap.mpr ⟨_, hm, List.mem_flatMap.mpr ⟨d, hp, he⟩⟩
  exact ⟨coherent j (.tail _ mem_j) i (.head _) hc hn,
    coherent e (.tail _ mem_e) i (.head _) (hec.trans hc) (hen.trans hn)⟩

/-! ### One name, two shapes -/

/-- A linker without methods, with the fingerprint that goes with that. -/
def bareLinker : Interface :=
  .extension "Linker" (.root .compiler)
    ⟨1, "E3B0C44298FC1C149AFBF4C8996FB92427AE41E4649B934CA495991B7852B855"⟩ []

/-- Another interface of that name, with one method. -/
def linker : Interface :=
  .extension "Linker" (.root .compiler)
    ⟨1, "BAD5691C4BC70D04F2E95F2603D770BA057E71E0B628FF21988348345D0492FA"⟩ [⟨"link", "()", []⟩]

/-- Plugin 1 registers a context that declares `d` as a bare linker. -/
def stocked (d : Interface) : List Op :=
  [.report ⟨0⟩ { interfaces := [d] }, .register ⟨1⟩ ⟨0⟩ bareLinker]

theorem bareLinker_accepts : ∀ k, bareLinker.contract? = some k →
    bareLinker.fingerprint.accepts k.fingerprint = true := by
  rintro k ⟨⟩
  decide +kernel

theorem linker_fingerprint_ne : linker.fingerprint ≠ bareLinker.fingerprint := by decide +kernel

theorem stocked_roll {d : Interface} (hd : d.refines bareLinker = true) :
    roll false (stocked d) = [⟨⟨1⟩, .compiler, "Linker", ⟨0⟩⟩] := by
  have compiler : d.category = .compiler := by
    obtain ⟨e, he, hc, -⟩ := Interface.refines_iff.mp hd
    exact (Interface.category_of_mem_chain he).symm.trans hc
  have qualifies : Broker.Qualifies [d] bareLinker := by
    refine ⟨⟨d, by simp, hd⟩, ?_, bareLinker_accepts⟩
    simp [categoriesOf, compiler]
    decide
  have accepted : (((fresh false).run [.report ⟨0⟩ { interfaces := [d] }]).step
      (.register ⟨1⟩ ⟨0⟩ bareLinker)).answer = .registration (.ok ()) :=
    congrArg Answer.registration (Broker.register_ok_iff.mpr ⟨qualifies, rfl⟩)
  calc roll false (stocked d)
    _ = (roll false [.report ⟨0⟩ { interfaces := [d] }]).note (.register ⟨1⟩ ⟨0⟩ bareLinker)
        (.registration (.ok ())) := by
      rw [← accepted]
      exact roll_concat false [_] _
    _ = [⟨⟨1⟩, .compiler, "Linker", ⟨0⟩⟩] := rfl

theorem stocked_hands_out {d i : Interface} (hd : d.refines bareLinker = true)
    (hc : i.category = .compiler) (hn : i.name = "Linker") :
    (((fresh false).run (stocked d)).broker.lookupIn ((fresh false).run (stocked d)).profiles
      .compiler ⟨2⟩ i (.nth 0)).answer = .ok (some ⟨0⟩) := by
  have shelf := (matches_roll false (stocked d)).catalog.shelf .compiler "Linker"
  rw [stocked_roll hd] at shelf
  refine Broker.lookupIn_some_iff.mpr ⟨hc, Catalog.pick_nth_iff.mpr ?_, ?_⟩
  · rw [hn, shelf]
    rfl
  · intro hg
    exact absurd hg (by simp [Broker.gated, run_compilerGated])

/-- A context that declares only an extension of the bare linker is handed out as one, and all that
goes by the name has one shape. -/
theorem stocked_origin :
    let tool : Interface := .extension "Assembler" bareLinker ⟨1, ""⟩ []
    (((fresh false).run (stocked tool)).broker.lookupIn ((fresh false).run (stocked tool)).profiles
      .compiler ⟨2⟩ bareLinker (.nth 0)).answer = .ok (some ⟨0⟩) ∧
    ∃ before p j, Registered false (stocked tool) before p ⟨0⟩ j ∧
      j.fingerprint = bareLinker.fingerprint ∧
      ∃ d ∈ (((fresh false).run before).profiles ⟨0⟩).interfaces, ∃ e ∈ d.chain,
        e.name = "Linker" ∧ e.fingerprint = bareLinker.fingerprint := by
  intro tool
  have found := stocked_hands_out (d := tool) (i := bareLinker) (by decide) rfl rfl
  have coherent : Coherent (bareLinker :: (stocked tool).flatMap Op.interfaces) := by
    intro a ha b hb _ hn
    have members : bareLinker :: (stocked tool).flatMap Op.interfaces =
      [bareLinker, tool, bareLinker, .root .compiler, bareLinker] := rfl
    simp only [members, List.mem_cons, List.not_mem_nil, or_false] at ha hb
    -- two of the interfaces that have one name are one interface
    rcases ha with rfl | rfl | rfl | rfl | rfl <;> rcases hb with rfl | rfl | rfl | rfl | rfl <;>
      first | exact absurd hn (by decide) | rfl
  obtain ⟨before, p, j, hr, -, -, -, d, hd, e, he, -, hn, hf⟩ :=
    run_lookup_origin false (stocked tool) .compiler ⟨2⟩ bareLinker (.nth 0) ⟨0⟩ found
  exact ⟨found, before, p, j, hr, (hf coherent).1, d, hd, e, he, hn, (hf coherent).2⟩

/-- Neither the interface under which a context was registered nor any that it declared need have
the shape that is asked for: a context that declares the one linker is registered as the other, and
handed out for both. -/
theorem shapes_not_compared :
    (¬ ∀ (gated : Bool) (ops : List Op) (c : Category) (requester : PluginId) (i : Interface)
      (choice : Choice) (v : Context), (((fresh gated).run ops).broker.lookupIn
        ((fresh gated).run ops).profiles c requester i choice).answer = .ok (some v) →
      ∃ before p j, Registered gated ops before p v j ∧ j.fingerprint = i.fingerprint) ∧
    ¬ ∀ (gated : Bool) (ops : List Op) (c : Category) (requester : PluginId) (i : Interface)
      (choice : Choice) (v : Context), (((fresh gated).run ops).broker.lookupIn
        ((fresh gated).run ops).profiles c requester i choice).answer = .ok (some v) →
      ∃ before p j, Registered gated ops before p v j ∧
        ∃ d ∈ (((fresh gated).run before).profiles v).interfaces, ∃ e ∈ d.chain,
          e.name = i.name ∧ e.fingerprint = i.fingerprint := by
  have drifts : linker.refines bareLinker = true := by decide
  constructor
  · intro h
    obtain ⟨before, p, j, hr, hj⟩ := h _ _ _ _ _ _ _ (stocked_hands_out (i := linker) drifts rfl rfl)
    have hm := hr.mem
    simp only [stocked, List.mem_cons, reduceCtorEq, Op.register.injEq, List.not_mem_nil, or_false,
      false_or] at hm
    rw [hm.2.2] at hj
    exact linker_fingerprint_ne hj.symm
  · intro h
    obtain ⟨before, p, j, hr, d, hd, e, he, hn, hf⟩ :=
      h _ _ _ _ _ _ _ (stocked_hands_out (i := bareLinker) drifts rfl rfl)
    obtain ⟨profile, hm, hp⟩ := hr.reported hd
    simp only [stocked, List.mem_cons, reduceCtorEq, Op.report.injEq, List.not_mem_nil, or_false]
      at hm
    obtain ⟨-, rfl⟩ := hm
    obtain rfl := List.mem_singleton.mp hp
    -- of what the context declared, only the linker itself has the name
    rcases List.mem_cons.mp he with rfl | he
    · exact linker_fingerprint_ne hf
    · obtain rfl := List.mem_singleton.mp he
      revert hn
      decide

end Session

end PluginBroker
