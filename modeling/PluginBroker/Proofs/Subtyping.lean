import PluginBroker.Proofs.Decision

/-! What stands in for what.  An interface stands in for itself.  It stands in for another one by bearing its
name, not by extending it, so it need not stand in for what the other one extends: that is so exactly
if it bears the names of all those as well, as it does where it extends the other interface itself or
where one name always goes on to one name. -/

namespace PluginBroker

namespace Interface

variable {a b c d e : Interface}

/-! ### The way to the root -/

theorem mem_chain_self (i : Interface) : i ∈ i.chain := by cases i <;> simp [chain]

/-- The way to the root leads through all that lies on the way from an interface on it. -/
theorem chain_subset (h : e ∈ a.chain) : e.chain ⊆ a.chain := by
  induction a with
  | root c =>
    obtain rfl := List.mem_singleton.mp h
    exact List.Subset.refl _
  | extension m p k ms ih =>
    rcases List.mem_cons.mp h with rfl | h
    · exact List.Subset.refl _
    · exact List.subset_cons_of_subset _ (ih h)

theorem parent_mem_chain (h : d.parent? = some e) : e ∈ d.chain := by
  cases d with
  | root c => cases h
  | extension m p k ms =>
    obtain rfl := Option.some.inj h
    exact List.mem_cons_of_mem _ (mem_chain_self _)

theorem refines_self (i : Interface) : i.refines i = true :=
  refines_iff.mpr ⟨i, mem_chain_self i, rfl, rfl⟩

/-- An interface stands in for all that those on its way to the root stand in for. -/
theorem refines_of_mem_chain (h : e ∈ a.chain) (hc : e.refines c = true) : a.refines c = true := by
  obtain ⟨d, hd, hdc⟩ := refines_iff.mp hc
  exact refines_iff.mpr ⟨d, chain_subset h hd, hdc⟩

/-! ### Names borne in common -/

/-- The first interface bears every name that the second one bears. -/
def Covers (a b : Interface) : Prop := ∀ n, b.bears n = true → a.bears n = true

/-- Wherever the ways from two interfaces to their roots have a name in common, what comes next on them
has one name too, or both end there. -/
def GoesAlong (a b : Interface) : Prop :=
  ∀ d ∈ a.chain, ∀ e ∈ b.chain, d.name = e.name → d.parent?.map name = e.parent?.map name

theorem covers_iff (hab : a.refines b = true) :
    (∀ c, b.refines c = true → a.refines c = true) ↔ a.Covers b := by
  rw [refines, Bool.and_eq_true, beq_iff_eq] at hab
  constructor
  · intro trans n hn
    obtain ⟨e, he, rfl⟩ := bears_iff.mp hn
    have hae := trans e (refines_iff.mpr ⟨e, he, rfl, rfl⟩)
    rw [refines, Bool.and_eq_true] at hae
    exact hae.2
  · intro covers c hbc
    rw [refines, Bool.and_eq_true, beq_iff_eq] at hbc ⊢
    exact ⟨hab.1.trans hbc.1, covers _ hbc.2⟩

theorem covers_of_mem_chain (h : b ∈ a.chain) : a.Covers b := by
  intro n hn
  obtain ⟨e, he, rfl⟩ := bears_iff.mp hn
  exact bears_iff.mpr ⟨e, chain_subset h he, rfl⟩

theorem covers_of_goesAlong (h : a.GoesAlong b) (hb : a.bears b.name = true) : a.Covers b := by
  obtain ⟨d, hd, hn⟩ := bears_iff.mp hb
  induction b generalizing d with
  | root c =>
    intro n h
    obtain rfl := beq_iff_eq.mp h
    exact hb
  | extension m p k ms ih =>
    have next : d.parent?.map name = some p.name := h d hd _ (mem_chain_self _) hn
    obtain ⟨q, hq, hqp⟩ := Option.map_eq_some_iff.mp next
    have along : a.GoesAlong p := fun d hd e he => h d hd e (List.mem_cons_of_mem _ he)
    have hqa : q ∈ a.chain := chain_subset hd (parent_mem_chain hq)
    have covers : a.Covers p := ih along (bears_iff.mpr ⟨q, hqa, hqp⟩) q hqa hqp
    intro n h
    rcases Bool.or_eq_true_iff.mp h with h | h
    · obtain rfl := beq_iff_eq.mp h
      exact hb
    · exact covers n h

/-! ### Registering under what is extended -/

/-- A context that declares an interface can be registered, as far as its interfaces go, under all that
this one stands in for. -/
theorem register_ne_unimplemented {broker : Broker} {profiles : Profiles} {p : PluginId} {v : Context}
    (declared : a ∈ (profiles v).interfaces) (hac : a.refines c = true) (n : String) :
    (broker.register profiles p v c).answer ≠ .error (.unimplemented n) := by
  intro h
  cases Broker.register_answer_iff.mp h with
  | unimplemented missing =>
    refine missing (implements_iff.mp ?_)
    exact List.any_eq_true.mpr ⟨a, declared, hac⟩

/-- An interface stands in for itself, and it stands in for all that another one stands in for exactly if,
besides standing in for that one, it bears all its names.  It does so if it extends the other one
itself, and also if one name goes on to one name on both ways to the root. -/
theorem refines_preorder (a b : Interface) :
    a.refines a = true ∧
    (a.refines b = true → ((∀ c, b.refines c = true → a.refines c = true) ↔ a.Covers b)) ∧
    (b ∈ a.chain → a.refines b = true ∧ a.Covers b) ∧
    (a.refines b = true → a.GoesAlong b → a.Covers b) ∧
    ∀ (broker : Broker) (profiles : Profiles) (p : PluginId) (v : Context),
      a ∈ (profiles v).interfaces → a.refines b = true → a.Covers b → ∀ c ∈ b.chain, ∀ n,
        (broker.register profiles p v c).answer ≠ .error (.unimplemented n) := by
  refine ⟨refines_self a, covers_iff, ?_, ?_, ?_⟩
  · exact fun h => ⟨refines_of_mem_chain h (refines_self b), covers_of_mem_chain h⟩
  · intro hab along
    rw [refines, Bool.and_eq_true] at hab
    exact covers_of_goesAlong along hab.2
  · intro broker profiles p v declared hab covers c hc n
    have hbc : b.refines c = true := refines_of_mem_chain hc (refines_self c)
    exact register_ne_unimplemented declared ((covers_iff hab).mpr covers c hbc) n

/-- Banked memory that extends memory alone stands in, by its name, for banked memory that extends paged
memory, but not for paged memory; and a context that declares the one can be registered as the other,
but not as paged memory. -/
theorem namesake_extends_less :
    (¬ ∀ a b c : Interface, a.refines b = true → b.refines c = true → a.refines c = true) ∧
    ¬ ∀ (broker : Broker) (profiles : Profiles) (p : PluginId) (v : Context) (b : Interface),
      (∀ n, (broker.register profiles p v b).answer ≠ .error (.unimplemented n)) →
        ∀ c ∈ b.chain, ∀ n,
          (broker.register profiles p v c).answer ≠ .error (.unimplemented n) := by
  let paged : Interface := .extension "Paged" (.root .memory) ⟨1, ""⟩ []
  let banked (parent : Interface) : Interface := .extension "Banked" parent ⟨1, ""⟩ []
  have namesake : (banked (.root .memory)).refines (banked paged) = true := by decide
  have extends' : (banked paged).refines paged = true := by decide
  have short : ¬ (banked (.root .memory)).refines paged = true := by decide
  constructor
  · exact fun trans => short (trans _ _ _ namesake extends')
  · intro passes
    let profiles : Profiles := fun _ => { interfaces := [banked (.root .memory)] }
    have declared : banked (.root .memory) ∈ (profiles ⟨0⟩).interfaces := List.mem_singleton_self _
    have missing : ¬ Implements (profiles ⟨0⟩).interfaces paged := by
      rw [← implements_iff]
      decide
    refine passes (.fresh false) profiles ⟨1⟩ ⟨0⟩ (banked paged)
      (register_ne_unimplemented declared namesake) paged ?_ paged.name ?_
    · exact parent_mem_chain rfl
    · exact Broker.register_answer_iff.mpr (.unimplemented missing)

end Interface

end PluginBroker
