import Mathlib.Data.List.Forall2
import PluginBroker.Proofs.Registration

/-! The order in which an interface declares its methods.  The canonical text has them in the order of
names, and a stable sort has one result for all orders that agree on the methods of each name; so an
interface may declare its methods in any of these orders and is verified and registered alike. -/

namespace PluginBroker

/-- The same methods, with those of one name in the same order. -/
structure Reordered (as bs : List Method) : Prop where
  perm : as.Perm bs
  order : ∀ name, as.filter (·.name = name) = bs.filter (·.name = name)

theorem name_of_mem_filter {ms : List Method} {name : String} {m : Method}
    (h : m ∈ ms.filter (·.name = name)) : m.name = name :=
  of_decide_eq_true (List.mem_filter.mp h).2

/-- Where no name occurs twice, any order will do. -/
theorem Reordered.of_nodup {as bs : List Method} (h : as.Perm bs)
    (distinct : (as.map (·.name)).Nodup) : Reordered as bs := by
  refine ⟨h, fun name => ?_⟩
  have differ (ms : List Method) (hd : (ms.map (·.name)).Nodup) :
      (ms.filter (·.name = name)).Pairwise fun a b => a.name ≠ b.name :=
    (List.pairwise_map.mp hd).filter _
  have distinct' : (bs.map (·.name)).Nodup := (h.map _).nodup_iff.mp distinct
  refine List.Perm.eq_of_pairwise ?_ (differ as distinct) (differ bs distinct') (h.filter _)
  -- the filter lets one name through, so it has no two methods to compare
  intro a b ha hb hne
  exact absurd ((name_of_mem_filter ha).trans (name_of_mem_filter hb).symm) hne

/-! ### The stable sort -/

theorem mem_iff_of_filter_eq {as bs : List Method}
    (h : ∀ name, as.filter (·.name = name) = bs.filter (·.name = name)) {m : Method} :
    m ∈ as ↔ m ∈ bs := by
  have same := congrArg (m ∈ ·) (h m.name)
  simpa using same

/-- Methods in the order of names are settled by those of each name. -/
theorem eq_of_ascending {as bs : List Method} (ha : as.Pairwise fun a b => a.name ≤ b.name)
    (hb : bs.Pairwise fun a b => a.name ≤ b.name)
    (h : ∀ name, as.filter (·.name = name) = bs.filter (·.name = name)) : as = bs := by
  induction as generalizing bs with
  | nil =>
    refine (List.eq_nil_iff_forall_not_mem.mpr fun m hm => ?_).symm
    exact List.not_mem_nil ((mem_iff_of_filter_eq h).mpr hm)
  | cons a as ih =>
    cases bs with
    | nil => exact absurd ((mem_iff_of_filter_eq h).mp (.head _)) List.not_mem_nil
    | cons b bs =>
      obtain ⟨leA, restA⟩ := List.pairwise_cons.mp ha
      obtain ⟨leB, restB⟩ := List.pairwise_cons.mp hb
      have leA : ∀ m ∈ a :: as, a.name ≤ m.name := List.forall_mem_cons.mpr ⟨String.le_refl _, leA⟩
      have leB : ∀ m ∈ b :: bs, b.name ≤ m.name := List.forall_mem_cons.mpr ⟨String.le_refl _, leB⟩
      -- either first name is among the names of the other list, so neither comes before the other
      have name : a.name = b.name := by
        refine String.le_antisymm ?_ ?_
        · exact leA b ((mem_iff_of_filter_eq h).mpr (.head _))
        · exact leB a ((mem_iff_of_filter_eq h).mp (.head _))
      have first := h a.name
      simp only [List.filter_cons, name, decide_true, if_true] at first
      obtain ⟨rfl, -⟩ := List.cons.inj first
      refine congrArg (a :: ·) (ih restA restB fun n => ?_)
      have rest := h n
      rw [List.filter_cons, List.filter_cons] at rest
      split at rest
      · exact (List.cons.inj rest).2
      · exact rest

theorem name_le_trans (a b c : Method) (hab : decide (a.name ≤ b.name) = true)
    (hbc : decide (b.name ≤ c.name) = true) : decide (a.name ≤ c.name) = true :=
  decide_eq_true (String.le_trans (of_decide_eq_true hab) (of_decide_eq_true hbc))

theorem name_le_total (a b : Method) :
    (decide (a.name ≤ b.name) || decide (b.name ≤ a.name)) = true := by
  simpa using String.le_total a.name b.name

theorem sortedByName_ascending (as : List Method) :
    (sortedByName as).Pairwise fun a b => a.name ≤ b.name :=
  (List.pairwise_mergeSort name_le_trans name_le_total as).imp of_decide_eq_true

/-- The sort is stable: it leaves the methods of one name as they are. -/
theorem filter_sortedByName (as : List Method) (name : String) :
    (sortedByName as).filter (·.name = name) = as.filter (·.name = name) := by
  have alike : (as.filter (·.name = name)).Pairwise
      fun a b => decide (a.name ≤ b.name) = true := by
    refine List.pairwise_of_forall_mem_list fun a ha b hb => ?_
    rw [name_of_mem_filter ha, name_of_mem_filter hb]
    exact decide_eq_true (String.le_refl name)
  have kept : (as.filter (·.name = name)).Sublist (sortedByName as) :=
    List.sublist_mergeSort name_le_trans name_le_total alike List.filter_sublist
  have inside := kept.filter (·.name = name)
  rw [List.filter_filter] at inside
  simp only [Bool.and_self] at inside
  -- a part of equal length is the whole
  exact (inside.eq_of_length ((sortedByName_perm as).filter _).length_eq.symm).symm

theorem Reordered.sortedByName_eq {as bs : List Method} (h : Reordered as bs) :
    sortedByName as = sortedByName bs := by
  refine eq_of_ascending (sortedByName_ascending as) (sortedByName_ascending bs) fun name => ?_
  rw [filter_sortedByName, filter_sortedByName, h.order]

theorem Reordered.canonicalText_eq {as bs : List Method} (h : Reordered as bs) :
    canonicalText as = canonicalText bs := by
  rw [canonicalText, canonicalText, h.sortedByName_eq]

theorem Reordered.ofMethods_eq {as bs : List Method} (h : Reordered as bs) :
    Fingerprint.ofMethods as = Fingerprint.ofMethods bs := by
  rw [Fingerprint.ofMethods, Fingerprint.ofMethods, h.canonicalText_eq]

/-! ### Interfaces -/

/-- The same interface, but for the order of methods in it and in those that it descends from. -/
inductive Interface.Reorders : Interface → Interface → Prop
  | root (c : Category) : Reorders (.root c) (.root c)
  | extension {p q : Interface} {as bs : List Method} (name : String) (contract : Contract)
    (parent : Reorders p q) (methods : Reordered as bs) :
    Reorders (.extension name p contract as) (.extension name q contract bs)

/-- The same id, and the same interfaces but for the order of methods. -/
structure Profile.Reorders (P Q : Profile) : Prop where
  interfaces : List.Forall₂ Interface.Reorders P.interfaces Q.interfaces
  id? : P.id? = Q.id?

namespace Interface

variable {d e i j : Interface}

theorem Reorders.refl (i : Interface) : i.Reorders i := by
  induction i with
  | root c => exact .root c
  | extension name p k ms ih => exact .extension name k ih ⟨.refl _, fun _ => rfl⟩

theorem Reorders.category_eq (h : i.Reorders j) : i.category = j.category := by
  induction h with
  | root c => rfl
  | extension name contract _ _ ih => exact ih

theorem Reorders.name_eq (h : i.Reorders j) : i.name = j.name := by cases h <;> rfl

theorem Reorders.bears_eq (h : i.Reorders j) (n : String) : i.bears n = j.bears n := by
  induction h with
  | root c => rfl
  | extension name contract _ _ ih => rw [bears, bears, ih]

theorem Reorders.refines_eq (hd : d.Reorders e) (hi : i.Reorders j) :
    d.refines i = e.refines j := by
  rw [refines, refines, hd.category_eq, hd.bears_eq, hi.category_eq, hi.name_eq]

theorem Reorders.contract?_eq (h : i.Reorders j) : i.contract? = j.contract? := by cases h <;> rfl

theorem Reorders.fingerprint_eq (h : i.Reorders j) : i.fingerprint = j.fingerprint := by
  cases h with
  | root c => rfl
  | extension name contract parent methods => exact methods.ofMethods_eq

theorem Reorders.declared_eq (h : i.Reorders j) : i.declared = j.declared := by
  rw [declared, declared, h.contract?_eq, h.fingerprint_eq]

theorem Reorders.agrees_iff (h : i.Reorders j) : i.Agrees ↔ j.Agrees := by
  rw [Agrees, Agrees, h.fingerprint_eq, h.declared_eq]

theorem Reorders.check_eq (h : i.Reorders j) : i.check = j.check := by
  rw [check, check, h.fingerprint_eq, h.declared_eq]
  exact if_congr h.agrees_iff rfl rfl

theorem any_congr {ds es : List Interface} (h : List.Forall₂ Reorders ds es)
    {f g : Interface → Bool} (hfg : ∀ d e, d.Reorders e → f d = g e) : ds.any f = es.any g := by
  induction h with
  | nil => rfl
  | cons hde _ ih => rw [List.any_cons, List.any_cons, hfg _ _ hde, ih]

end Interface

/-! ### Registration -/

namespace Broker

variable {b : Broker} {i j : Interface} {P Q : Profiles} {v : Context}

theorem admission_reordered {ds es : List Interface}
    (hds : List.Forall₂ Interface.Reorders ds es) (hi : i.Reorders j) :
    b.admission ds v i = b.admission es v j := by
  have implemented : (ds.any fun d => d.refines i) = es.any fun e => e.refines j :=
    Interface.any_congr hds fun d e h => h.refines_eq hi
  have categories : categoriesOf ds = categoriesOf es := by
    refine List.filter_congr fun c _ => ?_
    exact Interface.any_congr hds fun d e h => by rw [h.category_eq]
  unfold admission
  rw [implemented, categories, hi.category_eq, hi.name_eq, hi.check_eq]

theorem register_reordered (hv : (P v).Reorders (Q v)) (hi : i.Reorders j) (p : PluginId) :
    b.register P p v i = b.register Q p v j := by
  unfold Broker.register
  rw [admission_reordered hv.interfaces hi, hi.name_eq, hv.id?]

end Broker

/-- Any two orders of methods that agree on those of each name have one canonical text and one
fingerprint, so an extension is verified and registered alike in both, also by contexts that declare it
in either of them.  With distinct names, all orders do. -/
theorem declaration_order_immaterial :
    (∀ as bs : List Method, as.Perm bs → (as.map (·.name)).Nodup → Reordered as bs) ∧
    ∀ as bs : List Method, Reordered as bs →
      canonicalText as = canonicalText bs ∧
      Fingerprint.ofMethods as = Fingerprint.ofMethods bs ∧
      ∀ (name : String) (parent : Interface) (contract : Contract),
        let i : Interface := .extension name parent contract as
        let j : Interface := .extension name parent contract bs
        i.check = j.check ∧ ∀ (b : Broker) (P Q : Profiles) (p : PluginId) (v : Context),
          (P v).Reorders (Q v) → b.register P p v i = b.register Q p v j := by
  refine ⟨fun as bs => .of_nodup, fun as bs h => ⟨h.canonicalText_eq, h.ofMethods_eq, ?_⟩⟩
  intro name parent contract i j
  have same : i.Reorders j := .extension name contract (.refl parent) h
  exact ⟨same.check_eq, fun b P Q p v hv => Broker.register_reordered hv same p⟩

/-- Two overloads of `read` trade places with the other method, but not with each other; a context that
declares the one order is registered under the other. -/
theorem overloads_immaterial :
    let write : Method := ⟨"write", "()", ["u8"]⟩
    let narrow : Method := ⟨"read", "u8", []⟩
    let wide : Method := ⟨"read", "u16", ["u8"]⟩
    let declared := [write, narrow, wide]
    let requested := [narrow, wide, write]
    let bank (methods : List Method) (fingerprint : String) : Interface :=
      .extension "Bank" (.root .memory) ⟨1, fingerprint⟩ methods
    let text := (Fingerprint.ofMethods declared).text
    let profiles : Profiles := fun _ => { interfaces := [bank declared text] }
    Reordered [narrow, write] [write, narrow] ∧ Reordered declared requested ∧
    canonicalText declared = canonicalText requested ∧
    (bank declared text).check = (bank requested text).check ∧
    (Broker.fresh false).register profiles ⟨1⟩ ⟨0⟩ (bank declared text) =
      (Broker.fresh false).register profiles ⟨1⟩ ⟨0⟩ (bank requested text) ∧
    ((Broker.fresh false).register profiles ⟨1⟩ ⟨0⟩ (bank requested text)).answer = .ok () := by
  intro write narrow wide declared requested bank text profiles
  obtain ⟨distinct, alike⟩ := declaration_order_immaterial
  have swapped : Reordered [narrow, write] [write, narrow] :=
    distinct _ _ (by decide) (by decide)
  have overloads : Reordered declared requested := by
    refine ⟨by decide, fun name => ?_⟩
    by_cases hr : "read" = name
    · subst hr
      decide
    · by_cases hw : "write" = name <;>
        simp [declared, requested, write, narrow, wide, hr, hw]
  obtain ⟨texts, -, extensions⟩ := alike declared requested overloads
  obtain ⟨checks, registers⟩ := extensions "Bank" (.root .memory) ⟨1, text⟩
  have profile : (profiles ⟨0⟩).Reorders (profiles ⟨0⟩) := ⟨.cons (.refl _) .nil, rfl⟩
  have same := registers (.fresh false) profiles profiles ⟨1⟩ ⟨0⟩ profile
  have accepted : ((Broker.fresh false).register profiles ⟨1⟩ ⟨0⟩ (bank declared text)).answer =
      .ok () := by
    refine Broker.register_ok_iff.mpr ⟨⟨⟨_, .head _, by decide⟩, by decide, ?_⟩, rfl⟩
    rintro c ⟨⟩
    exact beq_self_eq_true _
  exact ⟨swapped, overloads, texts, checks, same, same ▸ accepted⟩

end PluginBroker
