import Mathlib.Logic.Relation
import PluginBroker.Proofs.Subtyping

/-! Interfaces as they are built, one extension after the other on top of a root contract.  However long
the way to the root is and whatever names stand on it, an interface stands in for exactly those under
its own root whose name is its own or that of one of its ancestors. -/

namespace PluginBroker

/-- What a further interface declares on top of its parent. -/
structure Extension where
  name : String
  contract : Contract
  methods : List Method

namespace Interface

variable {i e : Interface}

/-- The interface with further ones on top of it, each extending the one before it. -/
def extend (i : Interface) (steps : List Extension) : Interface :=
  steps.foldl (fun parent s => .extension s.name parent s.contract s.methods) i

theorem extend_append (i : Interface) (steps more : List Extension) :
    i.extend (steps ++ more) = (i.extend steps).extend more :=
  List.foldl_append

/-- Every interface is built on top of a root contract. -/
theorem exists_extend (i : Interface) : ∃ c steps, (root c).extend steps = i := by
  induction i with
  | root c => exact ⟨c, [], rfl⟩
  | extension n p k ms ih =>
    obtain ⟨c, steps, rfl⟩ := ih
    exact ⟨c, steps ++ [⟨n, k, ms⟩], extend_append _ _ _⟩

theorem mem_chain_extend (i : Interface) (steps : List Extension) : i ∈ (i.extend steps).chain := by
  induction steps generalizing i with
  | nil => exact mem_chain_self i
  | cons s steps ih =>
    have next : extension s.name i s.contract s.methods ∈ (i.extend (s :: steps)).chain := ih _
    exact chain_subset next (List.mem_cons_of_mem _ (mem_chain_self i))

theorem category_extend (i : Interface) (steps : List Extension) :
    (i.extend steps).category = i.category :=
  (category_of_mem_chain (mem_chain_extend i steps)).symm

/-! ### Ancestors -/

/-- The second interface is the parent of the first one, or the parent's parent, and so on. -/
def HasAncestor : Interface → Interface → Prop :=
  Relation.TransGen fun i parent => i.parent? = some parent

theorem hasAncestor_extension_iff {n : String} {p : Interface} {k : Contract} {ms : List Method} :
    (extension n p k ms).HasAncestor e ↔ e = p ∨ p.HasAncestor e := by
  rw [HasAncestor, Relation.TransGen.head'_iff]
  simp only [parent?, Option.some.injEq, exists_eq_left', Relation.reflTransGen_iff_eq_or_transGen]

theorem not_hasAncestor_root (c : Category) : ¬ (root c).HasAncestor e := by
  intro h
  obtain ⟨p, hp, -⟩ := Relation.TransGen.head'_iff.mp h
  cases hp

theorem mem_chain_iff : e ∈ i.chain ↔ e = i ∨ i.HasAncestor e := by
  induction i with
  | root c => simp [chain, not_hasAncestor_root]
  | extension n p k ms ih => rw [chain, List.mem_cons, ih, hasAncestor_extension_iff]

/-- What an interface that is built on the root contract of a category stands in for. -/
structure StandsOn (i : Interface) (c : Category) : Prop where
  category : i.category = c
  refines_iff : ∀ d others, i.refines ((root d).extend others) = true ↔
    d = c ∧ (((root d).extend others).name = i.name ∨
      ∃ e, i.HasAncestor e ∧ e.name = ((root d).extend others).name)
  ancestors : ∀ e, i.HasAncestor e → i.refines e = true
  root : i.refines (.root c) = true
  apart : ∀ d others, d ≠ c → i.refines ((Interface.root d).extend others) = false
  further : ∀ more other, i.refines other = true → (i.extend more).refines other = true

theorem standsOn_of_category {c : Category} (h : i.category = c) (hr : root c ∈ i.chain) :
    i.StandsOn c := by
  have refines (d : Category) (others : List Extension) :
      i.refines ((root d).extend others) = true ↔
        d = c ∧ (((root d).extend others).name = i.name ∨
          ∃ e, i.HasAncestor e ∧ e.name = ((root d).extend others).name) := by
    rw [Interface.refines, Bool.and_eq_true, beq_iff_eq, bears_iff, h, category_extend]
    simp only [mem_chain_iff, or_and_right, exists_or, exists_eq_left]
    exact and_congr eq_comm (or_congr_left eq_comm)
  have stem {e : Interface} (he : e ∈ i.chain) : i.refines e = true :=
    refines_of_mem_chain he (refines_self e)
  constructor
  case category => exact h
  case refines_iff => exact refines
  case ancestors => exact fun e he => stem (mem_chain_iff.mpr (.inr he))
  case root => exact stem hr
  case apart =>
    intro d others other
    rw [Bool.eq_false_iff, ne_eq, refines]
    exact fun both => other both.1
  case further => exact fun more _ => refines_of_mem_chain (mem_chain_extend i more)

/-- Every interface is built on a root contract by steps of extension, and however many these are, it
belongs to that contract's category and stands in for its ancestors and their namesakes under the same
root, and for nothing else. -/
theorem extend_standsOn :
    (∀ (c : Category) (steps : List Extension), ((root c).extend steps).StandsOn c) ∧
    ∀ i : Interface, ∃ c steps, (root c).extend steps = i :=
  ⟨fun _ steps => standsOn_of_category (category_extend _ steps) (mem_chain_extend _ steps),
    exists_extend⟩

-- The name of another category's root contract, and a name that stands on the way twice.
example :
    let cpu : Interface := (root .memory).extend [⟨"CpuContext", ⟨1, ""⟩, []⟩]
    let twice := cpu.extend [⟨"Paged", ⟨1, ""⟩, []⟩, ⟨"CpuContext", ⟨2, ""⟩, []⟩]
    twice.refines (root .cpu) = false ∧ twice.refines cpu = true ∧ cpu.refines twice = true := by
  decide

end Interface

end PluginBroker
