import Mathlib.Data.List.Sublists
import PluginBroker.Proofs.Drift
import PluginBroker.Proofs.Origin

/-! What registering comes to.  Each refusal has one reason, given that no earlier one holds, and a
refused registration changes nothing; an accepted one puts the context at the end of one shelf and of
one owned list and changes nothing else. -/

namespace PluginBroker

variable {declared : List Interface} {i : Interface} {c : Category}

/-! ### The declared interfaces -/

/-- Some declared interface has the category of `i` and, on its way to the root, the name of `i`. -/
def Implements (declared : List Interface) (i : Interface) : Prop :=
  ∃ d ∈ declared, d.category = i.category ∧ ∃ e ∈ d.chain, e.name = i.name

/-- Some declared interface descends from the root contract of the category. -/
def Reaches (declared : List Interface) (c : Category) : Prop := ∃ d ∈ declared, d.category = c

/-- The declared interfaces do not all descend from one root contract. -/
def Mixed (declared : List Interface) : Prop := ∃ c d, Reaches declared c ∧ Reaches declared d ∧ c ≠ d

theorem implements_iff :
    (declared.any fun d => d.refines i) = true ↔ Implements declared i := by
  rw [List.any_eq_true]
  refine exists_congr fun d => and_congr_right fun _ => ?_
  rw [Interface.refines, Bool.and_eq_true, beq_iff_eq, Interface.bears_iff]

theorem Implements.reaches (h : Implements declared i) : Reaches declared i.category := by
  obtain ⟨d, hd, hc, -⟩ := h
  exact ⟨d, hd, hc⟩

theorem mem_categoriesOf : c ∈ categoriesOf declared ↔ Reaches declared c := by
  simp [categoriesOf, Category.mem_all, Reaches]

theorem categoriesOf_sublist : (categoriesOf declared).Sublist Category.all := List.filter_sublist

/-- A list in the order of all categories is settled by its members. -/
theorem eq_filter_of_sublist : ∀ {cs : List Category}, cs.Sublist Category.all →
    cs = Category.all.filter (· ∈ cs) := by
  intro cs h
  have : ∀ cs ∈ Category.all.sublists, cs = Category.all.filter (· ∈ cs) := by decide
  exact this cs (List.mem_sublists.mpr h)

theorem eq_categoriesOf {cs : List Category} (order : cs.Sublist Category.all)
    (members : ∀ c, c ∈ cs ↔ Reaches declared c) : cs = categoriesOf declared := by
  have sublist : (categoriesOf declared).Sublist Category.all := categoriesOf_sublist
  rw [eq_filter_of_sublist order, eq_filter_of_sublist sublist]
  refine List.filter_congr fun c _ => ?_
  rw [decide_eq_decide, members, mem_categoriesOf]

theorem categoriesOf_eq_singleton_iff :
    categoriesOf declared = [c] ↔ Reaches declared c ∧ ¬ Mixed declared := by
  constructor
  · intro h
    have only (d : Category) (hd : Reaches declared d) : d = c := by
      rw [← mem_categoriesOf, h] at hd
      exact List.mem_singleton.mp hd
    refine ⟨mem_categoriesOf.mp (h ▸ List.mem_singleton_self c), ?_⟩
    rintro ⟨d, e, hd, he, hne⟩
    exact hne ((only d hd).trans (only e he).symm)
  · rintro ⟨hc, hm⟩
    refine (eq_categoriesOf ?_ fun d => ?_).symm
    · exact List.singleton_sublist.mpr (Category.mem_all c)
    · rw [List.mem_singleton]
      constructor
      · rintro rfl
        exact hc
      · intro hd
        by_contra hne
        exact hm ⟨d, c, hd, hc, hne⟩

theorem Mixed.length (h : Mixed declared) : 2 ≤ (categoriesOf declared).length := by
  obtain ⟨c, d, hc, hd, hne⟩ := h
  rw [← mem_categoriesOf] at hc hd
  have pair : [c, d].Subperm (categoriesOf declared) :=
    (List.nodup_cons.mpr ⟨by simpa using hne, by simp⟩).subperm (by simp [hc, hd])
  exact pair.length_le

namespace Broker

variable {b : Broker} {profiles : Profiles} {p : PluginId} {v : Context}

/-! ### The answer -/

/-- What the answer to a registration is to be, refusal before refusal. -/
inductive Ruling (b : Broker) (declared : List Interface) (v : Context) (i : Interface) :
    Except Refusal Unit → Prop
  | unimplemented (missing : ¬ Implements declared i) :
      Ruling b declared v i (.error (.unimplemented i.name))
  | ambiguous {cs : List Category} (implemented : Implements declared i) (mixed : Mixed declared)
      (order : cs.Sublist Category.all) (members : ∀ c, c ∈ cs ↔ Reaches declared c) :
      Ruling b declared v i (.error (.ambiguous cs))
  | drifted {d : Drift} (implemented : Implements declared i) (single : ¬ Mixed declared)
      (drifts : i.DriftsBy d) : Ruling b declared v i (.error (.drifted i.name d))
  | taken (implemented : Implements declared i) (single : ¬ Mixed declared)
      (agrees : ∀ d, ¬ i.DriftsBy d) (owned : b.ownerOf? v ≠ none) :
      Ruling b declared v i (.error .taken)
  | accepted (implemented : Implements declared i) (single : ¬ Mixed declared)
      (agrees : ∀ d, ¬ i.DriftsBy d) (free : b.ownerOf? v = none) : Ruling b declared v i (.ok ())

theorem exists_ruling (b : Broker) (declared : List Interface) (v : Context) (i : Interface) :
    ∃ answer, Ruling b declared v i answer := by
  by_cases implemented : Implements declared i
  · by_cases mixed : Mixed declared
    · exact ⟨_, .ambiguous implemented mixed categoriesOf_sublist fun _ => mem_categoriesOf⟩
    · by_cases drifts : ∃ d, i.DriftsBy d
      · obtain ⟨d, hd⟩ := drifts
        exact ⟨_, .drifted implemented mixed hd⟩
      · have agrees := not_exists.mp drifts
        by_cases free : b.ownerOf? v = none
        · exact ⟨_, .accepted implemented mixed agrees free⟩
        · exact ⟨_, .taken implemented mixed agrees free⟩
  · exact ⟨_, .unimplemented implemented⟩

theorem check_ok_of_agrees (h : ∀ d, ¬ i.DriftsBy d) : ∃ f, i.check = .ok f := by
  cases hc : i.check with
  | ok f => exact ⟨f, rfl⟩
  | error d => exact absurd (Interface.check_error_iff.mp hc) (h d)

theorem isOwned_iff : b.ownership.isOwned v = true ↔ b.ownerOf? v ≠ none := by
  rw [Ownership.isOwned, Option.isSome_iff_ne_none]
  rfl

/-- Where one category is declared, it is the interface's own, and only the later checks remain. -/
theorem admission_of_single (implemented : Implements declared i) (single : ¬ Mixed declared) :
    b.admission declared v i = match i.check with
      | .ok _ => if b.ownership.isOwned v then .error .taken else .ok i.category
      | .error d => .error (.drifted i.name d) := by
  rw [admission, if_pos (implements_iff.mpr implemented),
    categoriesOf_eq_singleton_iff.mpr ⟨implemented.reaches, single⟩]
  exact if_pos rfl

theorem admission_of_ruling {answer : Except Refusal Unit} (h : Ruling b declared v i answer) :
    (b.admission declared v i).map (fun _ => ()) = answer := by
  cases h with
  | unimplemented missing =>
    rw [admission, if_neg (mt implements_iff.mp missing)]
    rfl
  | ambiguous implemented mixed order members =>
    rw [eq_categoriesOf order members, admission, if_pos (implements_iff.mpr implemented)]
    split
    · next c heq => exact absurd mixed (categoriesOf_eq_singleton_iff.mp heq).2
    · rfl
  | drifted implemented single drifts =>
    rw [admission_of_single implemented single, Interface.check_error_iff.mpr drifts]
    rfl
  | taken implemented single agrees owned =>
    obtain ⟨f, hf⟩ := check_ok_of_agrees agrees
    simp only [admission_of_single implemented single, hf, isOwned_iff.mpr owned]
    rfl
  | accepted implemented single agrees free =>
    obtain ⟨f, hf⟩ := check_ok_of_agrees agrees
    have unowned : ¬ b.ownership.isOwned v = true := fun ho => isOwned_iff.mp ho free
    simp only [admission_of_single implemented single, hf, unowned]
    rfl

theorem register_answer_iff {answer : Except Refusal Unit} :
    (b.register profiles p v i).answer = answer ↔ Ruling b (profiles v).interfaces v i answer := by
  rw [register_answer]
  constructor
  · rintro rfl
    obtain ⟨answer, h⟩ := exists_ruling b (profiles v).interfaces v i
    rwa [admission_of_ruling h]
  · exact admission_of_ruling

/-! ### What is left behind -/

/-- The context stands last on the shelf of the interface and last among what `p` owns, `p` is its
owner, and all else is as before. -/
structure Entered (b after : Broker) (p : PluginId) (v : Context) (i : Interface) : Prop where
  shelf : ∀ c name, after.catalog.shelf c name =
    b.catalog.shelf c name ++ if c = i.category ∧ name = i.name then [v] else []
  contextsOf : ∀ q, after.contextsOf q = b.contextsOf q ++ if q = p then [v] else []
  ownerOf? : ∀ w, after.ownerOf? w = if w = v then some p else b.ownerOf? w
  trust : after.trust = b.trust
  compilerGated : after.compilerGated = b.compilerGated

theorem shelf_put (k : Catalog) (c d : Category) (name other : String) (v : Context) :
    (k.put c name v).shelf d other =
      k.shelf d other ++ if d = c ∧ other = name then [v] else [] := by
  unfold Catalog.put Catalog.shelf
  by_cases hd : d = c
  · subst hd
    rw [Catalog.table_setTable_same, Multimap.get_push]
    by_cases hn : other = name
    · simp [hn]
    · simp [hn]
  · rw [Catalog.table_setTable_ne k hd]
    simp [hd]

theorem entered_enter (free : b.ownerOf? v = none) :
    Entered b (b.enter p v i.category i.name) p v i := by
  have unowned : ¬ b.ownership.isOwned v = true := fun ho => isOwned_iff.mp ho free
  have grant : b.ownership.grant p v =
      ⟨b.ownership.contexts.push p v, b.ownership.owners ++ [(v, p)]⟩ := if_neg unowned
  constructor
  case shelf => exact fun c name => shelf_put b.catalog i.category c i.name name v
  case contextsOf =>
    intro q
    show (b.ownership.grant p v).contexts.get q = b.ownership.contexts.get q ++ _
    rw [grant, Multimap.get_push]
    by_cases hq : q = p
    · simp [hq]
    · simp [hq]
  case ownerOf? =>
    intro w
    show (b.ownership.grant p v).owners.lookup w =
      if w = v then some p else b.ownership.owners.lookup w
    rw [grant, List.lookup_append]
    by_cases hw : w = v
    · subst hw
      have none : b.ownership.owners.lookup w = none := free
      simp [none]
    · simp [hw, List.lookup_cons, beq_false_of_ne hw]
  case trust => rfl
  case compilerGated => rfl

theorem register_refused {refusal : Refusal}
    (h : (b.register profiles p v i).answer = .error refusal) :
    (b.register profiles p v i).broker = b := by
  rw [register_answer] at h
  unfold Broker.register
  split
  · next hc =>
    rw [hc] at h
    cases h
  · rfl

theorem register_entered (h : (b.register profiles p v i).answer = .ok ()) :
    Entered b (b.register profiles p v i).broker p v i := by
  have free : b.ownerOf? v = none := by
    cases register_answer_iff.mp h with
    | accepted _ _ _ free => exact free
  obtain ⟨qualifies, unowned⟩ := register_ok_iff.mp h
  have admitted : b.admission (profiles v).interfaces v i = .ok i.category :=
    admission_ok_iff.mpr ⟨rfl, qualifies, unowned⟩
  rw [Broker.register, admitted]
  exact entered_enter free

/-- How a registration is decided and what it leaves behind. -/
structure Decided (b : Broker) (profiles : Profiles) (p : PluginId) (v : Context) (i : Interface) :
    Prop where
  answer_iff : ∀ answer, (b.register profiles p v i).answer = answer ↔
    Ruling b (profiles v).interfaces v i answer
  ambiguity : ∀ cs, (b.register profiles p v i).answer = .error (.ambiguous cs) →
    2 ≤ cs.length ∧ i.category ∈ cs
  same_category : Implements (profiles v).interfaces i →
    ∀ c, categoriesOf (profiles v).interfaces = [c] → c = i.category
  refused : ∀ refusal, (b.register profiles p v i).answer = .error refusal →
    (b.register profiles p v i).broker = b
  accepted : (b.register profiles p v i).answer = .ok () →
    Entered b (b.register profiles p v i).broker p v i

/-- Whatever a broker holds and whatever a context declares, a registration is answered by the first
reason against it, and changes something only if there is none. -/
theorem register_decided (b : Broker) (profiles : Profiles) (p : PluginId) (v : Context)
    (i : Interface) : b.Decided profiles p v i := by
  constructor
  case answer_iff => exact fun answer => register_answer_iff
  case ambiguity =>
    intro cs h
    cases register_answer_iff.mp h with
    | ambiguous implemented mixed order members =>
      refine ⟨?_, (members _).mpr implemented.reaches⟩
      rw [eq_categoriesOf order members]
      exact mixed.length
  case same_category =>
    intro implemented c h
    have own := mem_categoriesOf.mpr implemented.reaches
    rw [h] at own
    exact (List.mem_singleton.mp own).symm
  case refused => exact fun refusal => register_refused
  case accepted => exact register_entered

end Broker

end PluginBroker
