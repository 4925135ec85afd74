import Mathlib.Data.Set.Card
import PluginBroker.Config

/-! The links that a host writes down, as a set of ordered pairs.  The set has exactly the pairs that some
link joins: neither the order of the links counts nor how often they are written, and nothing follows
from several links together.  A link more adds the pairs that it joins and that were not there yet. -/

namespace PluginBroker

/-- The link lets the first plugin use contexts of the second one. -/
def Link.Joins (l : Link) (a b : PluginId) : Prop :=
  (l.source = a ∧ l.target = b) ∨ (l.bidirectional = true ∧ l.source = b ∧ l.target = a)

theorem Link.mem_pairs_iff {l : Link} {a b : PluginId} : (a, b) ∈ l.pairs ↔ l.Joins a b := by
  unfold pairs Joins
  by_cases h : l.bidirectional = true
  · simp [h, eq_comm, and_comm]
  · simp [h, eq_comm]

/-- The pairs that the link joins. -/
def Link.joined (l : Link) : Set (PluginId × PluginId) := {p | l.Joins p.1 p.2}

theorem Link.joined_eq (l : Link) : l.joined = ↑l.pairs.toFinset := by
  ext p
  simp [joined, ← Link.mem_pairs_iff]

theorem Link.finite_joined (l : Link) : l.joined.Finite :=
  l.joined_eq ▸ l.pairs.toFinset.finite_toSet

/-- A bidirectional link joins two pairs, unless it leads back to where it starts. -/
theorem Link.ncard_joined (l : Link) :
    l.joined.ncard = if l.bidirectional = true ∧ l.source ≠ l.target then 2 else 1 := by
  rw [joined_eq, Set.ncard_coe_finset]
  by_cases both : l.bidirectional = true
  · by_cases apart : l.source = l.target
    · simp [pairs, both, apart]
    · simp [pairs, both, apart]
  · simp [pairs, both]

namespace LinkSet

variable {s t : LinkSet} {a b : PluginId} {p q : PluginId × PluginId} {l : Link} {links : List Link}

/-! ### The pairs in the set -/

theorem mem_pairs_addLink : q ∈ (s.addLink l).pairs ↔ q ∈ l.pairs ∨ q ∈ s.pairs := by
  unfold addLink
  induction l.pairs generalizing s with
  | nil => simp
  | cons p ps ih =>
    rw [List.foldl_cons, ih, mem_pairs_insert, List.mem_cons, or_left_comm, or_assoc]

theorem mem_pairs_foldl_addLink :
    q ∈ (links.foldl addLink s).pairs ↔ (∃ l ∈ links, q ∈ l.pairs) ∨ q ∈ s.pairs := by
  induction links generalizing s with
  | nil => simp
  | cons l links ih =>
    rw [List.foldl_cons, ih, mem_pairs_addLink, List.exists_mem_cons_iff, or_left_comm, or_assoc]

theorem mem_pairs_ofLinks : q ∈ (ofLinks links).pairs ↔ ∃ l ∈ links, q ∈ l.pairs := by
  rw [ofLinks, mem_pairs_foldl_addLink]
  exact or_iff_left (List.not_mem_nil)

theorem connects_ofLinks_iff :
    (ofLinks links).connects a b = true ↔ ∃ l ∈ links, l.Joins a b := by
  simp only [connects_iff, mem_pairs_ofLinks, Link.mem_pairs_iff]

/-- The pairs in the set, as far as a host can ask for them. -/
abbrev connected (s : LinkSet) : Set (PluginId × PluginId) := {p | s.connects p.1 p.2 = true}

theorem connected_eq (s : LinkSet) : s.connected = ↑s.pairs.toFinset := by
  ext p
  simp [connected, connects_iff]

theorem finite_connected (s : LinkSet) : s.connected.Finite :=
  s.connected_eq ▸ s.pairs.toFinset.finite_toSet

theorem ncard_connected (s : LinkSet) : s.connected.ncard = s.size := by
  rw [connected_eq, Set.ncard_coe_finset, List.toFinset_card_of_nodup s.nodup, size]

/-- The set that links stand for: what it connects, how many pairs it has, and when it has none. -/
structure StandsFor (s : LinkSet) (links : List Link) : Prop where
  connects_iff : ∀ a b, s.connects a b = true ↔ ∃ l ∈ links, l.Joins a b
  self_iff : ∀ a, s.connects a a = true ↔ ∃ l ∈ links, l.source = a ∧ l.target = a
  not_through : ∀ a b c, s.connects a b = true → s.connects b c = true →
    (∀ l ∈ links, ¬ l.Joins a c) → s.connects a c = false
  size : s.size = {p : PluginId × PluginId | ∃ l ∈ links, l.Joins p.1 p.2}.ncard
  isEmpty_iff : s.isEmpty = true ↔ links = []

theorem ofLinks_standsFor (links : List Link) : (ofLinks links).StandsFor links where
  connects_iff a b := connects_ofLinks_iff
  self_iff a := by
    rw [connects_ofLinks_iff]
    refine exists_congr fun l => and_congr_right fun _ => ?_
    exact ⟨fun h => h.elim id fun h => h.2, fun h => .inl h⟩
  not_through a b c _ _ apart := by
    rw [Bool.eq_false_iff, ne_eq, connects_ofLinks_iff]
    rintro ⟨l, hl, joins⟩
    exact apart l hl joins
  size := by
    rw [← ncard_connected]
    simp only [connected, connects_ofLinks_iff]
  isEmpty_iff := by
    rw [isEmpty, List.isEmpty_iff]
    constructor
    · intro none
      refine List.eq_nil_iff_forall_not_mem.mpr fun l hl => ?_
      have joined : (l.source, l.target) ∈ (ofLinks links).pairs :=
        mem_pairs_ofLinks.mpr ⟨l, hl, Link.mem_pairs_iff.mpr (.inl ⟨rfl, rfl⟩)⟩
      rw [none] at joined
      cases joined
    · rintro rfl
      rfl

/-! ### The same set -/

/-- Two sets with the same pairs, in whatever order they came in: no question tells them apart. -/
structure Same (s t : LinkSet) : Prop where
  pairs : s.pairs.Perm t.pairs
  connects : s.connects = t.connects
  size : s.size = t.size
  isEmpty : s.isEmpty = t.isEmpty

theorem same_of_mem_iff (h : ∀ q, q ∈ s.pairs ↔ q ∈ t.pairs) : s.Same t := by
  have perm : s.pairs.Perm t.pairs := (List.perm_ext_iff_of_nodup s.nodup t.nodup).mpr h
  refine ⟨perm, ?_, perm.length_eq, perm.isEmpty_eq⟩
  funext a b
  rw [Bool.eq_iff_iff, connects_iff, connects_iff, h]

theorem ofLinks_same_of_mem_iff {others : List Link} (h : ∀ l, l ∈ others ↔ l ∈ links) :
    (ofLinks others).Same (ofLinks links) := by
  refine same_of_mem_iff fun q => ?_
  simp only [mem_pairs_ofLinks, h]

theorem ofLinks_split_same (before after : List Link) (a b : PluginId) :
    (ofLinks (before ++ ⟨a, b, false⟩ :: ⟨b, a, false⟩ :: after)).Same
      (ofLinks (before ++ ⟨a, b, true⟩ :: after)) := by
  refine same_of_mem_iff fun q => ?_
  simp [mem_pairs_ofLinks, Link.pairs, or_and_right, exists_or, or_assoc]

/-! ### One link more -/

/-- The second set is the first one with a link more: it grows by the pairs that are new. -/
structure Grows (s t : LinkSet) (l : Link) : Prop where
  connects_iff : ∀ a b, t.connects a b = true ↔ s.connects a b = true ∨ l.Joins a b
  size : t.size = s.size + (l.joined \ s.connected).ncard
  size_le : t.size ≤ s.size + 2
  size_le_of_single : l.bidirectional = false ∨ l.source = l.target → t.size ≤ s.size + 1

theorem grows_of_mem_iff (h : ∀ q, q ∈ t.pairs ↔ q ∈ l.pairs ∨ q ∈ s.pairs) : s.Grows t l := by
  have connects : ∀ a b, t.connects a b = true ↔ s.connects a b = true ∨ l.Joins a b := by
    intro a b
    rw [connects_iff, connects_iff, h, Link.mem_pairs_iff, or_comm]
  have connected : t.connected = s.connected ∪ (l.joined \ s.connected) := by
    rw [Set.union_sdiff_self]
    exact Set.ext fun p => connects p.1 p.2
  have size : t.size = s.size + (l.joined \ s.connected).ncard := by
    rw [← ncard_connected, ← ncard_connected, connected]
    exact Set.ncard_union_eq Set.disjoint_sdiff_right s.finite_connected l.finite_joined.sdiff
  have new_le : (l.joined \ s.connected).ncard ≤ l.joined.ncard :=
    Set.ncard_le_ncard Set.sdiff_subset l.finite_joined
  rw [l.ncard_joined] at new_le
  refine ⟨connects, size, ?_, fun single => ?_⟩
  · split at new_le <;> omega
  · have : ¬ (l.bidirectional = true ∧ l.source ≠ l.target) := by
      rintro ⟨both, apart⟩
      exact single.elim (fun h => by simp [h] at both) apart
    rw [if_neg this] at new_le
    omega

theorem ofLinks_grows (before after : List Link) (l : Link) :
    (ofLinks (before ++ after)).Grows (ofLinks (before ++ l :: after)) l := by
  refine grows_of_mem_iff fun q => ?_
  simp only [mem_pairs_ofLinks, List.mem_append, List.mem_cons, or_and_right, exists_or,
    exists_eq_left]
  exact or_left_comm

end LinkSet

/-! ### The links of a topology -/

/-- A topology means exactly the links that it lists: other ways to write them down mean the same,
and a link more, wherever it is written, adds what it joins. -/
structure Topology.MeansItsLinks (t : Topology) : Prop where
  standsFor : t.linkSet.StandsFor t.links
  rewritten : ∀ u : Topology, (∀ l, l ∈ u.links ↔ l ∈ t.links) → u.linkSet.Same t.linkSet
  split : ∀ (u : Topology) (before after : List Link) (a b : PluginId),
    t.links = before ++ ⟨a, b, true⟩ :: after →
      u.links = before ++ ⟨a, b, false⟩ :: ⟨b, a, false⟩ :: after → u.linkSet.Same t.linkSet
  grows : ∀ (u : Topology) (before after : List Link) (l : Link),
    t.links = before ++ after → u.links = before ++ l :: after → t.linkSet.Grows u.linkSet l

theorem Topology.meansItsLinks (t : Topology) : t.MeansItsLinks where
  standsFor := LinkSet.ofLinks_standsFor t.links
  rewritten u h := LinkSet.ofLinks_same_of_mem_iff h
  split u before after a b ht hu := by
    rw [linkSet, linkSet, ht, hu]
    exact LinkSet.ofLinks_split_same before after a b
  grows u before after l ht hu := by
    rw [linkSet, linkSet, ht, hu]
    exact LinkSet.ofLinks_grows before after l

-- Neither a way through a third plugin nor a link read backwards counts, and a link that leads back
-- to where it starts is one pair, even if it is bidirectional.
example :
    let s := Topology.linkSet ⟨[⟨⟨1⟩, ⟨2⟩, false⟩, ⟨⟨2⟩, ⟨3⟩, false⟩, ⟨⟨4⟩, ⟨4⟩, true⟩]⟩
    s.connects ⟨1⟩ ⟨3⟩ = false ∧ s.connects ⟨2⟩ ⟨1⟩ = false ∧ s.size = 3 := by
  decide

end PluginBroker
