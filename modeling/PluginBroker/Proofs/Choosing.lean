import Mathlib.Data.List.Nodup
import Mathlib.Logic.ExistsUnique
import PluginBroker.Proofs.Run

/-! Choosing from a shelf.  Positions on the whole shelf, and positions among the contexts of an id, each
go through what they count once and in the order of the shelf.  Past the end of a shelf that is not
empty there is an error, and past the last context of an id there is nothing. -/

namespace PluginBroker

theorem existsUnique_getElem? {α : Type} {l : List α} (hd : l.Nodup) {a : α} (ha : a ∈ l) :
    ∃! n : Nat, l[n]? = some a := by
  obtain ⟨n, hn⟩ := List.mem_iff_getElem?.mp ha
  refine ⟨n, hn, fun m hm => ?_⟩
  obtain ⟨bound, -⟩ := List.getElem?_eq_some_iff.mp hm
  exact (List.getElem?_inj bound hd).mp (hm.trans hn.symm)

namespace Catalog

variable {k : Catalog} {profiles : Profiles} {c : Category} {name : String}

/-- The contexts of a shelf that report the id, oldest first. -/
def havingId (k : Catalog) (profiles : Profiles) (c : Category) (name id : String) : List Context :=
  (k.shelf c name).filter fun v => (profiles v).id? == some id

theorem mem_havingId {id : String} {v : Context} : v ∈ k.havingId profiles c name id ↔
    v ∈ k.shelf c name ∧ (profiles v).id? = some id := by
  rw [havingId, List.mem_filter, beq_iff_eq]

theorem havingId_eq_nil (h : k.shelf c name = []) (id : String) :
    k.havingId profiles c name id = [] := by
  rw [havingId, h, List.filter_nil]

theorem pick_nthWithId (id : String) (n : Nat) :
    k.pick profiles c name (.nthWithId id n) = .ok (k.havingId profiles c name id)[n]? := by
  by_cases h : k.shelf c name = []
  · rw [pick_of_isEmpty h, havingId_eq_nil h, List.getElem?_nil]
  · rw [pick, if_neg (by simpa using h)]
    rfl

theorem pick_withId (id : String) :
    k.pick profiles c name (.withId id) = k.pick profiles c name (.nthWithId id 0) := by
  unfold pick
  rfl

theorem pick_first : k.pick profiles c name .first = .ok (k.shelf c name)[0]? := by
  by_cases h : k.shelf c name = []
  · rw [pick_of_isEmpty h, h, List.getElem?_nil]
  · rw [pick, if_neg (by simpa using h)]

/-- What each way to choose from a shelf comes to, whatever the contexts report as their ids. -/
structure Enumerates (k : Catalog) (profiles : Profiles) (c : Category) (name : String) : Prop where
  nth : ∀ n (h : n < (k.shelf c name).length),
    k.pick profiles c name (.nth n) = .ok (some (k.shelf c name)[n])
  nth_once : ∀ v ∈ k.shelf c name, ∃! n, k.pick profiles c name (.nth n) = .ok (some v)
  nth_past : k.shelf c name ≠ [] → ∀ n, (k.shelf c name).length ≤ n →
    k.pick profiles c name (.nth n) = .error ⟨name, n, (k.shelf c name).length⟩
  empty : k.shelf c name = [] → ∀ choice, k.pick profiles c name choice = .ok none
  nthWithId : ∀ id, ∃ vs : List Context, vs.Sublist (k.shelf c name) ∧ vs.Nodup ∧
    (∀ v, v ∈ vs ↔ v ∈ k.shelf c name ∧ (profiles v).id? = some id) ∧
    ∀ n, k.pick profiles c name (.nthWithId id n) = .ok vs[n]?
  withId : ∀ id, k.pick profiles c name (.withId id) = k.pick profiles c name (.nthWithId id 0)
  first : k.shelf c name ≠ [] → k.pick profiles c name .first = k.pick profiles c name (.nth 0)
  id_once : ∀ v ∈ k.shelf c name, (profiles v).id? ≠ none →
    ∃! q : String × Nat, k.pick profiles c name (.nthWithId q.1 q.2) = .ok (some v)
  no_id : ∀ v, (profiles v).id? = none → ∀ id n,
    k.pick profiles c name (.nthWithId id n) ≠ .ok (some v)

theorem pick_nth_of_lt {n : Nat} (h : n < (k.shelf c name).length) :
    k.pick profiles c name (.nth n) = .ok (some (k.shelf c name)[n]) :=
  pick_nth_iff.mpr (List.getElem?_eq_getElem h)

theorem pick_nthWithId_iff {id : String} {n : Nat} {v : Context} :
    k.pick profiles c name (.nthWithId id n) = .ok (some v) ↔
      (k.havingId profiles c name id)[n]? = some v := by
  rw [pick_nthWithId, Except.ok.injEq]

/-- Only the context's own id leads to it. -/
theorem id_of_pick_nthWithId {id : String} {n : Nat} {v : Context}
    (h : k.pick profiles c name (.nthWithId id n) = .ok (some v)) : (profiles v).id? = some id :=
  (mem_havingId.mp (List.mem_of_getElem? (pick_nthWithId_iff.mp h))).2

theorem enumerates (hd : (k.shelf c name).Nodup) : k.Enumerates profiles c name := by
  have nodup (id : String) : (k.havingId profiles c name id).Nodup := hd.filter _
  constructor
  case nth => exact fun n h => pick_nth_of_lt h
  case nth_once =>
    intro v hv
    simp only [pick_nth_iff]
    exact existsUnique_getElem? hd hv
  case nth_past =>
    intro some n hn
    exact pick_error_iff.mpr ⟨⟨List.length_pos_iff.mpr some, hn⟩, n, rfl, rfl⟩
  case empty => exact fun none choice => pick_of_isEmpty none
  case nthWithId =>
    intro id
    exact ⟨k.havingId profiles c name id, List.filter_sublist, nodup id, fun v => mem_havingId,
      pick_nthWithId id⟩
  case withId => exact pick_withId
  case first =>
    intro some
    have bound : 0 < (k.shelf c name).length := List.length_pos_iff.mpr some
    rw [pick_first, pick_nth_of_lt bound, List.getElem?_eq_getElem bound]
  case id_once =>
    intro v hv reports
    obtain ⟨id, hid⟩ := Option.ne_none_iff_exists'.mp reports
    obtain ⟨n, hn, unique⟩ := existsUnique_getElem? (nodup id) (mem_havingId.mpr ⟨hv, hid⟩)
    refine ⟨(id, n), pick_nthWithId_iff.mpr hn, ?_⟩
    rintro ⟨other, m⟩ hm
    -- the id is the one that the context reports, so only the position is left
    obtain rfl : other = id := Option.some.inj ((id_of_pick_nthWithId hm).symm.trans hid)
    rw [unique m (pick_nthWithId_iff.mp hm)]
  case no_id =>
    intro v silent id n h
    rw [id_of_pick_nthWithId h] at silent
    cases silent

end Catalog

/-- In every state that a run reaches, all that stands on a shelf can be chosen by its position, and all
that reports an id by the id and the position among those that report it, each in one way. -/
theorem Session.run_shelves_enumerated (gated : Bool) (ops : List Op) (profiles : Profiles)
    (c : Category) (name : String) :
    ((fresh gated).run ops).broker.catalog.Enumerates profiles c name := by
  have h := matches_roll gated ops
  exact Catalog.enumerates (h.catalog.nodup_shelf h.distinct c name)

/-- The first and the last of three contexts on a shelf report one id, and the middle one reports none:
the last is found at the second position of the id and at no other, and the middle one at none. -/
theorem Session.shared_id_enumerated :
    let report (n : Nat) (id? : Option String) : Op :=
      .report ⟨n⟩ { interfaces := [.root .memory], id? }
    let register (n : Nat) : Op := .register ⟨1⟩ ⟨n⟩ (.root .memory)
    let s := (fresh false).run [report 0 (some "x"), report 1 none, report 2 (some "x"),
      register 0, register 1, register 2]
    let pick := s.broker.catalog.pick s.profiles .memory "MemoryContext"
    s.broker.catalog.shelf .memory "MemoryContext" = [⟨0⟩, ⟨1⟩, ⟨2⟩] ∧
    s.broker.catalog.Enumerates s.profiles .memory "MemoryContext" ∧
    pick (.nth 1) = .ok (some ⟨1⟩) ∧ pick (.nth 3) = .error ⟨"MemoryContext", 3, 3⟩ ∧
    pick (.nthWithId "x" 1) = .ok (some ⟨2⟩) ∧ pick (.nthWithId "x" 2) = .ok none ∧
    (∀ id n, pick (.nthWithId id n) = .ok (some ⟨2⟩) → (id, n) = ("x", 1)) ∧
    ∀ id n, pick (.nthWithId id n) ≠ .ok (some ⟨1⟩) := by
  intro report register s pick
  have shelf : s.broker.catalog.shelf .memory "MemoryContext" = [⟨0⟩, ⟨1⟩, ⟨2⟩] := by decide
  have h : s.broker.catalog.Enumerates s.profiles .memory "MemoryContext" :=
    run_shelves_enumerated false _ s.profiles .memory "MemoryContext"
  have last : pick (.nthWithId "x" 1) = .ok (some ⟨2⟩) := by decide
  refine ⟨shelf, h, h.nth 1 (by decide), ?_, last, by decide, ?_, h.no_id ⟨1⟩ rfl⟩
  · exact h.nth_past (by rw [shelf]; decide) 3 (by rw [shelf]; decide)
  · intro id n hn
    obtain ⟨_, -, unique⟩ := h.id_once ⟨2⟩ (by rw [shelf]; decide) (by decide)
    exact (unique (id, n) hn).trans (unique ("x", 1) last).symm

end PluginBroker
