import PluginBroker.Broker.Session

/-! What lookups answer.  A lookup picks from a shelf first and asks for permission afterwards, so
its answer is settled by the pick and by the permission for what was picked. -/

namespace PluginBroker

/-- A position past the end of a shelf that is not empty. -/
def Choice.Overruns : Choice → Nat → Prop
  | nth n, size => 0 < size ∧ size ≤ n
  | first, _ | withId _, _ | nthWithId _ _, _ => False

namespace Catalog

variable {k : Catalog} {profiles : Profiles} {c : Category} {name : String} {choice : Choice}

theorem mem_shelf_of_pick {v : Context} (h : k.pick profiles c name choice = .ok (some v)) :
    v ∈ k.shelf c name := by
  unfold pick at h
  dsimp only at h
  split at h
  · cases h
  · cases choice with
    | first => exact List.mem_of_getElem? (Except.ok.inj h)
    | nth n =>
      dsimp only at h
      split at h
      · next w hw =>
        obtain rfl : w = v := by simpa using h
        exact List.mem_of_getElem? hw
      · cases h
    | withId id => exact (List.mem_filter.mp (List.mem_of_getElem? (Except.ok.inj h))).1
    | nthWithId id n => exact (List.mem_filter.mp (List.mem_of_getElem? (Except.ok.inj h))).1

theorem pick_of_isEmpty (h : k.shelf c name = []) : k.pick profiles c name choice = .ok none := by
  simp [pick, h]

/-- The contexts of a shelf are picked by their positions. -/
theorem pick_nth_iff {n : Nat} {v : Context} :
    k.pick profiles c name (.nth n) = .ok (some v) ↔ (k.shelf c name)[n]? = some v := by
  unfold pick
  dsimp only
  split
  · next he => simp [List.isEmpty_iff.mp he]
  · cases (k.shelf c name)[n]? <;> simp

/-- The only error of a pick is a position past the end. -/
theorem pick_error_iff {e : OutOfRange} : k.pick profiles c name choice = .error e ↔
    choice.Overruns (k.shelf c name).length ∧
      ∃ n, choice = .nth n ∧ e = ⟨name, n, (k.shelf c name).length⟩ := by
  unfold pick
  dsimp only
  split
  · next he =>
    rw [List.isEmpty_iff.mp he]
    cases choice <;> simp [Choice.Overruns]
  · next he =>
    have size : 0 < (k.shelf c name).length :=
      List.length_pos_iff.mpr fun h => he (List.isEmpty_iff.mpr h)
    cases choice with
    | nth n =>
      by_cases hn : n < (k.shelf c name).length
      · simp [hn, Choice.Overruns, Nat.not_le.mpr hn]
      · simp [hn, Choice.Overruns, size, Nat.not_lt.mp hn, eq_comm]
    | first | withId id | nthWithId id n => simp [Choice.Overruns]

end Catalog

namespace Broker

variable {b : Broker} {profiles : Profiles} {c : Category} {requester : PluginId} {i : Interface}
  {choice : Choice}

theorem permits_iff {v : Context} : b.permits requester v = true ↔
    b.phase = .bound ∧ ∃ p, b.ownerOf? v = some p ∧ b.trust.connects requester p = true := by
  unfold permits judge ownerOf?
  split
  · next hb =>
    cases ho : b.ownership.ownerOf? v with
    | some p => simp [Verdict.allows, hb]
    | none => by_cases hc : b.catalog.contains v = true <;> simp [hc, Verdict.allows]
  · next hb => simp [Verdict.allows, hb]

@[simp] theorem lookupIn_broker : (b.lookupIn profiles c requester i choice).broker = b := by
  unfold lookupIn
  split <;> rfl

theorem find_of_ne (h : i.category ≠ c) :
    b.find profiles c requester i choice = .ok .absent := by
  rw [find, if_neg h]

theorem find_found_iff {v : Context} : b.find profiles c requester i choice = .ok (.found v) ↔
    i.category = c ∧ b.catalog.pick profiles c i.name choice = .ok (some v) ∧
      (b.gated c = true → b.permits requester v = true) := by
  by_cases hc : i.category = c
  · rw [find, if_pos hc]
    split
    · next w hp =>
      rw [hp]
      by_cases hd : (b.gated c && !b.permits requester w) = true
      · rw [if_pos hd]
        simp only [Except.ok.injEq, reduceCtorEq, Option.some.injEq, false_iff]
        rintro ⟨-, rfl, hw⟩
        simp only [Bool.and_eq_true, Bool.not_eq_true'] at hd
        rw [hw hd.1] at hd
        exact Bool.noConfusion hd.2
      · rw [if_neg hd]
        simp only [Except.ok.injEq, Finding.found.injEq, Option.some.injEq, hc, true_and]
        constructor
        · rintro rfl
          refine ⟨rfl, fun hg => ?_⟩
          simpa [hg] using hd
        · exact fun h => h.1
    · next hp => simp [hp]
    · next hp => simp [hp]
  · simp [find_of_ne hc, hc]

theorem find_error_iff {e : OutOfRange} : b.find profiles c requester i choice = .error e ↔
    i.category = c ∧ b.catalog.pick profiles c i.name choice = .error e := by
  by_cases hc : i.category = c
  · rw [find, if_pos hc]
    split
    · next hp => split <;> simp [hp]
    · next hp => simp [hp]
    · next hp => simp [hp, hc]
  · simp [find_of_ne hc, hc]

theorem lookupIn_answer : (b.lookupIn profiles c requester i choice).answer =
    (b.find profiles c requester i choice).map Finding.shown? := by
  unfold lookupIn
  split
  · next h => rw [h]; rfl
  · next h => rw [h]; rfl
  · next h => rw [h]; rfl

/-- A lookup hands out what was picked if no permission is needed or there is one. -/
theorem lookupIn_some_iff {v : Context} :
    (b.lookupIn profiles c requester i choice).answer = .ok (some v) ↔
      i.category = c ∧ b.catalog.pick profiles c i.name choice = .ok (some v) ∧
        (b.gated c = true → b.permits requester v = true) := by
  rw [lookupIn_answer, ← find_found_iff]
  rcases b.find profiles c requester i choice with e | finding
  · simp [Except.map]
  · cases finding <;> simp [Except.map, Finding.shown?]

theorem lookupIn_error_iff {e : OutOfRange} :
    (b.lookupIn profiles c requester i choice).answer = .error e ↔
      i.category = c ∧ b.catalog.pick profiles c i.name choice = .error e := by
  rw [lookupIn_answer, ← find_error_iff]
  rcases b.find profiles c requester i choice with d | finding <;> simp [Except.map]

end Broker

end PluginBroker
