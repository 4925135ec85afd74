import Mathlib.Data.List.Perm.Basic
import PluginBroker.Multimap.Lemmas

/-! A multimap as the groups of a list of pairs: each key has the values that the pairs give it, in
the order of the pairs.  Every operation on the multimap is one operation on the pairs. -/

namespace PluginBroker.Multimap

variable {κ α : Type} [DecidableEq κ] {m : Multimap κ α} {ps : List (κ × α)}

/-- The values of every key are those of the pairs with that key, in order. -/
def Groups (m : Multimap κ α) (ps : List (κ × α)) : Prop :=
  ∀ k, m.get k = (ps.filter (·.1 = k)).map (·.2)

theorem groups_empty : (empty : Multimap κ α).Groups [] := fun _ => rfl

theorem Groups.congr {qs : List (κ × α)} (h : m.Groups ps) (hp : ps = qs) : m.Groups qs := hp ▸ h

theorem Groups.push (h : m.Groups ps) (k : κ) (a : α) : (m.push k a).Groups (ps ++ [(k, a)]) := by
  intro l
  rw [get_push, List.filter_append, List.map_append, ← h l]
  by_cases hl : l = k
  · simp [hl]
  · simp [hl, Ne.symm hl]

theorem Groups.filterAt (h : m.Groups ps) (k : κ) (keep : α → Bool) :
    (m.filterAt k keep).Groups (ps.filter fun p => p.1 ≠ k || keep p.2) := by
  intro l
  rw [get_filterAt, h k, h l, List.filter_filter, List.filter_map, List.filter_filter]
  split
  · next hl =>
    subst hl
    refine congrArg _ (List.filter_congr fun p _ => ?_)
    by_cases hp : p.1 = l <;> simp [hp]
  · next hl =>
    refine congrArg _ (List.filter_congr fun p _ => ?_)
    by_cases hp : p.1 = l <;> simp [hp, hl]

/-- Entries with distinct keys hold exactly the values of the pairs that they group. -/
theorem flatMap_perm {es : List (κ × List α)} (hd : (es.map (·.1)).Nodup)
    (h : ∀ k, valuesAt k es = (ps.filter (·.1 = k)).map (·.2)) :
    (es.flatMap (·.2)).Perm (ps.map (·.2)) := by
  induction es generalizing ps with
  | nil =>
    cases ps with
    | nil => exact .nil
    | cons p ps => simpa using h p.1
  | cons e es ih =>
    rw [List.map_cons, List.nodup_cons] at hd
    -- the first entry has the pairs of its own key, and the other entries group the rest
    have first : e.2 = (ps.filter (·.1 = e.1)).map (·.2) := by
      rw [← h e.1, valuesAt_cons, if_pos rfl]
    have rest : ∀ k, valuesAt k es =
        ((ps.filter fun p => !decide (p.1 = e.1)).filter (·.1 = k)).map (·.2) := by
      intro k
      rw [List.filter_filter]
      by_cases hk : k = e.1
      · subst hk
        simp [valuesAt_of_not_mem hd.1]
      · have hv := h k
        rw [valuesAt_cons, if_neg hk] at hv
        rw [hv]
        refine congrArg _ (List.filter_congr fun p _ => ?_)
        by_cases hp : p.1 = k <;> simp [hp, hk]
    rw [List.flatMap_cons, first]
    exact ((ih hd.2 rest).append_left _).trans
      (List.map_append ▸ (List.filter_append_perm _ ps).map _)

/-- A multimap that groups pairs has their values, in some order. -/
theorem Groups.perm (h : m.Groups ps) : m.values.Perm (ps.map (·.2)) :=
  flatMap_perm m.nodup h

theorem Groups.mem_values_iff (h : m.Groups ps) {a : α} : a ∈ m.values ↔ a ∈ ps.map (·.2) :=
  h.perm.mem_iff

theorem Groups.size (h : m.Groups ps) : m.size = ps.length := by
  rw [Multimap.size, h.perm.length_eq, List.length_map]

section Erase

variable [DecidableEq α]

/-- Entries in which no value occurs twice lose a value from each list. -/
theorem valuesAt_eraseFirst {es : List (κ × List α)} (hd : (es.map (·.1)).Nodup)
    (hv : (es.flatMap (·.2)).Nodup) (a : α) (k : κ) :
    valuesAt k (eraseFirst a es) = (valuesAt k es).filter (· != a) := by
  induction es with
  | nil => rfl
  | cons e es ih =>
    rw [List.map_cons, List.nodup_cons] at hd
    rw [List.flatMap_cons, List.nodup_append] at hv
    obtain ⟨hfirst, hrest, hdisj⟩ := hv
    unfold eraseFirst
    split
    · next ha =>
      rw [valuesAt_entry_append hd.1, valuesAt_cons]
      by_cases hk : k = e.1
      · rw [if_pos hk, if_pos hk, hfirst.erase_eq_filter]
      · rw [if_neg hk, if_neg hk]
        -- `a` stands in the first list, so no other list has it
        refine (List.filter_eq_self.mpr fun b hb => ?_).symm
        have hm : b ∈ es.flatMap (·.2) := (mem_flatMap_iff hd.2).mpr ⟨k, hb⟩
        simpa using (hdisj a ha b hm).symm
    · next ha =>
      rw [valuesAt_cons, valuesAt_cons, ih hd.2 hrest]
      split
      · refine (List.filter_eq_self.mpr fun b hb => ?_).symm
        have : b ≠ a := by rintro rfl; exact ha hb
        simpa using this
      · rfl

theorem Groups.erase (h : m.Groups ps) (hd : m.values.Nodup) (a : α) :
    (m.erase a).Groups (ps.filter (·.2 != a)) := by
  intro k
  calc (m.erase a).get k
    _ = (m.get k).filter (· != a) := valuesAt_eraseFirst m.nodup hd a k
    _ = ((ps.filter (·.1 = k)).map (·.2)).filter (· != a) := by rw [h k]
    _ = ((ps.filter (·.2 != a)).filter (·.1 = k)).map (·.2) := by
      rw [List.filter_map, List.filter_filter, List.filter_filter]
      exact congrArg _ (List.filter_congr fun p _ => Bool.and_comm ..)

end Erase

end PluginBroker.Multimap
