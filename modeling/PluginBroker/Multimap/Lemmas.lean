import PluginBroker.Multimap

/-! What the operations on finite maps do to the values of each key, to all values together, and to
their number. -/

namespace PluginBroker.Multimap

variable {κ α : Type}

@[ext] theorem ext {m n : Multimap κ α} (h : m.entries = n.entries) : m = n := by
  cases m
  cases n
  simp_all

@[simp] theorem values_empty : (empty : Multimap κ α).values = [] := rfl

@[simp] theorem size_empty : (empty : Multimap κ α).size = 0 := rfl

@[simp] theorem flatMap_entry (k : κ) (as : List α) : (entry k as).flatMap (·.2) = as := by
  cases as <;> simp [entry]

section Keys

variable [DecidableEq κ]

@[simp] theorem get_empty (k : κ) : (empty : Multimap κ α).get k = [] := rfl

/-- The values that entries hold for a key. -/
def valuesAt (k : κ) (es : List (κ × List α)) : List α := (es.lookup k).getD []

@[simp] theorem valuesAt_nil (k : κ) : valuesAt k ([] : List (κ × List α)) = [] := rfl

theorem valuesAt_cons (k : κ) (e : κ × List α) (es : List (κ × List α)) :
    valuesAt k (e :: es) = if k = e.1 then e.2 else valuesAt k es := by
  obtain ⟨l, as⟩ := e
  by_cases h : k = l
  · simp [valuesAt, h]
  · simp [valuesAt, List.lookup_cons, beq_false_of_ne h, h]

theorem valuesAt_of_not_mem {k : κ} {es : List (κ × List α)} (h : k ∉ es.map (·.1)) :
    valuesAt k es = [] := by
  induction es with
  | nil => rfl
  | cons e es ih =>
    simp only [List.map_cons, List.mem_cons, not_or] at h
    rw [valuesAt_cons, if_neg h.1, ih h.2]

theorem valuesAt_append (k : κ) (es fs : List (κ × List α)) :
    valuesAt k (es ++ fs) = if k ∈ es.map (·.1) then valuesAt k es else valuesAt k fs := by
  induction es with
  | nil => simp
  | cons e es ih =>
    rw [List.cons_append, valuesAt_cons, valuesAt_cons, ih, List.map_cons]
    by_cases h : k = e.1
    · simp [h]
    · rw [if_neg h, if_neg h]
      refine ite_congr (propext ?_) (fun _ => rfl) fun _ => rfl
      rw [List.mem_cons, or_iff_right h]

theorem valuesAt_pushEntry (k l : κ) (a : α) (es : List (κ × List α)) :
    valuesAt l (pushEntry k a es) = if l = k then valuesAt k es ++ [a] else valuesAt l es := by
  induction es with
  | nil => simp [pushEntry, valuesAt_cons]
  | cons e es ih =>
    unfold pushEntry
    by_cases hk : e.1 = k
    · by_cases hl : l = k <;> simp [hk, hl, valuesAt_cons]
    · simp only [hk, if_false, valuesAt_cons, ih]
      by_cases hl : l = k
      · subst hl
        simp [Ne.symm hk]
      · simp [hl]

/-- A value that is pushed becomes the last one of its key. -/
theorem get_push (m : Multimap κ α) (k l : κ) (a : α) :
    (m.push k a).get l = if l = k then m.get k ++ [a] else m.get l :=
  valuesAt_pushEntry k l a m.entries

theorem valuesAt_entry (k l : κ) (as : List α) :
    valuesAt l (entry k as) = if l = k then as else [] := by
  cases as <;> simp [entry, valuesAt_cons]

/-- An entry that may have lost its values stands before entries that do not have its key. -/
theorem valuesAt_entry_append {k : κ} {es : List (κ × List α)} (hk : k ∉ es.map (·.1)) (l : κ)
    (as : List α) : valuesAt l (entry k as ++ es) = if l = k then as else valuesAt l es := by
  rw [valuesAt_append, valuesAt_entry]
  by_cases hl : l = k
  · subst hl
    cases as with
    | nil => simp [entry, valuesAt_of_not_mem hk]
    | cons a as => simp [entry]
  · rw [if_neg hl, if_neg hl, if_neg]
    intro hm
    exact hl (by simpa using (entry_sublist k as).subset hm)

theorem valuesAt_filterEntry (k l : κ) (keep : α → Bool) {es : List (κ × List α)}
    (h : (es.map (·.1)).Nodup) : valuesAt l (filterEntry k keep es) =
      if l = k then (valuesAt k es).filter keep else valuesAt l es := by
  induction es with
  | nil => simp [filterEntry]
  | cons e es ih =>
    rw [List.map_cons, List.nodup_cons] at h
    unfold filterEntry
    by_cases hk : e.1 = k
    · rw [if_pos hk, valuesAt_entry_append h.1, valuesAt_cons, valuesAt_cons, hk, if_pos rfl]
      by_cases hl : l = k
      · rw [if_pos hl, if_pos hl]
      · rw [if_neg hl, if_neg hl, if_neg hl]
    · simp only [hk, if_false, valuesAt_cons, ih h.2]
      by_cases hl : l = k
      · subst hl
        simp [Ne.symm hk]
      · simp [hl]

/-- A filter at one key leaves all others alone. -/
theorem get_filterAt (m : Multimap κ α) (k l : κ) (keep : α → Bool) :
    (m.filterAt k keep).get l = if l = k then (m.get k).filter keep else m.get l :=
  valuesAt_filterEntry k l keep m.nodup

theorem filterEntry_eq_self (k : κ) {keep : α → Bool} {es : List (κ × List α)}
    (hd : (es.map (·.1)).Nodup) (hn : ∀ e ∈ es, e.2 ≠ [])
    (h : ∀ a ∈ valuesAt k es, keep a = true) : filterEntry k keep es = es := by
  induction es with
  | nil => rfl
  | cons e es ih =>
    rw [List.map_cons, List.nodup_cons] at hd
    rw [List.forall_mem_cons] at hn
    unfold filterEntry
    split
    · next hk =>
      rw [valuesAt_cons, if_pos hk.symm] at h
      rw [List.filter_eq_self.mpr h, entry, if_neg (by simpa using hn.1)]
      rfl
    · next hk =>
      rw [valuesAt_cons, if_neg (Ne.symm hk)] at h
      rw [ih hd.2 hn.2 h]

/-- A filter that keeps every value of its key changes nothing. -/
theorem filterAt_eq_self {m : Multimap κ α} {k : κ} {keep : α → Bool}
    (h : ∀ a ∈ m.get k, keep a = true) : m.filterAt k keep = m :=
  ext (filterEntry_eq_self k m.nodup m.nonempty h)

theorem filterEntry_pushEntry (k : κ) {keep : α → Bool} {a : α} (h : keep a = false)
    (es : List (κ × List α)) :
    filterEntry k keep (pushEntry k a es) = filterEntry k keep es := by
  induction es with
  | nil => simp [pushEntry, filterEntry, entry, h]
  | cons e es ih =>
    unfold pushEntry
    by_cases hk : e.1 = k
    · simp [hk, filterEntry, h]
    · simp [hk, filterEntry, ih]

/-- A filter that drops what was pushed last leaves what it would have left without it. -/
theorem filterAt_push (m : Multimap κ α) (k : κ) {keep : α → Bool} {a : α} (h : keep a = false) :
    (m.push k a).filterAt k keep = m.filterAt k keep :=
  ext (filterEntry_pushEntry k h m.entries)

/-- The values of entries with distinct keys are those of their keys. -/
theorem mem_flatMap_iff {es : List (κ × List α)} (h : (es.map (·.1)).Nodup) {a : α} :
    a ∈ es.flatMap (·.2) ↔ ∃ k, a ∈ valuesAt k es := by
  induction es with
  | nil => simp
  | cons e es ih =>
    rw [List.map_cons, List.nodup_cons] at h
    simp only [List.flatMap_cons, List.mem_append, ih h.2, valuesAt_cons]
    constructor
    · rintro (ha | ⟨k, hk⟩)
      · exact ⟨e.1, by simpa using ha⟩
      · refine ⟨k, ?_⟩
        rw [if_neg]
        · exact hk
        · rintro rfl
          simp [valuesAt_of_not_mem h.1] at hk
    · rintro ⟨k, hk⟩
      split at hk
      · exact Or.inl hk
      · exact Or.inr ⟨k, hk⟩

theorem mem_values_iff {m : Multimap κ α} {a : α} : a ∈ m.values ↔ ∃ k, a ∈ m.get k :=
  mem_flatMap_iff m.nodup

theorem mem_iff_valuesAt {es : List (κ × List α)} (hd : (es.map (·.1)).Nodup)
    (hn : ∀ e ∈ es, e.2 ≠ []) {k : κ} {as : List α} :
    (k, as) ∈ es ↔ as ≠ [] ∧ valuesAt k es = as := by
  induction es with
  | nil => simp [eq_comm]
  | cons e es ih =>
    rw [List.map_cons, List.nodup_cons] at hd
    rw [List.forall_mem_cons] at hn
    rw [List.mem_cons, valuesAt_cons, ih hd.2 hn.2]
    by_cases hk : k = e.1
    · subst hk
      simp only [valuesAt_of_not_mem hd.1, if_true, Prod.ext_iff, true_and]
      constructor
      · rintro (rfl | ⟨ha, rfl⟩)
        · exact ⟨hn.1, rfl⟩
        · exact absurd rfl ha
      · exact fun h => .inl h.2.symm
    · simp [hk, Prod.ext_iff]

/-- An entry holds all the values of its key. -/
theorem mem_entries_iff {m : Multimap κ α} {k : κ} {as : List α} :
    (k, as) ∈ m.entries ↔ as ≠ [] ∧ m.get k = as :=
  mem_iff_valuesAt m.nodup m.nonempty

/-- A key is present exactly if it has a value. -/
theorem mem_keys_iff {m : Multimap κ α} {k : κ} : k ∈ m.keys ↔ m.get k ≠ [] := by
  rw [keys, List.mem_map]
  constructor
  · rintro ⟨⟨l, as⟩, he, rfl⟩
    obtain ⟨hn, hg⟩ := mem_entries_iff.mp he
    exact hg ▸ hn
  · exact fun hn => ⟨(k, m.get k), mem_entries_iff.mpr ⟨hn, rfl⟩, rfl⟩

/-- A push puts one value in among all values. -/
theorem values_push_perm (m : Multimap κ α) (k : κ) (a : α) :
    (m.push k a).values.Perm (a :: m.values) := by
  have key (es : List (κ × List α)) :
      ((pushEntry k a es).flatMap (·.2)).Perm (a :: es.flatMap (·.2)) := by
    induction es with
    | nil => simp [pushEntry]
    | cons e es ih =>
      unfold pushEntry
      split
      · simp [List.perm_middle]
      · exact (ih.append_left e.2).trans List.perm_middle
  exact key m.entries

@[simp] theorem size_push (m : Multimap κ α) (k : κ) (a : α) : (m.push k a).size = m.size + 1 :=
  (m.values_push_perm k a).length_eq

end Keys

section Values

variable [DecidableEq α]

/-- Taking out a value takes it out once from all values. -/
theorem values_erase (m : Multimap κ α) (a : α) : (m.erase a).values = m.values.erase a := by
  have key (es : List (κ × List α)) :
      (eraseFirst a es).flatMap (·.2) = (es.flatMap (·.2)).erase a := by
    induction es with
    | nil => simp [eraseFirst]
    | cons e es ih =>
      unfold eraseFirst
      split
      · next h => simp [List.erase_append_left _ h]
      · next h => simp [List.erase_append_right _ h, ih]
  exact key m.entries

theorem eraseFirst_pushEntry [DecidableEq κ] (k : κ) {a : α} {es : List (κ × List α)}
    (hn : ∀ e ∈ es, e.2 ≠ []) (h : a ∉ es.flatMap (·.2)) :
    eraseFirst a (pushEntry k a es) = es := by
  induction es with
  | nil => simp [pushEntry, eraseFirst, entry]
  | cons e es ih =>
    rw [List.forall_mem_cons] at hn
    rw [List.flatMap_cons, List.mem_append, not_or] at h
    unfold pushEntry
    split
    · have first : (e.2 ++ [a]).erase a = e.2 := by
        rw [List.erase_append_right _ h.1, List.erase_cons_head, List.append_nil]
      simp [eraseFirst, first, entry, hn.1]
    · simp [eraseFirst, h.1, ih hn.2 h.2]

/-- A value that is new can be pushed and taken out again. -/
theorem erase_push [DecidableEq κ] {m : Multimap κ α} {a : α} (h : a ∉ m.values) (k : κ) :
    (m.push k a).erase a = m :=
  ext (eraseFirst_pushEntry k m.nonempty h)

end Values

end PluginBroker.Multimap
