/-! Finite maps from keys to non-empty ordered lists of values.  A key whose last value goes is
dropped, so a key is present exactly when it has a value. -/

namespace PluginBroker

/-- Keys in the order in which they came in, each with its values in the order in which they came
in.  No key occurs twice, and none is without a value. -/
structure Multimap (κ α : Type) where
  entries : List (κ × List α) := []
  nodup : (entries.map (·.1)).Nodup := by simp
  nonempty : ∀ e ∈ entries, e.2 ≠ [] := by simp
deriving DecidableEq

namespace Multimap

variable {κ α : Type}

def empty : Multimap κ α := {}

/-- The values of a key; an absent key has none. -/
def get [DecidableEq κ] (m : Multimap κ α) (k : κ) : List α := (m.entries.lookup k).getD []

def keys (m : Multimap κ α) : List κ := m.entries.map (·.1)

/-- All values, key by key. -/
def values (m : Multimap κ α) : List α := m.entries.flatMap (·.2)

/-- The number of values of all keys together. -/
def size (m : Multimap κ α) : Nat := m.values.length

/-! ### Putting a value in -/

section Push

variable [DecidableEq κ]

/-- The entries with `a` put after the other values of `k`. -/
def pushEntry (k : κ) (a : α) : List (κ × List α) → List (κ × List α)
  | [] => [(k, [a])]
  | (k', as) :: rest =>
    if k' = k then (k', as ++ [a]) :: rest else (k', as) :: pushEntry k a rest

/-- A key that is absent comes in last, and no other key moves. -/
theorem keys_pushEntry (k : κ) (a : α) (es : List (κ × List α)) :
    (pushEntry k a es).map (·.1) =
      if k ∈ es.map (·.1) then es.map (·.1) else es.map (·.1) ++ [k] := by
  induction es with
  | nil => simp [pushEntry]
  | cons e es ih => by_cases h : e.1 = k <;> grind [pushEntry]

theorem nodup_pushEntry (k : κ) (a : α) {es : List (κ × List α)} (h : (es.map (·.1)).Nodup) :
    ((pushEntry k a es).map (·.1)).Nodup := by
  rw [keys_pushEntry]
  split
  · exact h
  · exact List.nodup_append.mpr ⟨h, by simp, by grind⟩

theorem nonempty_pushEntry (k : κ) (a : α) {es : List (κ × List α)} (h : ∀ e ∈ es, e.2 ≠ []) :
    ∀ e ∈ pushEntry k a es, e.2 ≠ [] := by
  induction es with
  | nil => simp [pushEntry]
  | cons e es ih =>
    rw [List.forall_mem_cons] at h
    unfold pushEntry
    split
    · exact List.forall_mem_cons.mpr ⟨by simp, h.2⟩
    · exact List.forall_mem_cons.mpr ⟨h.1, ih h.2⟩

def push (m : Multimap κ α) (k : κ) (a : α) : Multimap κ α :=
  ⟨pushEntry k a m.entries, nodup_pushEntry k a m.nodup, nonempty_pushEntry k a m.nonempty⟩

end Push

/-! ### Taking values out -/

/-- An entry as a list: nothing if it has no values. -/
def entry (k : κ) (as : List α) : List (κ × List α) := if as.isEmpty then [] else [(k, as)]

theorem entry_sublist (k : κ) (as : List α) : ((entry k as).map (·.1)).Sublist [k] := by
  cases as <;> simp [entry]

theorem nonempty_entry (k : κ) (as : List α) : ∀ e ∈ entry k as, e.2 ≠ [] := by
  cases as <;> simp [entry]

section Filter

variable [DecidableEq κ]

/-- The entries with the values of `k` kept only where `keep` holds. -/
def filterEntry (k : κ) (keep : α → Bool) : List (κ × List α) → List (κ × List α)
  | [] => []
  | (k', as) :: rest =>
    if k' = k then entry k' (as.filter keep) ++ rest else (k', as) :: filterEntry k keep rest

theorem keys_filterEntry (k : κ) (keep : α → Bool) (es : List (κ × List α)) :
    ((filterEntry k keep es).map (·.1)).Sublist (es.map (·.1)) := by
  induction es with
  | nil => simp [filterEntry]
  | cons e es ih =>
    unfold filterEntry
    split
    · simpa using (entry_sublist e.1 (e.2.filter keep)).append (List.Sublist.refl (es.map (·.1)))
    · simpa using ih

theorem nonempty_filterEntry (k : κ) (keep : α → Bool) {es : List (κ × List α)}
    (h : ∀ e ∈ es, e.2 ≠ []) : ∀ e ∈ filterEntry k keep es, e.2 ≠ [] := by
  induction es with
  | nil => simp [filterEntry]
  | cons e es ih =>
    rw [List.forall_mem_cons] at h
    unfold filterEntry
    split
    · exact List.forall_mem_append.mpr ⟨nonempty_entry _ _, h.2⟩
    · exact List.forall_mem_cons.mpr ⟨h.1, ih h.2⟩

/-- Keeps of the values of one key those for which `keep` holds. -/
def filterAt (m : Multimap κ α) (k : κ) (keep : α → Bool) : Multimap κ α :=
  ⟨filterEntry k keep m.entries, m.nodup.sublist (keys_filterEntry k keep m.entries),
    nonempty_filterEntry k keep m.nonempty⟩

end Filter

section Erase

variable [DecidableEq α]

/-- The entries without the first occurrence of `a`. -/
def eraseFirst (a : α) : List (κ × List α) → List (κ × List α)
  | [] => []
  | (k, as) :: rest =>
    if a ∈ as then entry k (as.erase a) ++ rest else (k, as) :: eraseFirst a rest

theorem keys_eraseFirst (a : α) (es : List (κ × List α)) :
    ((eraseFirst a es).map (·.1)).Sublist (es.map (·.1)) := by
  induction es with
  | nil => simp [eraseFirst]
  | cons e es ih =>
    unfold eraseFirst
    split
    · simpa using (entry_sublist e.1 (e.2.erase a)).append (List.Sublist.refl (es.map (·.1)))
    · simpa using ih

theorem nonempty_eraseFirst (a : α) {es : List (κ × List α)} (h : ∀ e ∈ es, e.2 ≠ []) :
    ∀ e ∈ eraseFirst a es, e.2 ≠ [] := by
  induction es with
  | nil => simp [eraseFirst]
  | cons e es ih =>
    rw [List.forall_mem_cons] at h
    unfold eraseFirst
    split
    · exact List.forall_mem_append.mpr ⟨nonempty_entry _ _, h.2⟩
    · exact List.forall_mem_cons.mpr ⟨h.1, ih h.2⟩

/-- Takes out the first occurrence of a value, whichever key it has. -/
def erase (m : Multimap κ α) (a : α) : Multimap κ α :=
  ⟨eraseFirst a m.entries, m.nodup.sublist (keys_eraseFirst a m.entries),
    nonempty_eraseFirst a m.nonempty⟩

end Erase

end Multimap

end PluginBroker
