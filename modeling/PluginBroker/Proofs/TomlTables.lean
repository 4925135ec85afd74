import Mathlib.Data.List.Nodup
import PluginBroker.Proofs.TomlLines

/-! The tables that lines make: the keys that are assigned first, and one further table of links for each
section under the header of an array. -/

namespace PluginBroker.Toml

def Assignment.ofEntry (e : String × Value) : Assignment := ⟨⟨[], e.1⟩, e.2⟩

theorem exists_lineText_ofEntry {k : String} {v : Value} {t : List Char} (key : IsBare k)
    (value : ValueText v t) : ∃ t, LineText (.assignment (.ofEntry (k, v))) t :=
  ⟨_, .assignment ⟨by simpa using key, Nat.zero_lt_succ _⟩ value⟩

/-- What lines assign that each write an entry. -/
def assignments {α : Type} (entry : α → String × Value) (lines : List α) : List Assignment :=
  (lines.map entry).map .ofEntry

theorem Document.ofLines_assignments (as : List Assignment) (ls : List Line) :
    ofLines (as.map .assignment ++ ls) = { ofLines ls with top := as ++ (ofLines ls).top } := by
  induction as with
  | nil => rfl
  | cons a as ih => rw [List.map_cons, List.cons_append, ofLines, ih]; rfl

theorem Document.ofLines_sections (h : Header) (bodies : List (List Assignment)) :
    ofLines (bodies.flatMap fun body => .header h :: body.map .assignment) =
      { sections := bodies.map (Section.mk h) } := by
  induction bodies with
  | nil => rfl
  | cons body bodies ih =>
    rw [List.flatMap_cons, List.cons_append, ofLines, ofLines_assignments, ih, List.map_cons,
      List.append_nil]

namespace Entries

/-! ### Keys -/

theorem lookup_eq_some_iff {es : Entries} (keys : (es.map Prod.fst).Nodup) {k : String} {v : Value} :
    es.lookup k = some v ↔ (k, v) ∈ es := by
  rw [List.lookup_eq_some_iff]
  constructor
  · rintro ⟨before, behind, rfl, -⟩
    simp
  · intro h
    obtain ⟨before, behind, rfl⟩ := List.append_of_mem h
    refine ⟨before, behind, rfl, fun e he => ?_⟩
    rw [List.map_append, List.nodup_append] at keys
    rw [bne_iff_ne]
    exact (keys.2.2 e.1 (List.mem_map_of_mem he) k (by simp)).symm

theorem lookup_eq_none_iff {es : Entries} {k : String} :
    es.lookup k = none ↔ k ∉ es.map Prod.fst := by
  rw [List.lookup_eq_none_iff, List.mem_map]
  constructor
  · rintro h ⟨e, he, rfl⟩
    simpa using h e he
  · intro h e he
    rw [bne_iff_ne]
    rintro rfl
    exact h ⟨e, he, rfl⟩

theorem assign?_ofEntry (es : Entries) (e : String × Value) :
    assign? es (.ofEntry e) = if (es.lookup e.1).isSome then none else some (es ++ [e]) := rfl

theorem assignAll?_cons (es : Entries) (a : Assignment) (as : List Assignment) :
    assignAll? es (a :: as) = (assign? es a).bind fun es => assignAll? es as := rfl

/-- Lines make the table of all that they assign, unless they assign some key twice. -/
theorem assignAll?_eq_some_iff {es new r : Entries} (keys : (es.map Prod.fst).Nodup) :
    assignAll? es (new.map .ofEntry) = some r ↔ r = es ++ new ∧ ((es ++ new).map Prod.fst).Nodup := by
  induction new generalizing es with
  | nil =>
    show some es = some r ↔ _
    rw [List.append_nil, Option.some.injEq, eq_comm, and_iff_left keys]
  | cons e new ih =>
    rw [List.map_cons, assignAll?_cons, assign?_ofEntry]
    cases known : es.lookup e.1 with
    | none =>
      have further : ((es ++ [e]).map Prod.fst).Nodup := by
        rw [List.map_append, List.map_singleton, ← List.concat_eq_append, List.nodup_concat]
        exact ⟨lookup_eq_none_iff.mp known, keys⟩
      simpa using ih further
    | some v =>
      have twice : e.1 ∈ es.map Prod.fst := by
        by_contra absent
        rw [lookup_eq_none_iff.mpr absent] at known
        cases known
      refine iff_of_false (by simp) fun h => ?_
      rw [List.map_append, List.map_cons, List.nodup_append] at h
      exact h.2.2.2 e.1 twice e.1 List.mem_cons_self rfl

theorem assignAll?_assignments_iff {α : Type} {entry : α → String × Value} {lines : List α}
    {es : Entries} : assignAll? [] (assignments entry lines) = some es ↔
      es = lines.map entry ∧ ((lines.map entry).map Prod.fst).Nodup :=
  assignAll?_eq_some_iff List.nodup_nil

/-! ### Links -/

/-- The entries, and the array of tables `topology.links` with the given tables, if there are any. -/
def withLinks (top : Entries) : List Entries → Entries
  | [] => top
  | links => top ++ [("topology", .table .passed [("links", .array true (links.map (.table .opened)))])]

theorem withLinks_concat (top : Entries) (links : List Entries) (link : Entries) :
    withLinks top (links ++ [link]) = top ++ [("topology", .table .passed
      [("links", .array true (links.map (.table .opened) ++ [.table .opened link]))])] := by
  cases links <;> simp [withLinks]

theorem lookup_withLinks_of_ne {k : String} (h : k ≠ "topology") (top : Entries)
    (links : List Entries) : (withLinks top links).lookup k = top.lookup k := by
  cases links with
  | nil => rfl
  | cons link links => simp [withLinks, List.lookup_append, List.lookup_cons, beq_false_of_ne h]

theorem optional?_withLinks_of_ne {α : Type} {decode : Value → Option α} {k : String}
    (h : k ≠ "topology") (top : Entries) (links : List Entries) (default : α) :
    optional? decode (withLinks top links) k default = optional? decode top k default := by
  rw [optional?, lookup_withLinks_of_ne h, optional?]

theorem mem_withLinks {top : Entries} {links : List Entries} {e : String × Value}
    (h : e ∈ withLinks top links) : e ∈ top ∨ e.1 = "topology" := by
  cases links with
  | nil => exact .inl h
  | cons link links =>
    rcases List.mem_append.mp h with old | new
    · exact .inl old
    · exact .inr (congrArg Prod.fst (List.mem_singleton.mp new))

/-- Of a key that stands last, only the value changes. -/
theorem put_last {es : Entries} {k : String} (h : es.lookup k = none) (old new : Value) :
    put (es ++ [(k, old)]) k new = es ++ [(k, new)] := by
  have found : (es ++ [(k, old)]).lookup k = some old := by simp [List.lookup_append, h]
  have others : es.map (fun e => if e.1 = k then (k, new) else e) = es := by
    rw [lookup_eq_none_iff] at h
    refine (List.map_congr_left fun e he => if_neg ?_).trans (List.map_id es)
    rintro rfl
    exact h (List.mem_map_of_mem he)
  rw [put, found, Option.isSome_some, if_pos rfl, replace, List.map_append, others]
  simp

theorem addSection?_withLinks {top : Entries} (h : top.lookup "topology" = none)
    (links : List Entries) (body : List Assignment) :
    addSection? (withLinks top links) ⟨⟨true, ⟨["topology"], "links"⟩⟩, body⟩ =
      (assignAll? [] body).map fun link => withLinks top (links ++ [link]) := by
  cases links with
  | nil =>
    simp [addSection?, withLinks, along?, open?, h, put, Option.map_map, Function.comp_def]
  | cons first links =>
    have found (v : Value) : (top ++ [("topology", v)]).lookup "topology" = some v := by
      simp [List.lookup_append, h]
    have inner (old new : Value) : put [("links", old)] "links" new = [("links", new)] :=
      @put_last [] "links" rfl old new
    simp only [withLinks_concat]
    simp [addSection?, withLinks, along?, open?, found, put_last h, inner, Option.map_map,
      Function.comp_def]

/-- Each section becomes one further table of links, and none can be read if one cannot. -/
theorem foldlM_addSection? {top : Entries} (h : top.lookup "topology" = none)
    (links : List Entries) (bodies : List (List Assignment)) :
    (bodies.map (Section.mk ⟨true, ⟨["topology"], "links"⟩⟩)).foldlM addSection? (withLinks top links) =
      (bodies.mapM (assignAll? [])).map fun more => withLinks top (links ++ more) := by
  induction bodies generalizing links with
  | nil => simp
  | cons body bodies ih =>
    rw [List.map_cons, List.foldlM_cons, List.mapM_cons, addSection?_withLinks h]
    cases assignAll? [] body with
    | none => rfl
    | some link =>
      have rest := ih (links ++ [link])
      simp only [List.append_assoc, List.singleton_append] at rest
      show (List.map _ _).foldlM addSection? (withLinks top (links ++ [link])) = _
      rw [rest]
      cases bodies.mapM (assignAll? []) <;> rfl

end Entries

end PluginBroker.Toml
