import PluginBroker.Interface.Fingerprint
import PluginBroker.Proofs.Bootstrap

/-! What the canonical text tells of the parameters of one method among others.  The text ends every
parameter with a comma and escapes nothing, so it tells the stretches between commas, and the
parameters themselves as far as no comma stands inside one. -/

namespace PluginBroker

/-! ### Parameters -/

namespace Method

/-- The parameters as the canonical text has them. -/
def paramText (params : List String) : List Char := params.flatMap fun p => p.toList ++ [',']

/-- The parameters cut wherever a comma stands in one. -/
def pieces (params : List String) : List (List Char) := params.flatMap fun p => p.toList.splitOn ','

theorem splitOn_paramText (params : List String) :
    (paramText params).splitOn ',' = pieces params ++ [[]] := by
  induction params with
  | nil => rfl
  | cons p ps ih =>
    have hcons : paramText (p :: ps) = p.toList ++ ',' :: paramText ps := by simp [paramText]
    rw [hcons, List.splitOn_append_cons_self, ih, ← List.append_assoc]
    rfl

theorem paramText_eq_iff {ps qs : List String} :
    paramText ps = paramText qs ↔ pieces ps = pieces qs := by
  constructor
  · intro h
    have hsplit := congrArg (List.splitOn ',') h
    rw [splitOn_paramText, splitOn_paramText] at hsplit
    exact List.append_cancel_right hsplit
  · intro h
    -- a text is what its stretches give with commas between them
    calc paramText ps
      _ = [','].intercalate ((paramText ps).splitOn ',') := (List.intercalate_splitOn ',').symm
      _ = [','].intercalate ((paramText qs).splitOn ',') := by
        rw [splitOn_paramText, splitOn_paramText, h]
      _ = paramText qs := List.intercalate_splitOn ','

theorem pieces_of_comma_free {ps : List String} (h : ∀ p ∈ ps, ',' ∉ p.toList) :
    pieces ps = ps.map String.toList := by
  induction ps with
  | nil => rfl
  | cons p ps ih =>
    obtain ⟨hp, hps⟩ := List.forall_mem_cons.mp h
    show p.toList.splitOn ',' ++ pieces ps = p.toList :: ps.map String.toList
    rw [List.splitOn_eq_singleton hp, ih hps]
    rfl

/-- Without commas inside them, parameters are cut nowhere. -/
theorem pieces_eq_iff {ps qs : List String} (hp : ∀ p ∈ ps, ',' ∉ p.toList)
    (hq : ∀ q ∈ qs, ',' ∉ q.toList) : pieces ps = pieces qs ↔ ps = qs := by
  rw [pieces_of_comma_free hp, pieces_of_comma_free hq]
  exact (List.map_injective_iff.mpr fun _ _ => String.toList_inj.mp).eq_iff

theorem canonical_eq (m : Method) : m.canonical =
    (m.returns.toList ++ ' ' :: (m.name.toList ++ ['('])) ++ (paramText m.params ++ [')', ';']) := by
  simp [canonical, paramText]

end Method

/-! ### One method among others -/

/-- In any order of pairs of equal entries and one other pair, that pair has its place. -/
theorem eq_append_of_perm {α : Type} {before after : List α} {m n : α} {pairs : List (α × α)}
    (h : pairs.Perm (before.map (fun a => (a, a)) ++ (m, n) :: after.map fun a => (a, a))) :
    ∃ front back : List α,
      pairs = front.map (fun a => (a, a)) ++ (m, n) :: back.map fun a => (a, a) := by
  have mem : (m, n) ∈ pairs := h.mem_iff.mpr (by simp)
  obtain ⟨front, back, rfl⟩ := List.append_of_mem mem
  have rest : (front ++ back).Perm ((before ++ after).map fun a => (a, a)) := by
    rw [List.map_append]
    exact (List.perm_middle.symm.trans (h.trans List.perm_middle)).cons_inv
  have equal : ∀ a ∈ front ++ back, (a.1, a.1) = id a := by
    intro a ha
    obtain ⟨b, -, rfl⟩ := List.mem_map.mp (rest.mem_iff.mp ha)
    rfl
  refine ⟨front.map Prod.fst, back.map Prod.fst, ?_⟩
  rw [List.map_map, List.map_map]
  show _ = front.map (fun a => (a.1, a.1)) ++ (m, n) :: back.map fun a => (a.1, a.1)
  rw [List.map_congr_left fun a ha => equal a (List.mem_append_left _ ha),
    List.map_congr_left fun a ha => equal a (List.mem_append_right _ ha), List.map_id, List.map_id]

/-- The sorted list has a method where it has any other one of the same name in its stead. -/
theorem sortedByName_replace (before after : List Method) {m n : Method} (h : n.name = m.name) :
    ∃ front back, sortedByName (before ++ m :: after) = front ++ m :: back ∧
      sortedByName (before ++ n :: after) = front ++ n :: back := by
  -- both lists at once: pairs of methods of one name, with different ones at one place only
  let pairs := before.map (fun a => (a, a)) ++ (m, n) :: after.map fun a => (a, a)
  let sorted := pairs.mergeSort fun a b => decide (a.1.name ≤ b.1.name)
  have names : ∀ a ∈ pairs, a.2.name = a.1.name := by
    intro a ha
    simp only [pairs, List.mem_append, List.mem_cons, List.mem_map] at ha
    rcases ha with ⟨b, -, rfl⟩ | rfl | ⟨b, -, rfl⟩
    · rfl
    · exact h
    · rfl
  have left : sortedByName (before ++ m :: after) = sorted.map Prod.fst := by
    rw [List.map_mergeSort (s := fun a b : Method => decide (a.name ≤ b.name)) fun _ _ _ _ => rfl]
    simp [pairs, sortedByName, Function.comp_def]
  have right : sortedByName (before ++ n :: after) = sorted.map Prod.snd := by
    rw [List.map_mergeSort (s := fun a b : Method => decide (a.name ≤ b.name))]
    · simp [pairs, sortedByName, Function.comp_def]
    · intro a ha b hb
      rw [names a ha, names b hb]
  have hperm : sorted.Perm pairs := List.mergeSort_perm _ _
  obtain ⟨front, back, hsorted⟩ := eq_append_of_perm hperm
  exact ⟨front, back, by simp [left, hsorted, Function.comp_def],
    by simp [right, hsorted, Function.comp_def]⟩

theorem canonicalText_eq_iff {as bs : List Method} : canonicalText as = canonicalText bs ↔
    (sortedByName as).flatMap Method.canonical = (sortedByName bs).flatMap Method.canonical :=
  String.ofList_inj

theorem canonicalText_replace_iff (before after : List Method) (m : Method) (ps : List String) :
    canonicalText (before ++ { m with params := ps } :: after) =
        canonicalText (before ++ m :: after) ↔
      Method.pieces ps = Method.pieces m.params := by
  obtain ⟨front, back, hold, hnew⟩ :=
    sortedByName_replace before after (m := m) (n := { m with params := ps }) rfl
  rw [canonicalText_eq_iff, hold, hnew, ← Method.paramText_eq_iff]
  simp [Method.canonical_eq]

theorem ofMethods_eq_iff {as bs : List Method}
    (h : Sha256.CollisionFree [canonicalText as, canonicalText bs]) :
    Fingerprint.ofMethods as = Fingerprint.ofMethods bs ↔ canonicalText as = canonicalText bs := by
  constructor
  · intro heq
    exact h _ (by simp) _ (by simp) (congrArg Fingerprint.digest heq)
  · intro heq
    rw [Fingerprint.ofMethods, Fingerprint.ofMethods, heq]

/-- Other parameters for one method show in the canonical text, and in the fingerprint as far as no
two texts share a digest, exactly if they are cut by commas into other pieces; parameters without
commas are their own pieces. -/
theorem params_show_iff (before after : List Method) (m : Method) (ps : List String) :
    let old := before ++ m :: after
    let new := before ++ { m with params := ps } :: after
    (canonicalText new ≠ canonicalText old ↔ Method.pieces ps ≠ Method.pieces m.params) ∧
    (Sha256.CollisionFree [canonicalText new, canonicalText old] →
      (Fingerprint.ofMethods new ≠ Fingerprint.ofMethods old ↔
        Method.pieces ps ≠ Method.pieces m.params)) ∧
    ((∀ p ∈ ps, ',' ∉ p.toList) → (∀ p ∈ m.params, ',' ∉ p.toList) →
      (Method.pieces ps ≠ Method.pieces m.params ↔ ps ≠ m.params)) := by
  intro old new
  have text := canonicalText_replace_iff before after m ps
  refine ⟨not_congr text, ?_, ?_⟩
  · intro h
    exact not_congr ((ofMethods_eq_iff h).trans text)
  · intro hp hm
    exact not_congr (Method.pieces_eq_iff hp hm)

/-- A boundary between two parameters can be taken for a comma inside one. -/
theorem comma_hides_boundary : ¬ ∀ (before after : List Method) (m : Method) (ps : List String),
    ((before ++ m :: after).map (·.name)).Nodup → ps ≠ m.params →
      canonicalText (before ++ { m with params := ps } :: after) ≠
        canonicalText (before ++ m :: after) := by
  intro h
  apply h [] [] ⟨"put", "()", ["u8,u16"]⟩ ["u8", "u16"] (by decide) (by decide)
  rw [canonicalText_replace_iff]
  decide

end PluginBroker
