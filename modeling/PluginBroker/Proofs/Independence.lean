import PluginBroker.Proofs.Custody

/-! Two plugins at work at the same time.  If neither registers what the other one owns or registers,
and no shelf gets new contexts from both, then it does not matter how their operations are
interleaved: each plugin is answered as if it were alone, and every shelf, every owned list and every
owner comes out the same. -/

namespace PluginBroker

/-- A merge of two lists that keeps the order of each. -/
inductive Interleaves {α : Type} : List α → List α → List α → Prop
  | nil : Interleaves [] [] []
  | left {a : α} {as bs cs : List α} (h : Interleaves as bs cs) : Interleaves (a :: as) bs (a :: cs)
  | right {b : α} {as bs cs : List α} (h : Interleaves as bs cs) :
    Interleaves as (b :: bs) (b :: cs)

/-- Whether the operation asks for a context to be put on the shelf. -/
def Op.fills : Op → Category → String → Prop
  | .register _ _ i, c, name => i.category = c ∧ i.name = name
  | _, _, _ => False

/-! ### Rolls that look alike -/

namespace Roll

variable {r s t : Roll} {d e : Entry}

/-- The entries of a shelf, oldest first. -/
def onShelf (r : Roll) (c : Category) (name : String) : Roll :=
  r.filter fun e => e.category = c ∧ e.name = name

/-- Two rolls have the same entries on every shelf and for every owner, in the same order.  Entries
that share neither shelf nor owner may stand in another order. -/
structure Alike (r s : Roll) : Prop where
  shelves : ∀ c name, s.onShelf c name = r.onShelf c name
  owners : ∀ p, s.ofOwner p = r.ofOwner p

theorem Alike.refl (r : Roll) : r.Alike r := ⟨fun _ _ => rfl, fun _ => rfl⟩

theorem Alike.symm (h : r.Alike s) : s.Alike r :=
  ⟨fun c name => (h.shelves c name).symm, fun p => (h.owners p).symm⟩

theorem Alike.trans (h : r.Alike s) (h' : s.Alike t) : r.Alike t :=
  ⟨fun c name => (h'.shelves c name).trans (h.shelves c name),
    fun p => (h'.owners p).trans (h.owners p)⟩

theorem Alike.mem_iff (h : r.Alike s) : e ∈ s ↔ e ∈ r := by
  have owned := congrArg (e ∈ ·) (h.owners e.owner)
  simpa only [mem_ofOwner, and_true, eq_iff_iff] using owned

theorem Alike.concat (h : r.Alike s) (e : Entry) : Alike (r ++ [e]) (s ++ [e]) := by
  constructor
  · intro c name
    have same := h.shelves c name
    unfold onShelf at same ⊢
    rw [List.filter_append, List.filter_append, same]
  · intro p
    have same := h.owners p
    unfold ofOwner at same ⊢
    rw [List.filter_append, List.filter_append, same]

theorem Alike.filter (h : r.Alike s) (keep : Entry → Bool) :
    Alike (r.filter keep) (s.filter keep) := by
  constructor
  · intro c name
    have same := h.shelves c name
    unfold onShelf at same ⊢
    rw [List.filter_comm, same, List.filter_comm]
  · intro p
    have same := h.owners p
    unfold ofOwner at same ⊢
    rw [List.filter_comm, same, List.filter_comm]

/-- Two new entries that share neither shelf nor owner may come in either order. -/
theorem alike_swap (r : Roll) (howner : d.owner ≠ e.owner)
    (hshelf : ¬(d.category = e.category ∧ d.name = e.name)) :
    Alike (r ++ [d] ++ [e]) (r ++ [e] ++ [d]) := by
  -- a filter that lets at most one of the two through cannot tell the order
  have swap (keep : Entry → Bool) (h : keep d = false ∨ keep e = false) :
      (r ++ [e] ++ [d]).filter keep = (r ++ [d] ++ [e]).filter keep := by
    simp only [List.filter_append, List.append_assoc]
    rcases h with h | h <;> simp [h]
  constructor
  · intro c name
    refine swap _ ?_
    by_cases hd : d.category = c ∧ d.name = name
    · have he : ¬(e.category = c ∧ e.name = name) := by
        rintro ⟨hc, hn⟩
        exact hshelf ⟨hd.1.trans hc.symm, hd.2.trans hn.symm⟩
      exact .inr (decide_eq_false he)
    · exact .inl (decide_eq_false hd)
  · intro p
    refine swap _ ?_
    by_cases hd : d.owner = p
    · exact .inr (decide_eq_false fun he => howner (hd.trans he.symm))
    · exact .inl (decide_eq_false hd)

end Roll

/-! ### What one plugin's operation does to the roll -/

/-- What an operation of a plugin does to the roll `r`, and to any other that it is noted on: it puts
an entry of the plugin at the end, or it strikes nothing but entries of the plugin. -/
inductive Roll.Effect (p : PluginId) (r : Roll) (op : Op) (a : Answer) : Prop
  | appends (e : Entry) (owner : e.owner = p) (offers : op.offers e.context)
    (fills : op.fills e.category e.name) (note : ∀ s : Roll, s.note op a = s ++ [e])
  | strikes (keep : Entry → Bool)
    (own : ∀ e, keep e = false → e.owner = p ∨ ∃ d ∈ r, d.owner = p ∧ d.context = e.context)
    (note : ∀ s : Roll, s.note op a = s.filter keep)

/-- Two scripts on behalf of two plugins keep clear of each other: no context is offered by both, or
offered by the one and owned by the plugin of the other, and no shelf is filled by both. -/
structure Broker.Independent (b : Broker) (p q : PluginId) (ps qs : List Op) : Prop where
  ne : p ≠ q
  left : ∀ x ∈ ps, x.actor? = some p
  right : ∀ y ∈ qs, y.actor? = some q
  contexts : ∀ x ∈ ps, ∀ y ∈ qs, ∀ v, x.offers v → ¬ y.offers v
  shelves : ∀ x ∈ ps, ∀ y ∈ qs, ∀ c name, x.fills c name → ¬ y.fills c name
  leftOffers : ∀ x ∈ ps, ∀ v, x.offers v → b.ownerOf? v ≠ some q
  rightOffers : ∀ y ∈ qs, ∀ v, y.offers v → b.ownerOf? v ≠ some p

namespace Broker

variable {b : Broker} {r : Roll} {p q : PluginId} {ps qs : List Op}

theorem Independent.symm (h : b.Independent p q ps qs) : b.Independent q p qs ps where
  ne := h.ne.symm
  left := h.right
  right := h.left
  contexts y hy x hx v hyv hxv := h.contexts x hx y hy v hxv hyv
  shelves y hy x hx c name hyc hxc := h.shelves x hx y hy c name hxc hyc
  leftOffers := h.rightOffers
  rightOffers := h.leftOffers

theorem Matches.ownerOf?_ne_iff (h : b.Matches r) {v : Context} :
    b.ownerOf? v ≠ some p ↔ ∀ e ∈ r, e.context = v → e.owner ≠ p := by
  rw [Ne, h.ownerOf?_iff]
  simp only [Roll.mem_ofOwner, not_exists, not_and, and_imp]
  exact forall₂_congr fun e _ => ⟨fun hp hv ho => hp ho hv, fun hp ho hv => hp hv ho⟩

end Broker

namespace Roll

variable {r : Roll} {p q : PluginId} {op x y : Op} {a a' : Answer} {ps qs : List Op}

theorem Effect.ofOwner_note (h : r.Effect p op a) (hd : r.Distinct) (hq : q ≠ p) :
    (r.note op a).ofOwner q = r.ofOwner q := by
  cases h with
  | appends e owner offers fills note =>
    rw [note, ofOwner, ofOwner, List.filter_append]
    simp [owner, hq.symm]
  | strikes keep own note =>
    rw [note, ofOwner, ofOwner, List.filter_filter]
    refine List.filter_congr fun e he => ?_
    by_cases hk : keep e = true
    · simp [hk]
    · have owner : e.owner = p := by
        rcases own e (Bool.eq_false_iff.mpr hk) with ho | ⟨d, hdr, ho, hc⟩
        · exact ho
        · exact hd.eq_of_context hdr he hc ▸ ho
      simp [owner, hq.symm]

/-- A context that the operation does not offer and that the plugin does not own is registered
afterwards if it was before. -/
theorem Effect.registered_note_iff (h : r.Effect p op a) {v : Context} (hv : ¬ op.offers v)
    (hp : ∀ e ∈ r, e.context = v → e.owner ≠ p) :
    (∃ e ∈ r.note op a, e.context = v) ↔ ∃ e ∈ r, e.context = v := by
  cases h with
  | appends e owner offers fills note =>
    have other : e.context ≠ v := by
      rintro rfl
      exact hv offers
    simp [note, or_and_right, exists_or, other]
  | strikes keep own note =>
    simp only [note, List.mem_filter]
    constructor
    · rintro ⟨e, ⟨he, -⟩, hev⟩
      exact ⟨e, he, hev⟩
    · rintro ⟨e, he, hev⟩
      refine ⟨e, ⟨he, ?_⟩, hev⟩
      by_contra hk
      rcases own e (Bool.eq_false_iff.mpr hk) with ho | ⟨d, hd, ho, hc⟩
      · exact hp e he hev ho
      · exact hp d hd (hc.trans hev) ho

end Roll

namespace Broker

variable {b : Broker} {r : Roll} {p q : PluginId} {x y : Op} {a a' : Answer} {ps qs : List Op}

theorem Independent.kept (ind : b.Independent p q ps qs) (h : b.Matches r) (hx : x ∈ ps)
    {keep : Entry → Bool}
    (own : ∀ e, keep e = false → e.owner = q ∨ ∃ d ∈ r, d.owner = q ∧ d.context = e.context)
    {e : Entry} (owner : e.owner = p) (offers : x.offers e.context) : keep e = true := by
  -- what is struck was owned by the other plugin, and its contexts are not offered
  by_contra hk
  rcases own e (Bool.eq_false_iff.mpr hk) with ho | ⟨d, hd, ho, hc⟩
  · exact ind.ne (owner.symm.trans ho)
  · exact h.ownerOf?_ne_iff.mp (ind.leftOffers x hx e.context offers) d hd hc ho

/-- Two operations of independent scripts leave rolls that look alike, whichever comes first. -/
theorem Independent.note_comm (ind : b.Independent p q ps qs) (h : b.Matches r) (hx : x ∈ ps)
    (hy : y ∈ qs) (ex : r.Effect p x a) (ey : r.Effect q y a') :
    ((r.note x a).note y a').Alike ((r.note y a').note x a) := by
  cases ex with
  | appends d owner offers fills note =>
    cases ey with
    | appends e owner' _ fills' note' =>
      rw [note, note', note', note]
      refine Roll.alike_swap r ?_ ?_
      · rw [owner, owner']
        exact ind.ne
      · rintro ⟨hc, hn⟩
        exact ind.shelves x hx y hy d.category d.name fills (hc ▸ hn ▸ fills')
    | strikes keep own note' =>
      rw [note, note', note', note, List.filter_append, List.filter_singleton,
        ind.kept h hx own owner offers]
      exact .refl _
  | strikes keep own note =>
    cases ey with
    | appends e owner offers _ note' =>
      rw [note, note', note', note, List.filter_append, List.filter_singleton,
        ind.symm.kept h hy own owner offers]
      exact .refl _
    | strikes keep' _ note' =>
      rw [note, note', note', note, List.filter_comm]
      exact .refl _

end Broker

namespace Session

variable {s t : Session} {r r' : Roll} {p q : PluginId} {op x y : Op} {ps qs ops : List Op}

theorem profiles_step_of_actor? (s : Session) (hop : op.actor? = some p) :
    (s.step op).session.profiles = s.profiles := by
  refine s.step_profiles ?_
  cases op with
  | report => cases hop
  | _ => rfl

theorem trust_step_of_actor? (s : Session) (hop : op.actor? = some p) :
    (s.step op).session.broker.trust = s.broker.trust := by
  rw [step_trust]
  cases op with
  | setToken | bind => cases hop
  | _ => rfl

theorem run_of_actor? (s : Session) (hops : ∀ op ∈ ops, ∃ p, op.actor? = some p) :
    (s.run ops).profiles = s.profiles ∧ (s.run ops).broker.trust = s.broker.trust := by
  induction ops generalizing s with
  | nil => exact ⟨rfl, rfl⟩
  | cons op ops ih =>
    obtain ⟨⟨p, hop⟩, hrest⟩ := List.forall_mem_cons.mp hops
    obtain ⟨profiles, trust⟩ := ih (s.step op).session hrest
    exact ⟨profiles.trans (s.profiles_step_of_actor? hop), trust.trans (s.trust_step_of_actor? hop)⟩

theorem effect_step (h : s.broker.Matches r) (hop : op.actor? = some p) :
    r.Effect p op (s.step op).answer := by
  have unchanged (hn : ∀ r : Roll, r.note op (s.step op).answer = r) :
      r.Effect p op (s.step op).answer :=
    .strikes (fun _ => true) (fun _ hk => by cases hk) fun r => by rw [hn r, List.filter_true]
  cases op with
  | register q v i =>
    obtain rfl := Option.some.inj hop
    cases ha : (s.broker.register s.profiles q v i).answer with
    | error refusal => exact unchanged fun r => by simp only [step, replied, ha, Roll.note]
    | ok _ =>
      refine .appends ⟨q, i.category, i.name, v⟩ rfl rfl ⟨rfl, rfl⟩ fun r => ?_
      simp only [step, replied, ha, Roll.note]
  | unregister q v =>
    obtain rfl := Option.some.inj hop
    cases ha : (s.broker.unregister q v).answer with
    | false => exact unchanged fun r => by simp only [step, replied, ha, Roll.note]
    | true =>
      refine .strikes (·.context ≠ v) ?_ fun r => by simp only [step, replied, ha, Roll.note]; rfl
      intro e he
      obtain rfl : e.context = v := by simpa using he
      -- that it was taken out means that the plugin owns it
      by_cases ho : s.broker.ownership.owns q e.context = true
      · exact .inr ((h.ownership.owns_iff h.distinct).mp ho)
      · rw [Broker.unregister_of_not_owns ho] at ha
        cases ha
  | unregisterUnder q i =>
    obtain rfl := Option.some.inj hop
    cases ha : (s.broker.unregisterUnder q i).answer with
    | false => exact unchanged fun r => by simp only [step, replied, ha, Roll.note]
    | true =>
      refine .strikes (fun e => ¬(e.owner = q ∧ e.category = i.category ∧ e.name = i.name)) ?_
        fun r => by simp only [step, replied, ha, Roll.note]; rfl
      intro e he
      simp only [decide_eq_false_iff_not, not_not] at he
      exact .inl he.1
  | _ => cases hop

/-! ### Both orders of two operations -/

/-- A plugin's operation is answered alike by brokers in which the plugin has the same entries and
the contexts that it offers are both registered or both not. -/
theorem step_answer_congr (hs : s.broker.Matches r) (ht : t.broker.Matches r')
    (hprofiles : t.profiles = s.profiles) (hop : op.actor? = some p)
    (howner : r'.ofOwner p = r.ofOwner p)
    (hoffers : ∀ v, op.offers v → ((∃ e ∈ r', e.context = v) ↔ ∃ e ∈ r, e.context = v)) :
    (t.step op).answer = (s.step op).answer := by
  cases op with
  | register q v i =>
    have owned : t.broker.ownership.isOwned v = s.broker.ownership.isOwned v := by
      rw [Bool.eq_iff_iff, ht.ownership.isOwned_iff, hs.ownership.isOwned_iff]
      exact hoffers v rfl
    simp only [step, replied, Broker.register_answer, hprofiles, Broker.admission_congr owned]
  | unregister q v =>
    obtain rfl := Option.some.inj hop
    have owns : t.broker.ownership.owns q v = s.broker.ownership.owns q v := by
      rw [Ownership.owns, Ownership.owns, Bool.eq_iff_iff, beq_iff_eq, beq_iff_eq]
      have same := ht.ownerOf?_iff (p := q) (v := v)
      rw [howner, ← hs.ownerOf?_iff] at same
      exact same
    simp only [step, replied, ht.unregister_answer, hs.unregister_answer, owns]
  | unregisterUnder q i =>
    obtain rfl := Option.some.inj hop
    have taken : (t.broker.unregisterUnder q i).answer = (s.broker.unregisterUnder q i).answer := by
      rw [Bool.eq_iff_iff, ht.unregisterUnder_answer_iff, hs.unregisterUnder_answer_iff,
        Roll.under_eq_filter, Roll.under_eq_filter, howner]
    simp only [step, replied, taken]
  | _ => cases hop

theorem independent_step (h : s.broker.Matches r) (ind : s.broker.Independent p q (x :: ps) qs) :
    (s.step x).session.broker.Independent p q ps qs where
  ne := ind.ne
  left op hop := ind.left op (.tail _ hop)
  right := ind.right
  contexts op hop := ind.contexts op (.tail _ hop)
  shelves op hop := ind.shelves op (.tail _ hop)
  leftOffers op hop v hv := by
    rw [(matches_step h x).ownerOf?_ne_iff]
    intro e he hev
    rcases Roll.mem_note he with hold | ⟨i, rfl, -, -, -⟩
    · exact h.ownerOf?_ne_iff.mp (ind.leftOffers op (.tail _ hop) v hv) e hold hev
    · -- a new entry belongs to the plugin whose operation it was
      have owner : e.owner = p := Option.some.inj (ind.left _ (.head _))
      rw [owner]
      exact ind.ne
  rightOffers op hop v hv := by
    rw [(matches_step h x).ownerOf?_ne_iff]
    intro e he hev
    rcases Roll.mem_note he with hold | ⟨i, rfl, -, -, -⟩
    · exact h.ownerOf?_ne_iff.mp (ind.rightOffers op hop v hv) e hold hev
    · exact absurd (hev ▸ hv) (ind.contexts _ (.head _) op hop _ rfl)

/-- Of two operations of independent scripts, the one is answered alike before and after the
other. -/
theorem step_answer_comm (h : s.broker.Matches r) (ind : s.broker.Independent p q ps qs)
    (hx : x ∈ ps) (hy : y ∈ qs) : ((s.step y).session.step x).answer = (s.step x).answer := by
  have effect := effect_step h (ind.right y hy)
  refine step_answer_congr h (matches_step h y) (s.profiles_step_of_actor? (ind.right y hy))
    (ind.left x hx) (effect.ofOwner_note h.distinct ind.ne) ?_
  intro v hv
  exact effect.registered_note_iff (ind.contexts x hx y hy v hv)
    (h.ownerOf?_ne_iff.mp (ind.leftOffers x hx v hv))

/-- A plugin's script is answered alike where the rolls look alike, and they still do afterwards. -/
theorem run_congr (hs : s.broker.Matches r) (ht : t.broker.Matches r')
    (hprofiles : t.profiles = s.profiles) (alike : r.Alike r')
    (hops : ∀ op ∈ ops, op.actor? = some p) :
    t.answers ops = s.answers ops ∧ (s.follow r ops).Alike (t.follow r' ops) := by
  induction ops generalizing s t r r' with
  | nil => exact ⟨rfl, alike⟩
  | cons op ops ih =>
    obtain ⟨hop, hrest⟩ := List.forall_mem_cons.mp hops
    have answer : (t.step op).answer = (s.step op).answer := by
      refine step_answer_congr hs ht hprofiles hop (alike.owners p) fun v _ => ?_
      simp only [alike.mem_iff]
    have after : (r.note op (s.step op).answer).Alike (r'.note op (t.step op).answer) := by
      rw [answer]
      cases effect_step hs hop with
      | appends e _ _ _ note =>
        rw [note, note]
        exact alike.concat e
      | strikes keep _ note =>
        rw [note, note]
        exact alike.filter keep
    have profiles : (t.step op).session.profiles = (s.step op).session.profiles := by
      rw [profiles_step_of_actor? t hop, profiles_step_of_actor? s hop, hprofiles]
    obtain ⟨answers, rolls⟩ := ih (matches_step hs op) (matches_step ht op) profiles after hrest
    rw [answers_cons, answers_cons, answer, answers]
    exact ⟨rfl, rolls⟩

/-! ### One operation past a script, and one script past another -/

/-- An operation of the one plugin may come before or after the whole script of the other. -/
theorem run_step_comm (h : s.broker.Matches r) (ind : s.broker.Independent p q ps qs)
    (hy : y ∈ qs) :
    (s.step y).session.answers ps = s.answers ps ∧
    ((s.run ps).step y).answer = (s.step y).answer ∧
    ((s.follow r ps).note y (s.step y).answer).Alike
      ((s.step y).session.follow (r.note y (s.step y).answer) ps) := by
  induction ps generalizing s r with
  | nil => exact ⟨rfl, rfl, .refl _⟩
  | cons x ps ih =>
    have hx : x ∈ x :: ps := .head _
    have actorX := ind.left x hx
    have actorY := ind.right y hy
    -- the operation passes the first one of the script, and by induction the others
    have answerX := step_answer_comm h ind hx hy
    have answerY := step_answer_comm h ind.symm hy hx
    have swapped := ind.note_comm h hx hy (effect_step h actorX) (effect_step h actorY)
    obtain ⟨answers, answer, rolls⟩ := ih (matches_step h x) (independent_step h ind)
    rw [answerY] at answer rolls
    -- after both, the rest of the script goes on from rolls that look alike
    have profiles : ((s.step y).session.step x).session.profiles =
        ((s.step x).session.step y).session.profiles := by
      rw [profiles_step_of_actor? _ actorX, profiles_step_of_actor? _ actorY,
        profiles_step_of_actor? _ actorY, profiles_step_of_actor? _ actorX]
    have matchedXY := matches_step (matches_step h x) y
    have matchedYX := matches_step (matches_step h y) x
    rw [answerY] at matchedXY
    rw [answerX] at matchedYX
    obtain ⟨answers', rolls'⟩ := run_congr matchedXY matchedYX profiles swapped
      fun op hop => ind.left op (.tail _ hop)
    refine ⟨?_, answer, ?_⟩
    · rw [answers_cons, answers_cons, answerX, answers', answers]
    · rw [follow_cons, follow_cons, answerX]
      exact rolls.trans rolls'

/-- The answers to the operations on behalf of a plugin, in order. -/
def answersFor (s : Session) (p : PluginId) (ops : List Op) : List Answer :=
  ((s.transcript ops).filter (·.1.actor? = some p)).map (·.2)

theorem answersFor_cons_self (hop : op.actor? = some p) : s.answersFor p (op :: ops) =
    (s.step op).answer :: (s.step op).session.answersFor p ops := by
  simp [answersFor, transcript_cons, hop]

theorem answersFor_cons_of_ne (hop : op.actor? = some q) (hq : q ≠ p) :
    s.answersFor p (op :: ops) = (s.step op).session.answersFor p ops := by
  simp [answersFor, transcript_cons, hop, hq]

/-- However two independent scripts are interleaved, each is answered as if it were alone, and the
roll looks like that of running the one after the other. -/
theorem run_of_interleaves (h : s.broker.Matches r) (ind : s.broker.Independent p q ps qs)
    (hi : Interleaves ps qs ops) :
    s.answersFor p ops = s.answers ps ∧ s.answersFor q ops = s.answers qs ∧
    (s.follow r (ps ++ qs)).Alike (s.follow r ops) := by
  induction hi generalizing s r with
  | nil => exact ⟨rfl, rfl, .refl _⟩
  | @left x ps qs ops _ ih =>
    have actor := ind.left x (.head _)
    obtain ⟨left, right, rolls⟩ := ih (matches_step h x) (independent_step h ind)
    obtain ⟨passed, -, -⟩ := run_step_comm h ind.symm (.head _ : x ∈ x :: ps)
    refine ⟨?_, ?_, rolls⟩
    · rw [answersFor_cons_self actor, left, answers_cons]
    · rw [answersFor_cons_of_ne actor ind.ne, right, passed]
  | @right y ps qs ops _ ih =>
    have actor := ind.right y (.head _)
    obtain ⟨left, right, rolls⟩ := ih (matches_step h y) (independent_step h ind.symm).symm
    obtain ⟨passed, answer, swapped⟩ := run_step_comm h ind (.head _ : y ∈ y :: qs)
    refine ⟨?_, ?_, ?_⟩
    · rw [answersFor_cons_of_ne actor ind.ne.symm, left, passed]
    · rw [answersFor_cons_self actor, right, answers_cons]
    · rw [follow_cons]
      refine Roll.Alike.trans ?_ rolls
      -- the rest of the other script goes on from rolls that look alike
      have matched := matches_step (matches_follow h ps) y
      rw [answer] at matched
      have profiles : ((s.step y).session.run ps).profiles =
          ((s.run ps).step y).session.profiles := by
        have hps : ∀ op ∈ ps, ∃ p, op.actor? = some p := fun op hop => ⟨p, ind.left op hop⟩
        rw [(run_of_actor? _ hps).1, profiles_step_of_actor? _ actor,
          profiles_step_of_actor? _ actor, (run_of_actor? _ hps).1]
      have rest : ∀ op ∈ qs, op.actor? = some q := fun op hop => ind.right op (.tail _ hop)
      rw [follow_append, follow_append, follow_cons, answer]
      exact (run_congr matched (matches_follow (matches_step h y) ps) profiles swapped rest).2

end Session

/-- Two brokers have the same contexts on every shelf and in every owned list, in the same order, the
same owner for every context, and the same trust and policy. -/
structure Broker.SameContent (b d : Broker) : Prop where
  shelves : ∀ c name, d.catalog.shelf c name = b.catalog.shelf c name
  lists : ∀ p, d.contextsOf p = b.contextsOf p
  owners : ∀ v, d.ownerOf? v = b.ownerOf? v
  trust : d.trust = b.trust
  compilerGated : d.compilerGated = b.compilerGated

theorem Broker.Matches.sameContent {b d : Broker} {r r' : Roll} (h : b.Matches r)
    (h' : d.Matches r') (alike : r.Alike r') (trust : d.trust = b.trust)
    (gated : d.compilerGated = b.compilerGated) : b.SameContent d where
  shelves c name := by
    rw [h.catalog.shelf, h'.catalog.shelf]
    exact congrArg (List.map _) (alike.shelves c name)
  lists p := by
    rw [contextsOf, contextsOf, h.ownership.contextsOf, h'.ownership.contextsOf]
    exact congrArg (List.map _) (alike.owners p)
  owners v := by
    refine Option.ext fun p => ?_
    rw [h.ownerOf?_iff, h'.ownerOf?_iff, alike.owners]
  trust := trust
  compilerGated := gated

theorem Interleaves.mem_or {α : Type} {as bs cs : List α} (h : Interleaves as bs cs) :
    ∀ c ∈ cs, c ∈ as ∨ c ∈ bs := by
  induction h with
  | nil => simp
  | left _ ih =>
    refine List.forall_mem_cons.mpr ⟨.inl (.head _), fun c hc => ?_⟩
    exact (ih c hc).imp_left (.tail _)
  | right _ ih =>
    refine List.forall_mem_cons.mpr ⟨.inr (.head _), fun c hc => ?_⟩
    exact (ih c hc).imp_right (.tail _)

/-- In whatever state a run has left the broker, all interleavings of two independent scripts give
every operation the same answer, which is the one that it gets if its script is run alone, and end
with the same content. -/
theorem Session.run_interleaved (gated : Bool) (start : List Op) (p q : PluginId)
    (ps qs : List Op) (ind : ((fresh gated).run start).broker.Independent p q ps qs)
    (ops ops' : List Op) (hi : Interleaves ps qs ops) (hi' : Interleaves ps qs ops') :
    let s := (fresh gated).run start
    (s.answersFor p ops = s.answersFor p ops' ∧ s.answersFor q ops = s.answersFor q ops') ∧
    (s.answersFor p ops = s.answers ps ∧ s.answersFor q ops = s.answers qs) ∧
    (s.run ops).broker.SameContent (s.run ops').broker := by
  intro s
  have matched : s.broker.Matches (roll gated start) := matches_roll gated start
  obtain ⟨left, right, rolls⟩ := run_of_interleaves matched ind hi
  obtain ⟨left', right', rolls'⟩ := run_of_interleaves matched ind hi'
  refine ⟨⟨left.trans left'.symm, right.trans right'.symm⟩, ⟨left, right⟩, ?_⟩
  have trust {ops : List Op} (hi : Interleaves ps qs ops) :
      (s.run ops).broker.trust = s.broker.trust := by
    refine (s.run_of_actor? fun op hop => ?_).2
    rcases hi.mem_or op hop with hm | hm
    · exact ⟨p, ind.left op hm⟩
    · exact ⟨q, ind.right op hm⟩
  have policy (ops : List Op) : (s.run ops).broker.compilerGated = gated := by
    rw [← run_append, run_compilerGated]
  exact (matches_follow matched ops).sameContent (matches_follow matched ops') (rolls.symm.trans rolls')
    ((trust hi').trans (trust hi).symm) ((policy ops').trans (policy ops).symm)

/-- Two plugins clear, refill and raid shelves that they share, at once. -/
theorem Session.shared_shelf_interleaved :
    let report (n : Nat) (c : Category) : Op := .report ⟨n⟩ { interfaces := [.root c] }
    let register (p n : Nat) (c : Category) : Op := .register ⟨.ofNat p⟩ ⟨n⟩ (.root c)
    let start := [report 0 .memory, report 1 .memory, report 2 .cpu, report 3 .memory,
      register 1 0 .memory, register 2 1 .memory, register 3 3 .memory]
    let ps := [.unregister ⟨1⟩ ⟨0⟩, register 1 0 .memory, .unregister ⟨1⟩ ⟨1⟩, register 1 3 .memory]
    let qs := [.unregister ⟨2⟩ ⟨0⟩, .unregisterUnder ⟨2⟩ (.root .memory), register 2 2 .cpu,
      register 2 1 .device]
    let s := (fresh false).run start
    let merged := [.unregister ⟨1⟩ ⟨0⟩, .unregister ⟨2⟩ ⟨0⟩, register 1 0 .memory,
      .unregisterUnder ⟨2⟩ (.root .memory), register 2 2 .cpu, .unregister ⟨1⟩ ⟨1⟩,
      register 1 3 .memory, register 2 1 .device]
    s.broker.Independent ⟨1⟩ ⟨2⟩ ps qs ∧ Interleaves ps qs (ps ++ qs) ∧ Interleaves ps qs merged ∧
    s.answersFor ⟨1⟩ (ps ++ qs) = s.answersFor ⟨1⟩ merged ∧
    (s.run (ps ++ qs)).broker.catalog.shelf .memory "MemoryContext" = [⟨3⟩, ⟨0⟩] ∧
    (s.run (ps ++ qs)).broker.SameContent (s.run merged).broker := by
  intro report register start ps qs s merged
  have ind : s.broker.Independent ⟨1⟩ ⟨2⟩ ps qs := by
    refine ⟨by decide, by simp [ps, register, Op.actor?], by simp [qs, register, Op.actor?], ?_, ?_,
      ?_, ?_⟩
    · simp [ps, qs, register, Op.offers]
    · simp [ps, qs, register, Op.fills, Interface.category]
    · have owners : s.broker.ownerOf? ⟨0⟩ = some ⟨1⟩ ∧ s.broker.ownerOf? ⟨3⟩ = some ⟨3⟩ := by decide
      simp [ps, register, Op.offers, owners]
    · have owners : s.broker.ownerOf? ⟨1⟩ = some ⟨2⟩ ∧ s.broker.ownerOf? ⟨2⟩ = none := by decide
      simp [qs, register, Op.offers, owners]
  have appended : Interleaves ps qs (ps ++ qs) :=
    .left (.left (.left (.left (.right (.right (.right (.right .nil)))))))
  have mixed : Interleaves ps qs merged :=
    .left (.right (.left (.right (.right (.left (.left (.right .nil)))))))
  obtain ⟨⟨left, -⟩, -, content⟩ :=
    run_interleaved false start ⟨1⟩ ⟨2⟩ ps qs ind (ps ++ qs) merged appended mixed
  exact ⟨ind, appended, mixed, left, by decide, content⟩

end PluginBroker
