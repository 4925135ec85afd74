import Mathlib.Data.List.Induction
import PluginBroker.Proofs.Run

/-! Trust as a matter of history.  The first token of a run that is not empty is the one that counts,
a bind takes effect if it comes after that and presents a token of the same digest, and the graph in
force is that of the last bind that took effect.  Nothing else moves trust, and it never moves
back. -/

namespace PluginBroker

/-- No two of the texts share a digest. -/
def Sha256.CollisionFree (texts : List String) : Prop :=
  ∀ a ∈ texts, ∀ b ∈ texts, hashText a = hashText b → a = b

/-! ### The history -/

namespace Op

/-- The token that an operation brings, to set it or to present it. -/
def tokens : Op → List String
  | .setToken token | .bind token _ => [token]
  | _ => []

/-- The token that an operation sets if none is set yet. -/
def newToken? : Op → Option String
  | .setToken token => if token = "" then none else some token
  | _ => none

end Op

namespace Session

variable {ops before : List Op} {op : Op} {presented : String} {graph : Graph}

/-- The token of the first attempt to set one that is not empty. -/
def firstToken? (ops : List Op) : Option String := ops.findSome? Op.newToken?

/-- After the operations a bind takes effect if it presents the token: a token was set, and it has
the same digest. -/
def Opens (ops : List Op) (presented : String) : Prop :=
  ∃ token, firstToken? ops = some token ∧ Sha256.hashText token = Sha256.hashText presented

/-- The run has a bind of the graph right after `before`, and it takes effect. -/
def BindsAt (ops before : List Op) (graph : Graph) : Prop :=
  ∃ presented, Opens before presented ∧ before ++ [.bind presented graph] <+: ops

/-- The graph is that of the last bind of the run that takes effect. -/
def LastBound (ops : List Op) (graph : Graph) : Prop :=
  ∃ before, BindsAt ops before graph ∧
    ∀ other graph', BindsAt ops other graph' → other.length ≤ before.length

theorem firstToken?_append (ops more : List Op) :
    firstToken? (ops ++ more) = (firstToken? ops).or (firstToken? more) :=
  List.findSome?_append

theorem firstToken?_mem {token : String} (h : firstToken? ops = some token) :
    token ∈ ops.flatMap Op.tokens := by
  obtain ⟨op, hop, ht⟩ := List.exists_of_findSome?_eq_some h
  refine List.mem_flatMap.mpr ⟨op, hop, ?_⟩
  cases op with
  | setToken t =>
    obtain ⟨-, rfl⟩ : ¬ t = "" ∧ t = token := by simpa [Op.newToken?] using ht
    simp [Op.tokens]
  | _ => cases ht

theorem opens_iff_of_collisionFree
    (h : Sha256.CollisionFree (presented :: ops.flatMap Op.tokens)) :
    Opens ops presented ↔ firstToken? ops = some presented := by
  constructor
  · rintro ⟨token, ht, hd⟩
    rw [ht, h token (.tail _ (firstToken?_mem ht)) presented (.head _) hd]
  · intro ht
    exact ⟨presented, ht, rfl⟩

theorem BindsAt.length_lt (h : BindsAt ops before graph) : before.length < ops.length := by
  obtain ⟨presented, -, hp⟩ := h
  have := hp.length_le
  simp at this
  omega

theorem not_bindsAt_nil : ¬ BindsAt [] before graph := by
  intro h
  exact Nat.not_lt_zero _ h.length_lt

theorem Opens.bindsAt (ho : Opens ops presented) (graph : Graph) :
    BindsAt (ops ++ [.bind presented graph]) ops graph :=
  ⟨presented, ho, List.prefix_refl _⟩

theorem bindsAt_concat : BindsAt (ops ++ [op]) before graph ↔ BindsAt ops before graph ∨
    before = ops ∧ ∃ presented, Opens ops presented ∧ op = .bind presented graph := by
  constructor
  · rintro ⟨presented, ho, hp⟩
    rcases List.prefix_concat_iff.mp hp with heq | hp
    · obtain ⟨rfl, hop⟩ := List.append_inj' heq rfl
      exact .inr ⟨rfl, presented, ho, (List.singleton_inj.mp hop).symm⟩
    · exact .inl ⟨presented, ho, hp⟩
  · rintro (⟨presented, ho, hp⟩ | ⟨rfl, presented, ho, rfl⟩)
    · exact ⟨presented, ho, hp.trans (List.prefix_append _ _)⟩
    · exact ho.bindsAt graph

theorem lastBound_concat_of_bind (ho : Opens ops presented) {graph' : Graph} :
    LastBound (ops ++ [.bind presented graph]) graph' ↔ graph = graph' := by
  constructor
  · rintro ⟨before, hb, hlast⟩
    rcases bindsAt_concat.mp hb with hb | ⟨-, presented', -, hop⟩
    · -- an earlier bind is not the last one: the newest comes after it
      have := hb.length_lt
      have := hlast ops graph (ho.bindsAt graph)
      omega
    · exact (Op.bind.inj hop).2
  · rintro rfl
    refine ⟨ops, ho.bindsAt graph, fun other graph' hother => ?_⟩
    have := hother.length_lt
    simp at this
    omega

end Session

/-! ### One step of trust -/

/-- How far the phases are along. -/
def Phase.stage : Phase → Nat
  | unbootstrapped => 0
  | unbound => 1
  | bound => 2

namespace Trust

variable {t : Trust} {op : Op} {presented token : String} {graph : Graph}

@[simp] theorem token?_unbound (d : Digest) : (unbound d).token? = some d := rfl

@[simp] theorem token?_bound (d : Digest) (graph : Graph) : (bound d graph).token? = some d := rfl

@[simp] theorem graph?_unbound (d : Digest) : (unbound d).graph? = none := rfl

@[simp] theorem graph?_bound (d : Digest) (graph : Graph) : (bound d graph).graph? = some graph :=
  rfl

@[simp] theorem phase_unbound (d : Digest) : (unbound d).phase = .unbound := rfl

@[simp] theorem phase_bound (d : Digest) (graph : Graph) : (bound d graph).phase = .bound := rfl

theorem graph?_eq_none_of_token? (h : t.token? = none) : t.graph? = none := by
  cases t with
  | unbootstrapped => rfl
  | unbound d => rfl
  | bound d graph => cases h

theorem setToken?_eq (t : Trust) (token : String) : t.setToken? token =
    if t.token? = none ∧ token ≠ "" then some (.unbound (Sha256.hashText token)) else none := by
  cases t with
  | unbootstrapped => by_cases h : token = "" <;> simp [setToken?, token?, h]
  | unbound d => simp [setToken?]
  | bound d graph => simp [setToken?]

theorem bind?_eq (t : Trust) (presented : String) (graph : Graph) : t.bind? presented graph =
    if t.token? = some (Sha256.hashText presented) then
      some (.bound (Sha256.hashText presented) graph) else none := by
  unfold bind?
  split
  · next d hd => by_cases h : d = Sha256.hashText presented <;> simp [hd, h]
  · next hd => simp [hd]

/-- Once there is a token it stays; until then each attempt to set one counts. -/
theorem token?_after (t : Trust) (op : Op) :
    (t.after op).token? = t.token?.or (op.newToken?.map Sha256.hashText) := by
  cases op with
  | setToken token =>
    rw [after, setToken?_eq, Op.newToken?]
    by_cases ht : t.token? = none
    · by_cases h : token = "" <;> simp [ht, h]
    · obtain ⟨d, hd⟩ := Option.ne_none_iff_exists'.mp ht
      simp [hd]
  | bind presented graph =>
    have sets_none : (Op.bind presented graph).newToken? = none := rfl
    rw [after, bind?_eq, sets_none]
    by_cases h : t.token? = some (Sha256.hashText presented) <;> simp [h]
  | _ => simp [after, Op.newToken?]

theorem graph?_after_bind : (t.after (.bind presented graph)).graph? =
    if t.token? = some (Sha256.hashText presented) then some graph else t.graph? := by
  rw [after, bind?_eq]
  by_cases h : t.token? = some (Sha256.hashText presented) <;> simp [h]

theorem graph?_after_of_ne (h : ∀ presented graph, op ≠ .bind presented graph) :
    (t.after op).graph? = t.graph? := by
  cases op with
  | setToken token =>
    rw [after, setToken?_eq]
    by_cases ht : t.token? = none ∧ token ≠ ""
    · rw [if_pos ht, graph?_eq_none_of_token? ht.1]
      simp [graph?]
    · rw [if_neg ht, Option.getD_none]
  | bind presented graph => exact absurd rfl (h presented graph)
  | _ => rfl

theorem phase_eq_unbootstrapped_iff : t.phase = .unbootstrapped ↔ t.token? = none := by
  cases t <;> simp [phase, token?]

theorem phase_eq_bound_iff : t.phase = .bound ↔ t.graph? ≠ none := by
  cases t <;> simp [phase, graph?]

theorem stage_le_after (t : Trust) (op : Op) : t.phase.stage ≤ (t.after op).phase.stage := by
  cases op with
  | setToken token => cases t <;> simp [after, setToken?, phase, Phase.stage]
  | bind presented graph =>
    rw [after, bind?_eq]
    split
    · cases t <;> simp [phase, Phase.stage]
    · exact Nat.le_refl _
  | _ => exact Nat.le_refl _

end Trust

/-! ### Runs -/

namespace Session

variable {gated : Bool} {ops : List Op} {presented token : String} {graph : Graph}

theorem run_concat_trust (gated : Bool) (ops : List Op) (op : Op) :
    ((fresh gated).run (ops ++ [op])).broker.trust =
      ((fresh gated).run ops).broker.trust.after op := by
  rw [run_concat, step_trust]

theorem run_token? (gated : Bool) (ops : List Op) :
    ((fresh gated).run ops).broker.trust.token? = (firstToken? ops).map Sha256.hashText := by
  induction ops using List.reverseRecOn with
  | nil => rfl
  | append_singleton ops op ih =>
    rw [run_concat_trust, Trust.token?_after, ih, firstToken?_append]
    -- a token that is set already wins on both sides; otherwise the new operation decides
    cases firstToken? ops <;> simp [firstToken?, List.findSome?_cons]
    cases op.newToken? <;> rfl

theorem run_opens_iff : Opens ops presented ↔
    ((fresh gated).run ops).broker.trust.token? = some (Sha256.hashText presented) := by
  rw [run_token?, Option.map_eq_some_iff, Opens]

/-- A step either puts in force the graph of a bind that takes effect, or leaves the graph and the
binds that took effect as they are. -/
theorem graph?_concat (gated : Bool) (ops : List Op) (op : Op) :
    (∃ presented graph, op = .bind presented graph ∧ Opens ops presented ∧
      ((fresh gated).run (ops ++ [op])).broker.trust.graph? = some graph) ∨
    ((∀ before graph, BindsAt (ops ++ [op]) before graph ↔ BindsAt ops before graph) ∧
      ((fresh gated).run (ops ++ [op])).broker.trust.graph? =
        ((fresh gated).run ops).broker.trust.graph?) := by
  rw [run_concat_trust]
  by_cases hbind : ∃ presented graph, op = .bind presented graph ∧ Opens ops presented
  · obtain ⟨presented, graph, rfl, ho⟩ := hbind
    refine .inl ⟨presented, graph, rfl, ho, ?_⟩
    rw [Trust.graph?_after_bind, if_pos (run_opens_iff.mp ho)]
  · refine .inr ⟨fun before graph => ?_, ?_⟩
    · rw [bindsAt_concat, or_iff_left]
      rintro ⟨-, presented, ho, rfl⟩
      exact hbind ⟨presented, graph, rfl, ho⟩
    · cases op with
      | bind presented graph =>
        -- a bind, and yet none that takes effect: it presents a wrong token, or too early
        have closed : ¬ Opens ops presented := fun ho => hbind ⟨presented, graph, rfl, ho⟩
        rw [Trust.graph?_after_bind, if_neg fun ht => closed (run_opens_iff.mpr ht)]
      | _ => exact Trust.graph?_after_of_ne (by simp)

theorem run_graph?_iff : ((fresh gated).run ops).broker.trust.graph? = some graph ↔
    LastBound ops graph := by
  induction ops using List.reverseRecOn with
  | nil =>
    constructor
    · intro h
      cases h
    · rintro ⟨before, hb, -⟩
      exact absurd hb not_bindsAt_nil
  | append_singleton ops op ih =>
    rcases graph?_concat gated ops op with ⟨presented, graph', rfl, ho, hg⟩ | ⟨hb, hg⟩
    · rw [hg, Option.some.injEq, lastBound_concat_of_bind ho]
    · rw [hg, ih]
      simp only [LastBound, hb]

theorem run_graph?_ne_none_iff : ((fresh gated).run ops).broker.trust.graph? ≠ none ↔
    ∃ before graph, BindsAt ops before graph := by
  induction ops using List.reverseRecOn with
  | nil =>
    constructor
    · intro h
      exact absurd rfl h
    · rintro ⟨before, graph, hb⟩
      exact absurd hb not_bindsAt_nil
  | append_singleton ops op ih =>
    rcases graph?_concat gated ops op with ⟨presented, graph, rfl, ho, hg⟩ | ⟨hb, hg⟩
    · rw [hg]
      exact ⟨fun _ => ⟨ops, graph, ho.bindsAt graph⟩, fun _ => by simp⟩
    · rw [hg, ih]
      simp only [hb]

theorem stage_le_run (s : Session) (ops : List Op) :
    s.broker.phase.stage ≤ (s.run ops).broker.phase.stage := by
  refine run_induction (P := fun after => s.broker.phase.stage ≤ after.broker.phase.stage)
    (fun after op h => ?_) (Nat.le_refl _) ops
  refine Nat.le_trans h ?_
  rw [Broker.phase, Broker.phase, step_trust]
  exact Trust.stage_le_after _ _

/-! ### What the history settles -/

theorem step_setToken (s : Session) (token : String) : s.step (.setToken token) =
    if s.broker.trust.token? = none ∧ token ≠ "" then
      ⟨.flag true, { s with broker.trust := .unbound (Sha256.hashText token) }, some .tokenSet⟩
    else ⟨.flag false, s, some .tokenRejected⟩ := by
  simp only [step, replied, Broker.setToken, Trust.setToken?_eq]
  by_cases h : s.broker.trust.token? = none ∧ token ≠ ""
  · rw [if_pos h, if_pos h]
  · rw [if_neg h, if_neg h]

theorem step_bind (s : Session) (presented : String) (graph : Graph) :
    s.step (.bind presented graph) =
      if s.broker.trust.token? = some (Sha256.hashText presented) then
        ⟨.done, { s with broker.trust := .bound (Sha256.hashText presented) graph },
          some .graphBound⟩
      else ⟨.done, s, some .graphRejected⟩ := by
  simp only [step, replied, Broker.bind, Trust.bind?_eq]
  by_cases h : s.broker.trust.token? = some (Sha256.hashText presented)
  · rw [if_pos h, if_pos h]
  · rw [if_neg h, if_neg h]

/-- The session is, as far as trust goes, what the operations that led to it say. -/
structure Bootstrapped (s : Session) (ops : List Op) : Prop where
  token : s.broker.trust.token? = (firstToken? ops).map Sha256.hashText
  token_kept : ∀ token, firstToken? ops = some token →
    ∀ more, (s.run more).broker.trust.token? = some (Sha256.hashText token)
  set_iff : ∀ token, (s.step (.setToken token)).answer = .flag true ↔
    firstToken? ops = none ∧ token ≠ ""
  set_refused : ∀ token, (s.step (.setToken token)).answer ≠ .flag true →
    s.step (.setToken token) = ⟨.flag false, s, some .tokenRejected⟩
  bind_opens : ∀ presented graph, Opens ops presented →
    (s.step (.bind presented graph)).event? = some .graphBound ∧
    (s.step (.bind presented graph)).session.broker.trust.graph? = some graph ∧
    (s.step (.bind presented graph)).session.broker.phase = .bound
  bind_refused : ∀ presented graph, ¬ Opens ops presented →
    s.step (.bind presented graph) = ⟨.done, s, some .graphRejected⟩
  opens_iff : ∀ presented, Sha256.CollisionFree (presented :: ops.flatMap Op.tokens) →
    (Opens ops presented ↔ firstToken? ops = some presented)
  graph_iff : ∀ graph, s.broker.trust.graph? = some graph ↔ LastBound ops graph
  unbootstrapped_iff : s.broker.phase = .unbootstrapped ↔ firstToken? ops = none
  unbound_iff : s.broker.phase = .unbound ↔
    firstToken? ops ≠ none ∧ ¬ ∃ before graph, BindsAt ops before graph
  bound_iff : s.broker.phase = .bound ↔ ∃ before graph, BindsAt ops before graph
  forward : ∀ more, s.broker.phase.stage ≤ (s.run more).broker.phase.stage

/-- Whatever a run has done, trust is what the tokens and the binds of the run make it. -/
theorem run_bootstrapped (gated : Bool) (ops : List Op) :
    ((fresh gated).run ops).Bootstrapped ops := by
  have token := run_token? gated ops
  have token_none : ((fresh gated).run ops).broker.trust.token? = none ↔ firstToken? ops = none := by
    rw [token, Option.map_eq_none_iff]
  have bound : ((fresh gated).run ops).broker.phase = .bound ↔
      ∃ before graph, BindsAt ops before graph :=
    Trust.phase_eq_bound_iff.trans run_graph?_ne_none_iff
  have unbootstrapped : ((fresh gated).run ops).broker.phase = .unbootstrapped ↔
      firstToken? ops = none :=
    Trust.phase_eq_unbootstrapped_iff.trans token_none
  constructor
  case token => exact token
  case token_kept =>
    intro t ht more
    rw [← run_append, run_token?, firstToken?_append, ht]
    rfl
  case set_iff =>
    intro t
    rw [← token_none, step_setToken]
    split
    · next h => simp [h]
    · next h => simp [h]
  case set_refused =>
    intro t h
    rw [step_setToken] at h ⊢
    split
    · next ht => simp [ht] at h
    · rfl
  case bind_opens =>
    intro presented graph ho
    rw [step_bind, if_pos (run_opens_iff.mp ho)]
    exact ⟨rfl, rfl, rfl⟩
  case bind_refused =>
    intro presented graph ho
    rw [step_bind, if_neg fun ht => ho (run_opens_iff.mpr ht)]
  case opens_iff => exact fun presented => opens_iff_of_collisionFree
  case graph_iff => exact fun graph => run_graph?_iff
  case unbootstrapped_iff => exact unbootstrapped
  case unbound_iff =>
    rw [Ne, ← unbootstrapped, ← bound]
    cases ((fresh gated).run ops).broker.phase <;> simp
  case bound_iff => exact bound
  case forward => exact stage_le_run _

/-- An empty token does not count, and one that comes second is refused, whether it is to be set or is
presented with a graph.  The first one opens. -/
theorem impostor_bootstrapped :
    let everybody : Graph := fun _ _ => true
    let ops : List Op := [.setToken "", .setToken "host", .setToken "guess"]
    let s := (fresh false).run ops
    s.Bootstrapped ops ∧ s.broker.trust.token? = some (Sha256.hashText "host") ∧
    s.step (.setToken "guess") = ⟨.flag false, s, some .tokenRejected⟩ ∧
    s.step (.bind "guess" everybody) = ⟨.done, s, some .graphRejected⟩ ∧
    s.broker.phase = .unbound ∧
    (s.step (.bind "host" everybody)).session.broker.phase = .bound := by
  intro everybody ops s
  have h : s.Bootstrapped ops := run_bootstrapped false ops
  have first : firstToken? ops = some "host" := by decide
  have token : s.broker.trust.token? = some (Sha256.hashText "host") := by
    rw [h.token, first, Option.map_some]
  have late : (s.step (.setToken "guess")).answer ≠ .flag true := by simp [h.set_iff, first]
  have differ : Sha256.hashText "host" ≠ Sha256.hashText "guess" := by decide +kernel
  have shut : ¬ Opens ops "guess" := by simp [Opens, first, differ]
  have unbound : s.broker.phase = .unbound := by
    rw [h.unbound_iff, first]
    refine ⟨Option.some_ne_none _, ?_⟩
    rintro ⟨before, graph, presented, -, hp⟩
    have := hp.subset (List.mem_append_right before (List.mem_singleton_self _))
    simp [ops] at this
  exact ⟨h, token, h.set_refused "guess" late, h.bind_refused "guess" everybody shut, unbound,
    (h.bind_opens "host" everybody ⟨"host", first, rfl⟩).2.2⟩

end Session

end PluginBroker
