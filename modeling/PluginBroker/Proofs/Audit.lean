import Mathlib.Algebra.GroupWithZero.Nat
import PluginBroker.Proofs.Custody

/-! The log as an audit trail.  How many contexts a plugin owns can be reckoned from the log alone,
and a call tells the log of a change exactly when it made one. -/

namespace PluginBroker

@[simp] theorem PluginId.text_inj {p q : PluginId} : p.text = q.text ↔ p = q := by
  refine ⟨fun h => ?_, congrArg _⟩
  have digits : Numeral.decimal p.number.toNat = Numeral.decimal q.number.toNat :=
    String.ofList_injective h
  have value := congrArg (Numeral.value? 10) digits
  rw [Numeral.value?_decimal, Numeral.value?_decimal, Option.some.injEq, UInt64.toNat_inj] at value
  cases p
  cases q
  exact congrArg _ value

/-! ### Reading the log -/

namespace Event

/-- The text of a named field. -/
def field? (e : Event) (name : String) : Option String := e.fields.lookup name

/-- Whether the event has the message and names the plugin. -/
def tells (e : Event) (message : String) (p : PluginId) : Bool :=
  e.message = message ∧ e.field? "plugin_id" = some p.text

/-- The number in the field that says how many contexts were removed. -/
def removed (e : Event) : Nat :=
  ((e.field? "removed").bind fun digits => Numeral.value? 10 digits.toList).getD 0

@[simp] theorem removed_unregisteredUnder (p : PluginId) (i : String) (n : Nat) :
    (unregisteredUnder p i n).removed = n := by
  simp [removed, field?, fields, List.lookup_cons, Numeral.text]

/-- What the event says was added to the contexts of a plugin, below zero if some were removed. -/
def balance (p : PluginId) : Event → Int
  | registered q _ _ _ => (if q = p then 1 else 0 : Nat)
  | unregistered q _ => -(if q = p then 1 else 0 : Nat)
  | unregisteredUnder q _ n => -(if q = p then n else 0 : Nat)
  | _ => 0

end Event

/-- What was logged, oldest first. -/
abbrev Log := List Event

namespace Log

/-- How many events have the message and name the plugin. -/
def number (log : Log) (message : String) (p : PluginId) : Nat := log.countP (·.tells message p)

/-- How many contexts were removed according to the events that have the message and name the
plugin. -/
def removed (log : Log) (message : String) (p : PluginId) : Nat :=
  ((log.filter (·.tells message p)).map (·.removed)).sum

/-- What is left to a plugin according to the log: all that it registered, less what it had taken
out one by one and less what it had taken out at once. -/
def left (log : Log) (p : PluginId) : Int :=
  log.number "Registered context" p - log.number "Unregistered context" p -
    log.removed "Unregistered contexts" p

variable {p : PluginId}

@[simp] theorem left_nil : left [] p = 0 := rfl

theorem left_append (log more : Log) : left (log ++ more) p = log.left p + more.left p := by
  simp only [left, number, removed, List.countP_append, List.filter_append, List.map_append,
    List.sum_append]
  omega

theorem left_singleton (e : Event) : left [e] p = e.balance p := by
  cases e with
  | registered q | unregistered q | unregisteredUnder q =>
    by_cases h : q = p <;>
      simp [left, number, removed, Event.tells, Event.message, Event.field?, Event.fields,
        Event.balance, h]
  | _ => simp [left, number, removed, Event.tells, Event.message, Event.balance]

end Log

/-! ### The roll and the log -/

namespace Roll

variable {r : Roll} {p : PluginId}

theorem length_contextsOf : (r.contextsOf p).length = (r.ofOwner p).length := List.length_map _

theorem length_ofOwner_concat (e : Entry) : (Roll.ofOwner (r ++ [e]) p).length =
    (r.ofOwner p).length + if e.owner = p then 1 else 0 := by
  rw [ofOwner, List.filter_append, List.length_append]
  by_cases hp : e.owner = p <;> simp [ofOwner, hp]

theorem length_ofOwner_strike (h : r.Distinct) {e : Entry} (he : e ∈ r) :
    ((r.strike e.context).ofOwner p).length + (if e.owner = p then 1 else 0) =
      (r.ofOwner p).length := by
  have length := ((h.perm_strike he).filter (·.owner = p)).length_eq
  rw [List.filter_cons] at length
  by_cases hp : e.owner = p
  · simpa [ofOwner, hp] using length.symm
  · simpa [ofOwner, hp] using length.symm

theorem length_ofOwner_strikeUnder (q : PluginId) (c : Category) (name : String) :
    ((r.strikeUnder q c name).ofOwner p).length +
      (if q = p then (r.under q c name).length else 0) = (r.ofOwner p).length := by
  by_cases hq : q = p
  · subst hq
    have kept : (r.strikeUnder q c name).ofOwner q =
        (r.ofOwner q).filter fun e => !decide (e.category = c ∧ e.name = name) := by
      rw [ofOwner, strikeUnder, ofOwner, List.filter_filter, List.filter_filter]
      refine List.filter_congr fun e _ => ?_
      by_cases ho : e.owner = q <;> simp [ho]
    rw [kept, if_pos rfl, under_eq_filter, Nat.add_comm]
    exact (List.length_eq_length_filter_add _).symm
  · rw [ofOwner_strikeUnder hq, if_neg hq, Nat.add_zero]

theorem note_false (r : Roll) (op : Op) : r.note op (.flag false) = r := by cases op <;> rfl

theorem note_refused (r : Roll) (op : Op) (refusal : Refusal) :
    r.note op (.registration (.error refusal)) = r := by cases op <;> rfl

theorem note_of_actor?_none {op : Op} (hop : op.actor? = none) (a : Answer) : r.note op a = r := by
  cases op with
  | register | unregister | unregisterUnder => cases hop
  | _ => rfl

end Roll

theorem Broker.balance_lookupIn {b : Broker} {profiles : Profiles} {c : Category}
    {requester p : PluginId} {i : Interface} {choice : Choice} {e : Event}
    (he : (b.lookupIn profiles c requester i choice).event? = some e) : e.balance p = 0 := by
  unfold lookupIn at he
  split at he
  · obtain rfl := Option.some.inj he
    rfl
  · cases he
  · cases he

namespace Session

variable {s : Session} {r : Roll} {p : PluginId} {op : Op}

theorem events_singleton : s.events [op] = (s.step op).event?.toList := by
  cases h : (s.step op).event? <;> simp [events, trace, h]

theorem events_cons (op : Op) (ops : List Op) :
    s.events (op :: ops) = s.events [op] ++ (s.step op).session.events ops := by
  rw [events_singleton, events, trace]
  cases h : (s.step op).event? with
  | none => rw [List.filterMap_cons_none h]; rfl
  | some e => rw [List.filterMap_cons_some h]; rfl

/-- What a call on behalf of a plugin comes to: it finds nothing to take out and logs nothing, it is
refused and logs the refusal, or it changes something and logs by how much. -/
inductive Outcome (s : Session) (r : Roll) (op : Op) (p : PluginId) : Prop where
  | idle (answer : (s.step op).answer = .flag false) (kept : (s.step op).session = s)
      (silent : s.events [op] = [])
  | refused (name : String) (refusal : Refusal)
      (answer : (s.step op).answer = .registration (.error refusal))
      (kept : (s.step op).session = s) (logged : s.events [op] = [.refused p name refusal])
  | changed (e : Event) (answer : (s.step op).answer = .registration (.ok ()) ∨
        (s.step op).answer = .flag true)
      (logged : s.events [op] = [e]) (level : e.level = .info) (some : e.balance p ≠ 0)
      (balance : ∀ q, (((r.note op (s.step op).answer).ofOwner q).length : Int) =
        (r.ofOwner q).length + e.balance q)

theorem outcome (h : s.broker.Matches r) (hop : op.actor? = some p) : s.Outcome r op p := by
  cases op with
  | register q v i =>
    obtain rfl : q = p := Option.some.inj hop
    rcases h.register s.profiles q v i with ⟨refusal, heq⟩ | ⟨after, heq, -, -, -⟩
    · refine .refused i.name refusal ?_ ?_ ?_ <;> simp [events_singleton, step, replied, heq]
    · refine .changed (.registered q i.name i.category (s.profiles v).id?) (.inl ?_) ?_ rfl ?_ ?_
      · simp only [step, replied, heq]
      · simp [events_singleton, step, replied, heq]
      · simp [Event.balance]
      · intro p
        simp only [step, replied, heq, Roll.note, Event.balance, Roll.length_ofOwner_concat]
        omega
  | unregister q v =>
    obtain rfl : q = p := Option.some.inj hop
    by_cases ho : s.broker.ownership.owns q v = true
    · obtain ⟨e, he, rfl, rfl⟩ := (h.ownership.owns_iff h.distinct).mp ho
      obtain ⟨catalog, ownership, heq, -⟩ := h.unregister he
      refine .changed (.unregistered e.owner e.category) (.inr ?_) ?_ rfl ?_ ?_
      · simp only [step, replied, heq]
      · simp [events_singleton, step, replied, heq]
      · simp [Event.balance]
      · intro p
        have struck := Roll.length_ofOwner_strike h.distinct he (p := p)
        simp only [step, replied, heq, Roll.note, Event.balance]
        omega
    · refine .idle ?_ ?_ ?_ <;>
        simp [events_singleton, step, replied, Broker.unregister_of_not_owns ho]
  | unregisterUnder q i =>
    obtain rfl : q = p := Option.some.inj hop
    by_cases hu : r.under q i.category i.name = []
    · refine .idle ?_ ?_ ?_ <;>
        simp [events_singleton, step, replied, h.unregisterUnder_none hu]
    · obtain ⟨catalog, ownership, heq, -⟩ := h.unregisterUnder_some hu
      refine .changed (.unregisteredUnder q i.name (r.under q i.category i.name).length) (.inr ?_)
        ?_ rfl ?_ ?_
      · simp only [step, replied, heq]
      · simp [events_singleton, step, replied, heq]
      · simp [Event.balance, hu]
      · intro p
        have struck := r.length_ofOwner_strikeUnder q i.category i.name (p := p)
        simp only [step, replied, heq, Roll.note, Event.balance]
        omega
  | _ => cases hop

/-- Whatever else is asked of the broker is not logged as a change of what plugins own. -/
theorem balance_of_actor?_none (hop : op.actor? = none) {e : Event}
    (he : (s.step op).event? = some e) : e.balance p = 0 := by
  cases op with
  | register | unregister | unregisterUnder => cases hop
  | setToken token =>
    simp only [step, replied, Broker.setToken] at he
    split at he <;> obtain rfl := Option.some.inj he <;> rfl
  | bind token graph =>
    simp only [step, replied, Broker.bind] at he
    split at he <;> obtain rfl := Option.some.inj he <;> rfl
  | lookupIn | lookup => exact Broker.balance_lookupIn he
  | _ => cases he

/-- The part of a plugin in the roll grows and shrinks as the log says. -/
theorem length_ofOwner_step (h : s.broker.Matches r) (op : Op) (p : PluginId) :
    (((r.note op (s.step op).answer).ofOwner p).length : Int) =
      (r.ofOwner p).length + Log.left (s.events [op]) p := by
  cases hop : op.actor? with
  | none =>
    rw [Roll.note_of_actor?_none hop, events_singleton]
    cases he : (s.step op).event? with
    | none => simp
    | some e => simp [Log.left_singleton, balance_of_actor?_none hop he]
  | some q =>
    cases outcome h hop with
    | idle answer _ silent => simp [answer, silent, Roll.note_false]
    | refused name refusal answer _ logged =>
      simp [answer, logged, Roll.note_refused, Log.left_singleton, Event.balance]
    | changed e _ logged _ _ balance => rw [balance, logged, Log.left_singleton]

theorem length_ofOwner_follow (h : s.broker.Matches r) (ops : List Op) (p : PluginId) :
    (((s.follow r ops).ofOwner p).length : Int) =
      (r.ofOwner p).length + Log.left (s.events ops) p := by
  -- the roll and the log start anywhere that the broker matches, so that a step can be taken off
  induction ops generalizing s r with
  | nil => simp [follow, watch, events, trace]
  | cons op ops ih =>
    rw [follow_cons, ih (matches_step h op), length_ofOwner_step h op p, events_cons op ops,
      Log.left_append, Int.add_assoc]

/-! ### What a call tells the log -/

/-- What a call tells the log is true: it logs one event at most, information when it changes
something and only then, the refusal of a registration for debugging, and nothing when it finds
nothing to take out. -/
structure Faithful (s : Session) (op : Op) : Prop where
  once : (s.events [op]).length ≤ 1
  info_iff : (∃ e ∈ s.events [op], e.level = .info) ↔ (s.step op).session ≠ s
  refused : ∀ refusal, (s.step op).answer = .registration (.error refusal) →
    (s.step op).session = s ∧ ∃ e, s.events [op] = [e] ∧ e.level = .debug
  idle : (s.step op).answer = .flag false → (s.step op).session = s ∧ s.events [op] = []

theorem session_ne_of_balance (h : s.broker.Matches r) {e : Event} (some : e.balance p ≠ 0)
    (balance : (((r.note op (s.step op).answer).ofOwner p).length : Int) =
      (r.ofOwner p).length + e.balance p) : (s.step op).session ≠ s := by
  -- a session that stayed the same would show owned lists of the same length
  intro same
  have before := h.ownership.contextsOf p
  have after := (matches_step h op).ownership.contextsOf p
  rw [same, before] at after
  have := congrArg List.length after
  rw [Roll.length_contextsOf, Roll.length_contextsOf] at this
  omega

theorem faithful (h : s.broker.Matches r) (hop : op.actor? = some p) : s.Faithful op := by
  cases outcome h hop with
  | idle answer kept silent =>
    constructor
    · simp [silent]
    · simp [silent, kept]
    · intro refusal h
      rw [answer] at h
      cases h
    · exact fun _ => ⟨kept, silent⟩
  | refused name refusal answer kept logged =>
    constructor
    · simp [logged]
    · simp [logged, kept, Event.level]
    · exact fun _ _ => ⟨kept, _, logged, rfl⟩
    · intro h
      rw [answer] at h
      cases h
  | changed e answer logged level some balance =>
    constructor
    · simp [logged]
    · simp [logged, level, session_ne_of_balance h some (balance p)]
    · rcases answer with answer | answer <;> simp [answer]
    · rcases answer with answer | answer <;> simp [answer]

/-- The log is an audit trail: the number of contexts of a plugin is that of the registrations that
were logged for it, less those that were logged as taken out one by one or at once, and what each
call tells the log is true. -/
theorem run_audit (gated : Bool) (ops : List Op) :
    (∀ p, ((((fresh gated).run ops).broker.contextsOf p).length : Int) =
      Log.number ((fresh gated).events ops) "Registered context" p -
        Log.number ((fresh gated).events ops) "Unregistered context" p -
        Log.removed ((fresh gated).events ops) "Unregistered contexts" p) ∧
    ∀ op p, op.actor? = some p → ((fresh gated).run ops).Faithful op := by
  constructor
  · intro p
    have owned := (matches_roll gated ops).ownership.contextsOf p
    have account := length_ofOwner_follow (s := fresh gated) (Broker.matches_fresh gated) ops p
    rw [Broker.contextsOf, owned, Roll.length_contextsOf]
    exact account.trans (Int.zero_add _)
  · exact fun op p hop => faithful (matches_roll gated ops) hop

/-- Two plugins share a shelf; the one is refused what the other has, takes out one context of its own,
and then the rest at once. -/
theorem shared_shelf_audit :
    let report (n : Nat) : Op := .report ⟨n⟩ { interfaces := [.root .memory] }
    let register (p n) : Op := .register ⟨p⟩ ⟨n⟩ (.root .memory)
    let ops := [report 0, report 1, report 2, report 3, register 1 0, register 2 1, register 1 2,
      register 1 3, register 2 0, .unregister ⟨2⟩ ⟨0⟩, .unregister ⟨1⟩ ⟨2⟩,
      .unregisterUnder ⟨1⟩ (.root .cpu), .unregisterUnder ⟨1⟩ (.root .memory)]
    let log := (fresh false).events ops
    let s := (fresh false).run ops
    log.length = 7 ∧ Log.number log "Registered context" ⟨1⟩ = 3 ∧
    Log.number log "Unregistered context" ⟨1⟩ = 1 ∧
    Log.removed log "Unregistered contexts" ⟨1⟩ = 2 ∧ (s.broker.contextsOf ⟨1⟩).length = 0 ∧
    (register 2 0).actor? = some ⟨2⟩ ∧ s.Faithful (register 2 0) := by
  intro report register ops log s
  obtain ⟨account, faithful⟩ := run_audit false ops
  have registered : Log.number log "Registered context" ⟨1⟩ = 3 := by decide +kernel
  have unregistered : Log.number log "Unregistered context" ⟨1⟩ = 1 := by decide +kernel
  have removed : Log.removed log "Unregistered contexts" ⟨1⟩ = 2 := by decide +kernel
  have owned : ((s.broker.contextsOf ⟨1⟩).length : Int) =
      Log.number log "Registered context" ⟨1⟩ - Log.number log "Unregistered context" ⟨1⟩ -
        Log.removed log "Unregistered contexts" ⟨1⟩ := account ⟨1⟩
  rw [registered, unregistered, removed] at owned
  have none : (s.broker.contextsOf ⟨1⟩).length = 0 := by omega
  exact ⟨by decide +kernel, registered, unregistered, removed, none, rfl, faithful _ _ rfl⟩

end Session

end PluginBroker
