import PluginBroker.Proofs.Access
import PluginBroker.Proofs.Bootstrap
import PluginBroker.Proofs.Links
import PluginBroker.Proofs.Spelling

/-! What the command line says of a pair of plugins is what a broker does once the configured links
are bound, and the links that it counts are the pairs of which it says that they are allowed. -/

namespace PluginBroker

/-! ### What a broker does -/

namespace Session

variable {gated : Bool} {ops : List Op} {requester owner : PluginId} {v : Context} {graph : Graph}

/-- Once a graph is bound, permission is what the graph says of the owner. -/
theorem run_permits_eq (hg : lastGraph? gated ops = some graph)
    (ho : ((fresh gated).run ops).broker.ownerOf? v = some owner) :
    ((fresh gated).run ops).broker.permits requester v = graph requester owner := by
  have bound : ((fresh gated).run ops).broker.phase = .bound := by
    apply Trust.phase_eq_bound_iff.mpr
    simp [run_graph?, hg]
  rw [Bool.eq_iff_iff, run_permits_iff]
  simp [bound, hg, ho]

/-- A plugin registers a context, and the host binds a graph. -/
def bindAround (owner : PluginId) (graph : Graph) : List Op :=
  [.report ⟨0⟩ { interfaces := [.root .memory] }, .register owner ⟨0⟩ (.root .memory),
    .setToken "t"] ++ [.bind "t" graph]

theorem lastGraph?_bindAround (owner : PluginId) (graph : Graph) :
    lastGraph? false (bindAround owner graph) = some graph := by
  rw [← run_graph?, run_graph?_iff, bindAround]
  exact (lastBound_concat_of_bind ⟨"t", rfl, rfl⟩).mpr rfl

theorem ownerOf?_bindAround (owner : PluginId) (graph : Graph) :
    ((fresh false).run (bindAround owner graph)).broker.ownerOf? ⟨0⟩ = some owner := by
  simp only [bindAround, List.cons_append, List.nil_append, run_cons, run_nil, step, replied,
    Broker.setToken_broker, Broker.bind_broker]
  rfl

/-- The broker answers the requester in the same way about every context of the owner, in every
session in which the graph of the last accepted bind connects exactly the linked plugins. -/
def Rules (links : LinkSet) (requester owner : PluginId) (answer : Bool) : Prop :=
  ∀ gated ops, lastGraph? gated ops = some links.connects →
    ∀ v, ((fresh gated).run ops).broker.ownerOf? v = some owner →
      ((fresh gated).run ops).broker.permits requester v = answer

/-- There is such a session with such a context, so the broker rules in one way only. -/
theorem rules_iff {links : LinkSet} {answer : Bool} :
    Rules links requester owner answer ↔ links.connects requester owner = answer := by
  constructor
  · intro h
    have hg := lastGraph?_bindAround owner links.connects
    have ho := ownerOf?_bindAround owner links.connects
    rw [← run_permits_eq hg ho]
    exact h false _ hg ⟨0⟩ ho
  · rintro rfl gated ops hg v ho
    exact run_permits_eq hg ho

end Session

/-! ### What the command line says -/

/-- A line about a pair of plugins, with a word for what is said of it. -/
def verdictLine (requester owner : PluginId) (word : String) : String :=
  requester.text ++ " -> " ++ owner.text ++ ": " ++ word ++ "\n"

theorem verdictLine_inj {requester owner : PluginId} {word word' : String} :
    verdictLine requester owner word = verdictLine requester owner word' ↔ word = word' := by
  simp [verdictLine, String.append_left_inj, String.append_right_inj]

theorem Command.connectedLine_eq (s : LinkSet) (requester owner : PluginId) :
    connectedLine s requester owner =
      verdictLine requester owner (if s.connects requester owner then "allowed" else "denied") :=
  rfl

theorem Command.connectedLine_allowed_iff {s : LinkSet} {requester owner : PluginId} :
    connectedLine s requester owner = verdictLine requester owner "allowed" ↔
      s.connects requester owner = true := by
  rw [connectedLine_eq, verdictLine_inj]
  cases s.connects requester owner <;> decide

theorem Command.connectedLine_denied_iff {s : LinkSet} {requester owner : PluginId} :
    connectedLine s requester owner = verdictLine requester owner "denied" ↔
      s.connects requester owner = false := by
  rw [connectedLine_eq, verdictLine_inj]
  cases s.connects requester owner <;> decide

namespace Config

variable (explain : Stored → String) {path text : String} {stored : Stored} {config : Config}

theorem loadOrDefault_of_parsed (ht : stored.text? = some text) (hc : ofText? text = some config) :
    loadOrDefault explain path stored = .ok config := by
  cases stored with
  | missing | unreadable => cases ht
  | file bytes => simp [loadOrDefault, load, ht, hc]

theorem loadOrDefault_of_unreadable (hs : stored ≠ .missing) (ht : stored.text? = none) :
    loadOrDefault explain path stored = .error (.read path (explain stored)) := by
  cases stored with
  | missing => exact absurd rfl hs
  | unreadable => rfl
  | file bytes => simp [loadOrDefault, load, ht]

theorem loadOrDefault_of_malformed (ht : stored.text? = some text) (hc : ofText? text = none) :
    loadOrDefault explain path stored = .error (.parse path (explain stored)) := by
  cases stored with
  | missing | unreadable => cases ht
  | file bytes => simp [loadOrDefault, load, ht, hc]

end Config

/-- What the commands say, given what is stored at the path of the configuration and how it is
explained that this is no configuration. -/
structure SpeaksFor (say : Command → Outcome) (explain : Stored → String) (path : String)
    (stored : Stored) : Prop where
  verdict : ∀ text config, stored.text? = some text → Config.ofText? text = some config →
    ∀ requester owner, (say (.connected requester owner)).exit = 0 ∧
      ((say (.connected requester owner)).output = verdictLine requester owner "allowed" ↔
        Session.Rules config.topology.linkSet requester owner true) ∧
      ((say (.connected requester owner)).output = verdictLine requester owner "denied" ↔
        Session.Rules config.topology.linkSet requester owner false)
  summary : ∀ text config, stored.text? = some text → Config.ofText? text = some config →
    (say .checkConfig).exit = 0 ∧ (say .checkConfig).output = "config ok: " ++
      Numeral.text {p : PluginId × PluginId | (say (.connected p.1 p.2)).output =
        verdictLine p.1 p.2 "allowed"}.ncard ++ " link(s), compiler lookups " ++
      (if config.compilerLookupsGated then "gated" else "open") ++ "\n"
  missing : stored = .missing → (∀ c, say c = { exit := 0, output := c.output {} }) ∧
    (∀ requester owner,
      (say (.connected requester owner)).output = verdictLine requester owner "denied") ∧
    (say .checkConfig).output = "config ok: 0 link(s), compiler lookups open\n"
  unreadable : stored ≠ .missing → stored.text? = none → ∀ c, say c =
    { exit := 1, failure? := some ("Failed to load " ++ path,
      "failed to read config " ++ path ++ ": " ++ explain stored) }
  malformed : ∀ text, stored.text? = some text → Config.ofText? text = none → ∀ c, say c =
    { exit := 1, failure? := some ("Failed to load " ++ path,
      "failed to parse config " ++ path ++ ": " ++ explain stored) }

namespace Invocation

variable {standardPath : String} {explain : Stored → String} {files : String → Stored}

theorem run_of_ok {i : Invocation} {config : Config}
    (h : Config.loadOrDefault explain (i.path standardPath) (files (i.path standardPath)) =
      .ok config) :
    i.run standardPath explain files = { exit := 0, output := i.command.output config } := by
  simp [run, h]

theorem run_of_error {i : Invocation} {e : LoadError}
    (h : Config.loadOrDefault explain (i.path standardPath) (files (i.path standardPath)) =
      .error e) :
    i.run standardPath explain files =
      { exit := 1, failure? := some ("Failed to load " ++ i.path standardPath, e.message) } := by
  simp [run, h]

/-- What an invocation says does not depend on the filter for the log. -/
theorem speaksFor (path? logFilter? : Option String) (standardPath : String)
    (explain : Stored → String) (files : String → Stored) :
    SpeaksFor (fun c => run ⟨c, path?, logFilter?⟩ standardPath explain files) explain
      (path?.getD standardPath) (files (path?.getD standardPath)) := by
  constructor
  case verdict =>
    intro text config ht hc requester owner
    have outcome := run_of_ok (i := ⟨.connected requester owner, path?, logFilter?⟩)
      (Config.loadOrDefault_of_parsed explain ht hc)
    simp only [outcome, Session.rules_iff]
    exact ⟨trivial, Command.connectedLine_allowed_iff, Command.connectedLine_denied_iff⟩
  case summary =>
    intro text config ht hc
    have outcome (c : Command) := run_of_ok (i := ⟨c, path?, logFilter?⟩)
      (Config.loadOrDefault_of_parsed explain ht hc)
    simp only [outcome, Command.output, Command.connectedLine_allowed_iff, LinkSet.ncard_connected]
    exact ⟨trivial, rfl⟩
  case missing =>
    intro hs
    have loaded : Config.loadOrDefault explain (path?.getD standardPath)
        (files (path?.getD standardPath)) = .ok {} := by
      rw [hs]
      rfl
    have outcome (c : Command) := run_of_ok (i := ⟨c, path?, logFilter?⟩) loaded
    refine ⟨outcome, fun requester owner => ?_, ?_⟩
    · rw [outcome]
      exact Command.connectedLine_denied_iff.mpr rfl
    · rw [outcome]
      rfl
  case unreadable =>
    exact fun hs ht c => run_of_error (Config.loadOrDefault_of_unreadable explain hs ht)
  case malformed =>
    exact fun text ht hc c => run_of_error (Config.loadOrDefault_of_malformed explain ht hc)

end Invocation

/-- What the program prints of a pair of plugins is how the broker rules on it, and the number of
links is that of the pairs that are allowed; without a configuration nobody is allowed anything, and
one that cannot be read or parsed makes every command fail, with the reason. -/
theorem runArgs_speaksFor {path? : Option String} (h : path? ≠ some "") (standardPath : String)
    (explain : Stored → String) (files : String → Stored) :
    SpeaksFor (fun c => runArgs (c.arguments path?) standardPath explain files) explain
      (path?.getD standardPath) (files (path?.getD standardPath)) := by
  simp only [runArgs, Command.ofArgs?_arguments _ h]
  exact Invocation.speaksFor path? none standardPath explain files

/-- A configuration that links one plugin to another. -/
def oneLink : String := "[[topology.links]]\nfrom = 1\nto = 2\n"

/-- The linked plugin is allowed, the other way round is denied, and one link is counted. -/
theorem oneLink_speaksFor :
    let explain (_ : Stored) := "no configuration"
    let say (c : Command) := runArgs (c.arguments (some "c.toml")) "broker.toml" explain
      fun _ => .file oneLink.toByteArray
    SpeaksFor say explain "c.toml" (.file oneLink.toByteArray) ∧
    (say (.connected ⟨1⟩ ⟨2⟩)).output = "1 -> 2: allowed\n" ∧
    (say (.connected ⟨2⟩ ⟨1⟩)).output = "2 -> 1: denied\n" ∧
    (say .checkConfig).output = "config ok: 1 link(s), compiler lookups open\n" := by
  intro explain say
  have speaks : SpeaksFor say explain "c.toml" (.file oneLink.toByteArray) :=
    runArgs_speaksFor (by decide) "broker.toml" explain fun _ => .file oneLink.toByteArray
  have stored : (Stored.file oneLink.toByteArray).text? = some oneLink := by
    simp [Stored.text?, String.fromUTF8?, String.fromUTF8, oneLink.isValidUTF8]
  have parsed : Config.ofText? oneLink = some { topology := ⟨[⟨⟨1⟩, ⟨2⟩, false⟩]⟩ } := by
    decide +kernel
  have verdict := speaks.verdict oneLink _ stored parsed
  have allowed := (verdict ⟨1⟩ ⟨2⟩).2.1.mpr (Session.rules_iff.mpr rfl)
  have denied := (verdict ⟨2⟩ ⟨1⟩).2.2.mpr (Session.rules_iff.mpr rfl)
  have pairs : {p : PluginId × PluginId | (say (.connected p.1 p.2)).output =
      verdictLine p.1 p.2 "allowed"} =
        {p | (Topology.linkSet ⟨[⟨⟨1⟩, ⟨2⟩, false⟩]⟩).connects p.1 p.2 = true} := by
    ext p
    exact (verdict p.1 p.2).2.1.trans Session.rules_iff
  refine ⟨speaks, allowed, denied, ?_⟩
  rw [(speaks.summary oneLink _ stored parsed).2, pairs, LinkSet.ncard_connected]
  rfl

end PluginBroker
