import PluginBroker.Broker.Session
import PluginBroker.Main
import PluginBroker.Multimap.Lemmas
import PluginBroker.Proofs.Grouping
import PluginBroker.Proofs.Roll
import PluginBroker.Proofs.Registration
import PluginBroker.Proofs.Lookup
import PluginBroker.Proofs.Run
import PluginBroker.Proofs.Lockstep
import PluginBroker.Proofs.Access
import PluginBroker.Proofs.Bootstrap
import PluginBroker.Proofs.Custody
import PluginBroker.Proofs.Origin
import PluginBroker.Proofs.Policy
import PluginBroker.Proofs.Secrecy
import PluginBroker.Proofs.Independence
import PluginBroker.Proofs.Placement
import PluginBroker.Proofs.Strictness
import PluginBroker.Proofs.Audit
import PluginBroker.Proofs.Canonical
import PluginBroker.Proofs.JsonText
import PluginBroker.Proofs.Exchange
import PluginBroker.Proofs.Drift
import PluginBroker.Proofs.Decision
import PluginBroker.Proofs.Links
import PluginBroker.Proofs.Verdict
import PluginBroker.Proofs.Unambiguous
import PluginBroker.Proofs.Reordering
import PluginBroker.Proofs.Arrangement
import PluginBroker.Proofs.Removal
import PluginBroker.Proofs.Undoing
import PluginBroker.Proofs.Choosing
import PluginBroker.Proofs.Subtyping
import PluginBroker.Proofs.Ancestry
import PluginBroker.Proofs.Hashing
import PluginBroker.Proofs.Acceptance
import PluginBroker.Proofs.TomlText
import PluginBroker.Proofs.TomlLines
import PluginBroker.Proofs.TomlTables
import PluginBroker.Proofs.ConfigTables
import PluginBroker.Proofs.Layout
