import PluginBroker.Command.Arguments
import PluginBroker.Config.Load
import PluginBroker.Json.Codec

/-! What the command line does: it loads the configuration, whatever the command, and then prints
fingerprints, whether two plugins are connected, or a summary of the configuration. -/

namespace PluginBroker

/-- The exit code, the standard output, the topic if there is help on it instead, and for a failure what
failed and why.  How help is laid out is left open. -/
structure Outcome where
  exit : UInt8
  output : String := ""
  help? : Option Topic := none
  failure? : Option (String × String) := none
deriving DecidableEq

def versionLine : String := "ctxbroker 0.1.0\n"

namespace Command

/-- The text in a column of the given width, or as it is if it is wider. -/
def column (width : Nat) (s : String) : String :=
  s ++ String.ofList (List.replicate (width - s.length) ' ')

def rootLine (c : Category) : String :=
  let root := Interface.root c
  column 16 root.name ++ " " ++ root.fingerprint.text ++ "\n"

/-- A root contract, its fingerprint and the text that it is the fingerprint of. -/
def rootJson (c : Category) : Json :=
  let root := Interface.root c
  .record [("category", c.toJson), ("interface", .text root.name),
    ("fingerprint", .text root.fingerprint.text), ("canonical", .text (canonicalText root.methods))]

def connectedLine (s : LinkSet) (requester owner : PluginId) : String :=
  requester.text ++ " -> " ++ owner.text ++ ": " ++
    (if s.connects requester owner then "allowed" else "denied") ++ "\n"

def summaryLine (c : Config) : String :=
  "config ok: " ++ Numeral.text c.topology.linkSet.size ++ " link(s), compiler lookups " ++
    (if c.compilerLookupsGated then "gated" else "open") ++ "\n"

def output (config : Config) : Command → String
  | fingerprints false => String.join (Category.all.map rootLine)
  | fingerprints true => (Json.array (Category.all.map rootJson)).pretty ++ "\n"
  | connected requester owner => connectedLine config.topology.linkSet requester owner
  | checkConfig => summaryLine config

end Command

namespace Invocation

def path (i : Invocation) (standardPath : String) : String := i.configPath?.getD standardPath

/-- What an invocation comes to, given what paths lead to and how what is no configuration is
explained. -/
def run (i : Invocation) (standardPath : String) (explain : Stored → String)
    (files : String → Stored) : Outcome :=
  let path := i.path standardPath
  match Config.loadOrDefault explain path (files path) with
  | .ok config => { exit := 0, output := i.command.output config }
  | .error e => { exit := 1, failure? := some ("Failed to load " ++ path, e.message) }

end Invocation

/-- What a command line comes to: exit code 2 if it is not well-formed. -/
def runArgs (args : List String) (standardPath : String) (explain : Stored → String)
    (files : String → Stored) : Outcome :=
  match Request.ofArgs? args with
  | none => { exit := 2 }
  | some .version => { exit := 0, output := versionLine }
  | some (.help topic) => { exit := 0, help? := some topic }
  | some (.invocation i) => i.run standardPath explain files

end PluginBroker
