import PluginBroker.Broker.Event
import PluginBroker.Config.Toml

/-! Loading a configuration from a path. -/

namespace PluginBroker

/-- What a path leads to: nothing, something that cannot be read, such as a directory, or bytes. -/
inductive Stored where
  | missing
  | unreadable
  | file (bytes : ByteArray)

/-- Why a configuration could not be loaded, with what the error underneath says. -/
inductive LoadError where
  | read (path source : String)
  /-- The text is no configuration. -/
  | parse (path source : String)
deriving DecidableEq

def LoadError.message : LoadError → String
  | read path source => "failed to read config " ++ path ++ ": " ++ source
  | parse path source => "failed to parse config " ++ path ++ ": " ++ source

/-- The text that is stored, if it is UTF-8. -/
def Stored.text? : Stored → Option String
  | file bytes => String.fromUTF8? bytes
  | missing | unreadable => none

namespace Config

/-- The configuration that is stored.  Where there is none, `explain` is what the system, or whoever
reads TOML, says of it. -/
def load (explain : Stored → String) (path : String) (stored : Stored) : Except LoadError Config :=
  match stored.text? with
  | none => .error (.read path (explain stored))
  | some text =>
    match ofText? text with
    | none => .error (.parse path (explain stored))
    | some c => .ok c

/-- The event that a load logs: one for success, none for failure. -/
def loadEvent? (path : String) (result : Except LoadError Config) : Option Event :=
  match result with
  | .ok c => some (.configLoaded path c.topology.links.length)
  | .error _ => none

/-- The configuration that is stored at a path, or the default one if nothing is there. -/
def loadOrDefault (explain : Stored → String) (path : String) (stored : Stored) :
    Except LoadError Config :=
  match stored with
  | .missing => .ok {}
  | stored => load explain path stored

/-- Where the configuration is if no path is given: in the user's configuration directory, which an
absolute path may name and else is within the home directory. -/
def standardPath (configHome home : Option String) : String :=
  let dir := match configHome, home with
    | some c, _ => if c.startsWith "/" then some c else home.map (· ++ "/.config")
    | none, _ => home.map (· ++ "/.config")
  match dir with
  | some d => d ++ "/ctxbroker/broker.toml"
  | none => "broker.toml"

end Config

end PluginBroker
