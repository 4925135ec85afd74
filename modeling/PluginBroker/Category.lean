/-! The four categories of context.  Every interface descends from the root contract of exactly one
of them, and every table of the broker holds the contexts of one of them. -/

namespace PluginBroker

inductive Category where
  | cpu
  | memory
  | device
  | compiler
deriving DecidableEq

namespace Category

/-- The categories in the order in which they are listed everywhere. -/
def all : List Category := [cpu, memory, device, compiler]

theorem mem_all (c : Category) : c ∈ all := by cases c <;> decide

theorem nodup_all : all.Nodup := by decide

/-- The word for the category in data and in log fields. -/
def text : Category → String
  | cpu => "cpu"
  | memory => "memory"
  | device => "device"
  | compiler => "compiler"

/-- The word for the category in messages. -/
def title : Category → String
  | cpu => "Cpu"
  | memory => "Memory"
  | device => "Device"
  | compiler => "Compiler"

def ofText? (s : String) : Option Category := all.find? fun c => c.text == s

theorem ofText?_text (c : Category) : ofText? c.text = some c := by cases c <;> decide

end Category

end PluginBroker
