import PluginBroker.Plugin

/-! Which plugin may reach which.  A graph is any answer to that question; a set of links is the
graph that connects exactly the ordered pairs in it. -/

namespace PluginBroker

/-- Whether the first plugin may use contexts of the second one. -/
abbrev Graph := PluginId → PluginId → Bool

/-- A link as the host writes it down: the source may use contexts of the target and, if the link is
bidirectional, the other way round too. -/
structure Link where
  source : PluginId
  target : PluginId
  bidirectional : Bool := false
deriving DecidableEq

/-- The ordered pairs that the link connects. -/
def Link.pairs (l : Link) : List (PluginId × PluginId) :=
  if l.bidirectional then [(l.source, l.target), (l.target, l.source)] else [(l.source, l.target)]

/-- A set of ordered pairs of plugins. -/
structure LinkSet where
  pairs : List (PluginId × PluginId) := []
  nodup : pairs.Nodup := by simp
deriving DecidableEq

theorem nodup_insert {α : Type} [BEq α] [LawfulBEq α] {l : List α} (h : l.Nodup) (a : α) :
    (l.insert a).Nodup := by
  by_cases ha : a ∈ l
  · rwa [List.insert_of_mem ha]
  · rw [List.insert_of_not_mem ha]
    exact List.nodup_cons.mpr ⟨ha, h⟩

namespace LinkSet

def empty : LinkSet := {}

/-- With one ordered pair more, unless it is there already. -/
def insert (s : LinkSet) (p : PluginId × PluginId) : LinkSet :=
  ⟨s.pairs.insert p, nodup_insert s.nodup p⟩

def addLink (s : LinkSet) (l : Link) : LinkSet := l.pairs.foldl insert s

def ofLinks (links : List Link) : LinkSet := links.foldl addLink empty

def size (s : LinkSet) : Nat := s.pairs.length

def isEmpty (s : LinkSet) : Bool := s.pairs.isEmpty

/-- Whether the pair is connected; nothing follows from other pairs. -/
def connects (s : LinkSet) : Graph := fun a b => s.pairs.contains (a, b)

@[simp] theorem connects_empty (a b : PluginId) : empty.connects a b = false := rfl

theorem connects_iff {s : LinkSet} {a b : PluginId} : s.connects a b = true ↔ (a, b) ∈ s.pairs := by
  simp [connects]

@[simp] theorem mem_pairs_insert {s : LinkSet} {p q : PluginId × PluginId} :
    q ∈ (s.insert p).pairs ↔ q = p ∨ q ∈ s.pairs := by
  simp [insert]

end LinkSet

end PluginBroker
