import PluginBroker.Config.Toml
import PluginBroker.Proofs.TomlTables

/-! Lines about links and configurations, and the tables that they make.  Such a table is read as the link
or the settings that its lines write, in whatever order they stand and whether or not they write
defaults. -/

namespace PluginBroker

/-! ### Lines -/

/-- A line about a link.  What it says of a plugin is any integer. -/
inductive Link.Setting where
  | source (number : Int)
  | target (number : Int)
  | bidirectional (b : Bool)
deriving DecidableEq

/-- A line that is not about a link. -/
inductive Config.Setting where
  | logFilter (s : String)
  | compilerLookupsGated (b : Bool)
deriving DecidableEq

/-- The key and the value that a line writes. -/
def Link.Setting.entry : Link.Setting → String × Toml.Value
  | source n => ("from", .integer n)
  | target n => ("to", .integer n)
  | bidirectional b => ("bidirectional", .boolean b)

def Config.Setting.entry : Config.Setting → String × Toml.Value
  | logFilter s => ("log_filter", .string s)
  | compilerLookupsGated b => ("compiler_lookups_gated", .boolean b)

/-- All lines about a link. -/
def Link.settings (l : Link) : List Setting :=
  [.source l.source.number.toNat, .target l.target.number.toNat, .bidirectional l.bidirectional]

def Config.settings (c : Config) : List Setting :=
  [.logFilter c.logFilter, .compilerLookupsGated c.compilerLookupsGated]

/-- The lines are among the full ones, each at most once and in any order; only what is default may be
left out. -/
structure Writes {α : Type} (isDefault : α → Prop) (full lines : List α) : Prop where
  once : lines.Nodup
  only : lines ⊆ full
  complete : ∀ a ∈ full, a ∈ lines ∨ isDefault a

/-- The lines write the link.  It may go without saying that it is not bidirectional. -/
def Link.WrittenBy (l : Link) (block : List Link.Setting) : Prop :=
  Writes (· = .bidirectional false) l.settings block

/-! ### Lines and fields -/

section

variable {α β : Type} {full lines : List α} {entry : α → String × Toml.Value}

theorem Writes.nodup_keys {isDefault : α → Prop} (h : Writes isDefault full lines)
    (keys : (full.map fun a => (entry a).1).Nodup) : ((lines.map entry).map Prod.fst).Nodup := by
  rw [List.map_map]
  exact h.once.map_on fun a ha b hb => List.inj_on_of_nodup_map keys (h.only ha) (h.only hb)

theorem writes_self {isDefault : α → Prop} (once : full.Nodup) : Writes isDefault full full :=
  ⟨once, List.Subset.refl _, fun _ h => .inl h⟩

/-- Of lines with different keys: what is not written is default, and nothing stands for it. -/
theorem writes_iff {isDefault : α → Prop} (keys : (full.map fun a => (entry a).1).Nodup)
    (once : ((lines.map entry).map Prod.fst).Nodup)
    (known : ∀ b, ∃ a ∈ full, (entry a).1 = (entry b).1) : Writes isDefault full lines ↔
      ∀ a ∈ full, a ∈ lines ∨ (∀ b ∈ lines, (entry b).1 ≠ (entry a).1) ∧ isDefault a := by
  constructor
  · intro h a ha
    by_cases written : a ∈ lines
    · exact .inl written
    · refine .inr ⟨fun b hb same => ?_, (h.complete a ha).resolve_left written⟩
      rw [List.inj_on_of_nodup_map keys (h.only hb) ha same] at hb
      exact written hb
  · intro h
    rw [List.map_map] at once
    refine ⟨once.of_map, fun b hb => ?_, fun a ha => (h a ha).imp_right And.right⟩
    obtain ⟨a, ha, same⟩ := known b
    rcases h a ha with written | ⟨absent, -⟩
    · rw [← List.inj_on_of_nodup_map once written hb same]
      exact ha
    · exact absurd same.symm (absent b hb)

variable {decode : Toml.Value → Option β} {name : String} {x : β} {line : α}

theorem required?_map_iff (once : ((lines.map entry).map Prod.fst).Nodup)
    (reads : ∀ a, ((entry a).1 = name ∧ decode (entry a).2 = some x) ↔ a = line) :
    Toml.required? decode (lines.map entry) name = some x ↔ line ∈ lines := by
  rw [Toml.required?, Option.bind_eq_some_iff]
  simp only [Toml.Entries.lookup_eq_some_iff once, List.mem_map]
  constructor
  · rintro ⟨v, ⟨a, ha, hv⟩, value⟩
    rw [← (reads a).mp (by rw [hv]; exact ⟨rfl, value⟩)]
    exact ha
  · intro h
    obtain ⟨key, value⟩ := (reads line).mpr rfl
    exact ⟨(entry line).2, ⟨line, h, by rw [← key]⟩, value⟩

theorem optional?_map_iff (once : ((lines.map entry).map Prod.fst).Nodup)
    (reads : ∀ a, ((entry a).1 = name ∧ decode (entry a).2 = some x) ↔ a = line) {default : β} :
    Toml.optional? decode (lines.map entry) name default = some x ↔
      line ∈ lines ∨ (∀ a ∈ lines, (entry a).1 ≠ name) ∧ x = default := by
  rw [Toml.optional?, ← required?_map_iff once reads, Toml.required?]
  cases found : (lines.map entry).lookup name with
  | none =>
    have absent : ∀ a ∈ lines, (entry a).1 ≠ name := fun a ha same =>
      Toml.Entries.lookup_eq_none_iff.mp found
        (List.mem_map.mpr ⟨entry a, List.mem_map_of_mem ha, same⟩)
    rw [Option.bind_none, Option.some.injEq, eq_comm]
    simpa using fun _ => absent
  | some v =>
    obtain ⟨a, ha, hv⟩ := List.mem_map.mp ((Toml.Entries.lookup_eq_some_iff once).mp found)
    have present : ¬ ∀ a ∈ lines, (entry a).1 ≠ name := fun absent => absent a ha (by rw [hv])
    simp [present]

end

/-! ### Links -/

theorem PluginId.ofToml?_integer {n : Int} {p : PluginId} :
    ofToml? (.integer n) = some p ↔ n = p.number.toNat := by
  cases n with
  | ofNat n =>
    have read : ofToml? (.integer (.ofNat n)) = (Numeral.toUInt64? n).map (⟨·⟩) := rfl
    rw [read, Option.map_eq_some_iff]
    constructor
    · rintro ⟨number, fits, rfl⟩
      exact congrArg Int.ofNat (Numeral.toUInt64?_eq_some_iff.mp fits)
    · intro h
      exact ⟨p.number, Numeral.toUInt64?_eq_some_iff.mpr (Int.ofNat.inj h), rfl⟩
  | negSucc n => simp [ofToml?, Toml.Value.nat?]

theorem Toml.fields?_table {names : List String} {es : Toml.Entries} {o : Toml.Origin}
    (h : ∀ e ∈ es, e.1 ∈ names) : (Toml.Value.table o es).fields? names = some es := by
  have known : (es.all fun e => names.contains e.1 || e.2.isHoldable) = true := by
    rw [List.all_eq_true]
    intro e he
    simp [h e he]
  rw [Toml.Value.fields?, if_pos known]

namespace Link

theorem ofToml?_table_iff {o : Toml.Origin} {es : Toml.Entries} {l : Link}
    (known : ∀ e ∈ es, e.1 ∈ ["from", "to", "bidirectional"]) : ofToml? (.table o es) = some l ↔
      Toml.required? PluginId.ofToml? es "from" = some l.source ∧
        Toml.required? PluginId.ofToml? es "to" = some l.target ∧
          Toml.optional? Toml.Value.boolean? es "bidirectional" false = some l.bidirectional := by
  obtain ⟨p, q, b⟩ := l
  rw [ofToml?, Toml.fields?_table known]
  simp only [Option.bind_eq_bind, Option.bind_some, Option.bind_eq_some_iff, Option.pure_def,
    Option.some.injEq, Link.mk.injEq]
  constructor
  · rintro ⟨_, source, _, target, _, both, rfl, rfl, rfl⟩
    exact ⟨source, target, both⟩
  · rintro ⟨source, target, both⟩
    exact ⟨p, source, q, target, b, both, rfl, rfl, rfl⟩

theorem ofToml?_block_iff {block : List Setting}
    (once : ((block.map Setting.entry).map Prod.fst).Nodup) {l : Link} :
    ofToml? (.table .opened (block.map Setting.entry)) = some l ↔ l.WrittenBy block := by
  have known : ∀ e ∈ block.map Setting.entry, e.1 ∈ ["from", "to", "bidirectional"] := by
    intro e he
    obtain ⟨s, -, rfl⟩ := List.mem_map.mp he
    cases s <;> simp [Setting.entry]
  have source : Toml.required? PluginId.ofToml? (block.map Setting.entry) "from" = some l.source ↔
      .source l.source.number.toNat ∈ block := by
    refine required?_map_iff once fun s => ?_
    cases s <;> simp [Setting.entry, PluginId.ofToml?_integer]
  have target : Toml.required? PluginId.ofToml? (block.map Setting.entry) "to" = some l.target ↔
      .target l.target.number.toNat ∈ block := by
    refine required?_map_iff once fun s => ?_
    cases s <;> simp [Setting.entry, PluginId.ofToml?_integer]
  have both : Toml.optional? Toml.Value.boolean? (block.map Setting.entry) "bidirectional" false =
      some l.bidirectional ↔ .bidirectional l.bidirectional ∈ block ∨
        (∀ s ∈ block, s.entry.1 ≠ "bidirectional") ∧ l.bidirectional = false := by
    refine optional?_map_iff once fun s => ?_
    cases s <;> simp [Setting.entry, Toml.Value.boolean?]
  have written : l.WrittenBy block ↔ _ := writes_iff
    (by simp [settings, Setting.entry]) once (by intro s; cases s <;> simp [settings, Setting.entry])
  rw [ofToml?_table_iff known, written, source, target, both]
  simp [settings, Setting.entry]

theorem WrittenBy.nodup_keys {l : Link} {block : List Setting} (h : l.WrittenBy block) :
    ((block.map Setting.entry).map Prod.fst).Nodup :=
  Writes.nodup_keys h (by simp [settings, Setting.entry])

end Link

/-- The block does not name a plugin in a line of this kind: there is none, or there is one with a number
that no plugin has. -/
def Link.NamesNone (line : Int → Setting) (block : List Setting) : Prop :=
  (∀ n, line n ∉ block) ∨ ∃ n, line n ∈ block ∧ (n < 0 ∨ (UInt64.size : Int) ≤ n)

theorem Link.not_namesNone {line : Int → Setting} {block : List Setting} {number : UInt64}
    (present : line number.toNat ∈ block) (only : ∀ n, line n ∈ block → n = number.toNat) :
    ¬ NamesNone line block := by
  rintro (none | ⟨n, hn, out⟩)
  · exact none _ present
  · have bound := number.toNat_lt_size
    have same := only n hn
    omega

theorem Link.WrittenBy.namesBoth {l : Link} {block : List Setting} (h : l.WrittenBy block) :
    ¬ NamesNone .source block ∧ ¬ NamesNone .target block := by
  have source := (h.complete (.source l.source.number.toNat) (by simp [settings])).resolve_right (by simp)
  have target := (h.complete (.target l.target.number.toNat) (by simp [settings])).resolve_right (by simp)
  refine ⟨not_namesNone source fun n hn => ?_, not_namesNone target fun n hn => ?_⟩
  all_goals simpa [settings] using h.only hn

/-! ### Configurations -/

theorem Topology.ofToml?_links (links : List Toml.Entries) :
    ofToml? (.table .passed [("links", .array true (links.map (.table .opened)))]) =
      (links.mapM fun es => Link.ofToml? (.table .opened es)).map (⟨·⟩) := by
  have listed : Toml.optional? Link.listOfToml? [("links", .array true (links.map (.table .opened)))]
      "links" [] = links.mapM fun es => Link.ofToml? (.table .opened es) := List.mapM_map
  rw [ofToml?, Toml.fields?_table (by simp), Option.bind_eq_bind, Option.bind_some, listed]
  exact (Option.map_eq_bind ..).symm

namespace Config

theorem topology_withLinks_iff {top : Toml.Entries} (h : top.lookup "topology" = none)
    {links : List Toml.Entries} {t : Topology} :
    Toml.optional? Topology.ofToml? (Toml.Entries.withLinks top links) "topology" {} = some t ↔
      (links.mapM fun es => Link.ofToml? (.table .opened es)) = some t.links := by
  have read : Toml.optional? Topology.ofToml? (Toml.Entries.withLinks top links) "topology" {} =
      (links.mapM fun es => Link.ofToml? (.table .opened es)).map (⟨·⟩) := by
    cases links with
    | nil => rw [Toml.Entries.withLinks, Toml.optional?, h]; rfl
    | cons link links =>
      have found : (Toml.Entries.withLinks top (link :: links)).lookup "topology" =
          some (.table .passed [("links", .array true ((link :: links).map (.table .opened)))]) := by
        simp [Toml.Entries.withLinks, List.lookup_append, h]
      rw [Toml.optional?, found]
      exact Topology.ofToml?_links _
  rw [read, Option.map_eq_some_iff]
  constructor
  · rintro ⟨ls, h, rfl⟩
    exact h
  · intro h
    exact ⟨t.links, h, rfl⟩

theorem ofToml?_table_iff {o : Toml.Origin} {es : Toml.Entries} {c : Config}
    (known : ∀ e ∈ es, e.1 ∈ ["log_filter", "compiler_lookups_gated", "topology"]) :
    ofToml? (.table o es) = some c ↔
      Toml.optional? Toml.Value.string? es "log_filter" "info" = some c.logFilter ∧
        Toml.optional? Toml.Value.boolean? es "compiler_lookups_gated" false =
          some c.compilerLookupsGated ∧
            Toml.optional? Topology.ofToml? es "topology" {} = some c.topology := by
  obtain ⟨f, b, t⟩ := c
  rw [ofToml?, Toml.fields?_table known]
  simp only [Option.bind_eq_bind, Option.bind_some, Option.bind_eq_some_iff, Option.pure_def,
    Option.some.injEq, Config.mk.injEq]
  constructor
  · rintro ⟨_, filter, _, gated, _, topology, rfl, rfl, rfl⟩
    exact ⟨filter, gated, topology⟩
  · rintro ⟨filter, gated, topology⟩
    exact ⟨f, filter, b, gated, t, topology, rfl, rfl, rfl⟩

theorem settings_iff {settings : List Setting}
    (once : ((settings.map Setting.entry).map Prod.fst).Nodup) {c : Config} :
    Writes (· ∈ ({} : Config).settings) c.settings settings ↔
      Toml.optional? Toml.Value.string? (settings.map Setting.entry) "log_filter" "info" =
          some c.logFilter ∧
        Toml.optional? Toml.Value.boolean? (settings.map Setting.entry) "compiler_lookups_gated"
          false = some c.compilerLookupsGated := by
  have filter : Toml.optional? Toml.Value.string? (settings.map Setting.entry) "log_filter" "info" =
      some c.logFilter ↔ .logFilter c.logFilter ∈ settings ∨
        (∀ s ∈ settings, s.entry.1 ≠ "log_filter") ∧ c.logFilter = "info" := by
    refine optional?_map_iff once fun s => ?_
    cases s <;> simp [Setting.entry, Toml.Value.string?]
  have gated : Toml.optional? Toml.Value.boolean? (settings.map Setting.entry)
      "compiler_lookups_gated" false = some c.compilerLookupsGated ↔
        .compilerLookupsGated c.compilerLookupsGated ∈ settings ∨
          (∀ s ∈ settings, s.entry.1 ≠ "compiler_lookups_gated") ∧
            c.compilerLookupsGated = false := by
    refine optional?_map_iff once fun s => ?_
    cases s <;> simp [Setting.entry, Toml.Value.boolean?]
  have written : Writes (· ∈ ({} : Config).settings) c.settings settings ↔ _ := writes_iff
    (by simp [Config.settings, Setting.entry]) once
    (by intro s; cases s <;> simp [Config.settings, Setting.entry])
  rw [written, filter, gated]
  simp [Config.settings, Setting.entry]

theorem key_mem {settings : List Setting} {e : String × Toml.Value}
    (h : e ∈ settings.map Setting.entry) : e.1 ∈ ["log_filter", "compiler_lookups_gated"] := by
  obtain ⟨s, -, rfl⟩ := List.mem_map.mp h
  cases s <;> simp [Setting.entry]

theorem lookup_topology (settings : List Setting) :
    (settings.map Setting.entry).lookup "topology" = none := by
  rw [Toml.Entries.lookup_eq_none_iff, List.mem_map]
  rintro ⟨e, he, same⟩
  have key := key_mem he
  rw [same] at key
  simp at key

theorem ofToml?_withLinks_iff {settings : List Setting}
    (once : ((settings.map Setting.entry).map Prod.fst).Nodup) {links : List Toml.Entries}
    {c : Config} :
    ofToml? (.table .opened (Toml.Entries.withLinks (settings.map Setting.entry) links)) = some c ↔
      Writes (· ∈ ({} : Config).settings) c.settings settings ∧
        (links.mapM fun es => Link.ofToml? (.table .opened es)) = some c.topology.links := by
  have known : ∀ e ∈ Toml.Entries.withLinks (settings.map Setting.entry) links,
      e.1 ∈ ["log_filter", "compiler_lookups_gated", "topology"] := by
    intro e he
    rcases Toml.Entries.mem_withLinks he with setting | key
    · exact List.mem_append_left ["topology"] (key_mem setting)
    · simp [key]
  rw [ofToml?_table_iff known, topology_withLinks_iff (lookup_topology settings),
    Toml.Entries.optional?_withLinks_of_ne (by decide),
    Toml.Entries.optional?_withLinks_of_ne (by decide), settings_iff once, and_assoc]

end Config

end PluginBroker
