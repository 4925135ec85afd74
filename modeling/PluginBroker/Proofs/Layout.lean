import Mathlib.Data.List.Forall2
import PluginBroker.Proofs.ConfigTables

/-! Configurations in the layout that hosts write: lines for the settings, and under them a block of lines
for each link.  Such a text is read as the configuration that its lines write, and as no configuration
if they write none; one block that names no plugin to link from or to is enough for that. -/

namespace PluginBroker

/-! ### Reading one after the other -/

section

variable {α β γ : Type}

theorem mapM_eq_some_iff {f : α → Option β} {as : List α} {bs : List β} :
    as.mapM f = some bs ↔ List.Forall₂ (fun b a => f a = some b) bs as := by
  induction as generalizing bs with
  | nil => simp [eq_comm]
  | cons a as ih =>
    rw [List.forall₂_cons_right_iff, List.mapM_cons, Option.bind_eq_bind, Option.bind_eq_some_iff]
    simp only [Option.bind_eq_bind, Option.bind_eq_some_iff, Option.pure_def, Option.some.injEq, ← ih]
    constructor
    · rintro ⟨b, first, bs, rest, rfl⟩
      exact ⟨b, bs, first, rest, rfl⟩
    · rintro ⟨b, bs, first, rest, rfl⟩
      exact ⟨b, first, bs, rest, rfl⟩

theorem mapM_bind_mapM (f : α → Option β) (g : β → Option γ) (as : List α) :
    ((as.mapM f).bind fun bs => bs.mapM g) = as.mapM fun a => (f a).bind g := by
  induction as with
  | nil => rfl
  | cons a as ih =>
    rw [List.mapM_cons, List.mapM_cons, ← ih]
    cases f a with
    | none => rfl
    | some b =>
      cases as.mapM f with
      | none => cases h : g b <;> simp [h]
      | some bs => simp [List.mapM_cons]

end

/-! ### The layout -/

/-- The lines of a configuration: its settings, and a block of lines for each link. -/
structure Config.Layout where
  settings : List Config.Setting
  blocks : List (List Link.Setting)

/-- The lines write the configuration, with its links in the order of the blocks.  Settings may be left
out that are as in the default configuration. -/
structure Config.WrittenBy (c : Config) (layout : Layout) : Prop where
  settings : Writes (· ∈ ({} : Config).settings) c.settings layout.settings
  links : List.Forall₂ Link.WrittenBy c.topology.links layout.blocks

/-- Every line in its place. -/
def Config.layout (c : Config) : Layout where
  settings := c.settings
  blocks := c.topology.links.map Link.settings

namespace Config.Layout

def linksHeader : Toml.Header := ⟨true, ⟨["topology"], "links"⟩⟩

def lines (layout : Layout) : List Toml.Line :=
  (Toml.assignments Setting.entry layout.settings).map .assignment ++
    (layout.blocks.map (Toml.assignments Link.Setting.entry)).flatMap fun body =>
      .header linksHeader :: body.map .assignment

/-- What the lines make: a section for each block, all of them under the same header. -/
def document (layout : Layout) : Toml.Document where
  top := Toml.assignments Setting.entry layout.settings
  sections := (layout.blocks.map (Toml.assignments Link.Setting.entry)).map (.mk linksHeader)

theorem ofLines_lines (layout : Layout) : Toml.Document.ofLines layout.lines = layout.document := by
  rw [lines, Toml.Document.ofLines_assignments, Toml.Document.ofLines_sections, List.append_nil]
  rfl

/-- The text has these lines, one under the other. -/
def WrittenAs (layout : Layout) (text : String) : Prop := Toml.LinesText layout.lines text.toList

end Config.Layout

/-! ### Reading the text -/

namespace Link

/-- The block as it is read. -/
def ofBlock? (block : List Setting) : Option Link :=
  (Toml.Entries.assignAll? [] (Toml.assignments Setting.entry block)).bind fun es =>
    ofToml? (.table .opened es)

theorem ofBlock?_eq_some_iff {block : List Setting} {l : Link} :
    ofBlock? block = some l ↔ l.WrittenBy block := by
  rw [ofBlock?, Option.bind_eq_some_iff]
  simp only [Toml.Entries.assignAll?_assignments_iff]
  constructor
  · rintro ⟨_, ⟨rfl, once⟩, read⟩
    exact (ofToml?_block_iff once).mp read
  · intro h
    exact ⟨_, ⟨rfl, h.nodup_keys⟩, (ofToml?_block_iff h.nodup_keys).mpr h⟩

end Link

namespace Config

theorem WrittenBy.nodup_keys {c : Config} {layout : Layout} (h : c.WrittenBy layout) :
    ((layout.settings.map Setting.entry).map Prod.fst).Nodup :=
  h.settings.nodup_keys (by simp [Config.settings, Setting.entry])

/-- The blocks are tables and links if each of them is. -/
theorem readBlocks_iff {blocks : List (List Link.Setting)} {ls : List Link} :
    (((blocks.map (Toml.assignments Link.Setting.entry)).mapM (Toml.Entries.assignAll? [])).bind
        fun tables => tables.mapM fun es => Link.ofToml? (.table .opened es)) = some ls ↔
      List.Forall₂ Link.WrittenBy ls blocks := by
  rw [mapM_bind_mapM, List.mapM_map, mapM_eq_some_iff]
  show List.Forall₂ (fun l block => Link.ofBlock? block = some l) ls blocks ↔ _
  simp only [Link.ofBlock?_eq_some_iff]

theorem Layout.entries?_document_iff {layout : Layout} {es : Toml.Entries} :
    layout.document.entries? = some es ↔ ((layout.settings.map Setting.entry).map Prod.fst).Nodup ∧
      ∃ links, (layout.blocks.map (Toml.assignments Link.Setting.entry)).mapM
          (Toml.Entries.assignAll? []) = some links ∧
        es = Toml.Entries.withLinks (layout.settings.map Setting.entry) links := by
  have tables : layout.document.sections.foldlM Toml.Entries.addSection?
      (layout.settings.map Setting.entry) =
        ((layout.blocks.map (Toml.assignments Link.Setting.entry)).mapM
          (Toml.Entries.assignAll? [])).map
            fun links => Toml.Entries.withLinks (layout.settings.map Setting.entry) links :=
    Toml.Entries.foldlM_addSection? (lookup_topology layout.settings) [] _
  rw [Toml.Document.entries?, Option.bind_eq_some_iff]
  simp only [document, Toml.Entries.assignAll?_assignments_iff]
  constructor
  · rintro ⟨_, ⟨rfl, once⟩, read⟩
    obtain ⟨links, made, rfl⟩ := Option.map_eq_some_iff.mp (tables.symm.trans read)
    exact ⟨once, links, made, rfl⟩
  · rintro ⟨once, links, made, rfl⟩
    exact ⟨_, ⟨rfl, once⟩, tables.trans (Option.map_eq_some_iff.mpr ⟨links, made, rfl⟩)⟩

/-- The text of a layout is read as the configuration that it writes, and as no other. -/
theorem Layout.ofText?_eq_some_iff {layout : Layout} {text : String} (h : layout.WrittenAs text)
    {c : Config} : ofText? text = some c ↔ c.WrittenBy layout := by
  have read : ofText? text = layout.document.entries?.bind fun es => ofToml? (.table .opened es) := by
    rw [ofText?, Toml.Document.ofText?_of_linesText h, ofLines_lines]
    rfl
  rw [read, Option.bind_eq_some_iff]
  simp only [entries?_document_iff]
  constructor
  · rintro ⟨_, ⟨once, links, made, rfl⟩, read⟩
    obtain ⟨settings, read⟩ := (ofToml?_withLinks_iff once).mp read
    exact ⟨settings, readBlocks_iff.mp (Option.bind_eq_some_iff.mpr ⟨links, made, read⟩)⟩
  · intro written
    obtain ⟨links, made, read⟩ := Option.bind_eq_some_iff.mp (readBlocks_iff.mpr written.links)
    have once := written.nodup_keys
    exact ⟨_, ⟨once, links, made, rfl⟩, (ofToml?_withLinks_iff once).mpr ⟨written.settings, read⟩⟩

end Config

/-! ### The text of a layout -/

theorem Link.Setting.exists_lineText (s : Setting) :
    ∃ t, Toml.LineText (.assignment (.ofEntry s.entry)) t := by
  cases s with
  | source n => exact Toml.exists_lineText_ofEntry (by decide) (.integer n)
  | target n => exact Toml.exists_lineText_ofEntry (by decide) (.integer n)
  | bidirectional b => exact Toml.exists_lineText_ofEntry (by decide) (.boolean b)

theorem Config.Setting.exists_lineText (s : Setting) :
    ∃ t, Toml.LineText (.assignment (.ofEntry s.entry)) t := by
  cases s with
  | logFilter s =>
    obtain ⟨t, ht⟩ := Toml.exists_valueText_string s
    exact Toml.exists_lineText_ofEntry (by decide) ht
  | compilerLookupsGated b => exact Toml.exists_lineText_ofEntry (by decide) (.boolean b)

namespace Config

theorem WrittenBy.exists_link {c : Config} {layout : Layout} (h : c.WrittenBy layout)
    {block : List Link.Setting} (hb : block ∈ layout.blocks) : ∃ l : Link, l.WrittenBy block := by
  have links := h.links
  generalize c.topology.links = ls, layout.blocks = blocks at links hb
  induction links with
  | nil => cases hb
  | cons first _ ih =>
    rcases List.mem_cons.mp hb with rfl | rest
    · exact ⟨_, first⟩
    · exact ih rest

theorem writtenBy_layout (c : Config) : c.WrittenBy c.layout where
  settings := writes_self (by simp [settings])
  links := by
    rw [layout, List.forall₂_map_right_iff, List.forall₂_same]
    exact fun l _ => writes_self (by simp [Link.settings])

theorem Layout.exists_writtenAs (layout : Layout) : ∃ text, layout.WrittenAs text := by
  refine Toml.exists_linesText fun l hl => ?_
  rcases List.mem_append.mp hl with setting | block
  · simp only [Toml.assignments, List.map_map, List.mem_map] at setting
    obtain ⟨s, -, rfl⟩ := setting
    exact s.exists_lineText
  · simp only [List.mem_flatMap, List.mem_map] at block
    obtain ⟨_, ⟨block, -, rfl⟩, line⟩ := block
    rcases List.mem_cons.mp line with rfl | line
    · exact ⟨_, .element ⟨by decide, by decide⟩⟩
    · simp only [Toml.assignments, List.map_map, List.mem_map] at line
      obtain ⟨s, -, rfl⟩ := line
      exact s.exists_lineText

/-- Texts in the layout that hosts write give back what was written. -/
structure ReadBack : Prop where
  /-- Every configuration is written by some lines: by all that there are about it. -/
  full (c : Config) : c.WrittenBy c.layout
  /-- Lines can be written whatever characters the filter has and whatever numbers the links have. -/
  writable (layout : Layout) : ∃ text, layout.WrittenAs text
  /-- However the lines are written, they are read as the configuration that they write and as no other. -/
  read_iff {layout : Layout} {text : String} (h : layout.WrittenAs text) (c : Config) :
    ofText? text = some c ↔ c.WrittenBy layout
  /-- One block that names no plugin to link from or to is enough for the text to be none at all. -/
  refused {layout : Layout} {text : String} (h : layout.WrittenAs text) {block : List Link.Setting}
    (hb : block ∈ layout.blocks)
    (incomplete : Link.NamesNone .source block ∨ Link.NamesNone .target block) : ofText? text = none

theorem layouts_readBack : ReadBack where
  full := writtenBy_layout
  writable := Layout.exists_writtenAs
  read_iff h _ := Layout.ofText?_eq_some_iff h
  refused {layout text} h block hb incomplete := by
    cases read : ofText? text with
    | none => rfl
    | some c =>
      obtain ⟨l, written⟩ := ((Layout.ofText?_eq_some_iff h).mp read).exists_link hb
      exact absurd incomplete (not_or.mpr written.namesBoth)

end Config

end PluginBroker
