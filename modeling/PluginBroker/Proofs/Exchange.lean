import Mathlib.Data.List.Count
import PluginBroker.Json.Codec
import PluginBroker.Proofs.JsonText

/-! What is exchanged as JSON is read back as it was written, for each of the types, and a text that
is read at all is read like the text that its value is written as. -/

namespace PluginBroker

namespace Json

/-! ### Lists and records -/

theorem elementsWhole_iff {es : List Json} :
    elementsWhole es = true ↔ ∀ e ∈ es, isWhole e = true := by
  induction es with
  | nil => simp [elementsWhole]
  | cons e es ih => simp [elementsWhole, ih]

@[simp] theorem text?_text (s : String) : text? (text s) = some s := rfl

@[simp] theorem nat?_nat (n : Nat) : nat? (nat n) = some n := rfl

@[simp] theorem bool?_bool (b : Bool) : bool? (bool b) = some b := rfl

@[simp] theorem isWhole_nat (n : Nat) : isWhole (nat n) = true := rfl

@[simp] theorem isWhole_text (s : String) : isWhole (text s) = true := rfl

@[simp] theorem isWhole_bool (b : Bool) : isWhole (bool b) = true := rfl

theorem isWhole_ofList {α : Type} {encode : α → Json} (h : ∀ a, isWhole (encode a) = true)
    (as : List α) : isWhole (ofList encode as) = true := by
  apply elementsWhole_iff.mpr
  intro e he
  obtain ⟨a, -, rfl⟩ := List.mem_map.mp he
  exact h a

theorem isWhole_record {members : List (String × Json)} (h : ∀ m ∈ members, isWhole m.2 = true) :
    isWhole (record members) = true := by
  show membersWhole (members.map fun m => (some m.1, m.2)) = true
  induction members with
  | nil => rfl
  | cons m ms ih =>
    obtain ⟨hm, hms⟩ := List.forall_mem_cons.mp h
    simp [membersWhole, hm, ih hms]

theorem list?_ofList {α : Type} {encode : α → Json} {decode : Json → Option α}
    (h : ∀ a, decode (encode a) = some a) (as : List α) :
    list? decode (ofList encode as) = some as := by
  show (as.map encode).mapM decode = some as
  induction as with
  | nil => rfl
  | cons a as ih => simp [List.mapM_cons, h, ih]

/-- A record that is written with distinct names has the members of those names. -/
theorem fields?_record {names : List String} {members : List (String × Json)}
    (hn : names.Nodup) (h : members.map Prod.fst = names) :
    (record members).fields? names = some (members.map fun m => (some m.1, m.2)) := by
  have once : repeats names (members.map fun m => (some m.1, m.2)) = false := by
    apply List.any_eq_false.mpr
    intro n _
    have count : (members.map fun m => (some m.1, m.2)).countP (·.1 == some n) =
        (members.map Prod.fst).count n := by
      rw [List.count, List.countP_map, List.countP_map]
      rfl
    have := List.nodup_iff_count.mp hn n
    simp only [count, h, decide_eq_true_eq]
    omega
  simp [record, fields?, once]

end Json

namespace Category

theorem isWhole_toJson (c : Category) : c.toJson.isWhole = true := rfl

theorem ofJson?_toJson (c : Category) : ofJson? c.toJson = some c := ofText?_text c

end Category

namespace PluginId

theorem isWhole_toJson (p : PluginId) : p.toJson.isWhole = true := rfl

theorem ofJson?_toJson (p : PluginId) : ofJson? p.toJson = some p := by
  simp [ofJson?, toJson]

end PluginId

namespace Method

theorem isWhole_toJson (m : Method) : m.toJson.isWhole = true := by
  apply Json.isWhole_record
  simp [Json.isWhole_ofList Json.isWhole_text]

theorem ofJson?_toJson (m : Method) : ofJson? m.toJson = some m := by
  rw [ofJson?, toJson, Json.fields?_record]
  · simp [List.lookup_cons, Json.required?, Json.optional?, Json.list?_ofList Json.text?_text]
  · decide
  · rfl

end Method

namespace Contract

theorem isWhole_toJson (c : Contract) : c.toJson.isWhole = true := by
  apply Json.isWhole_record
  simp

theorem ofJson?_toJson (c : Contract) : ofJson? c.toJson = some c := by
  rw [ofJson?, toJson, Json.fields?_record]
  · simp [List.lookup_cons, Json.required?]
  · decide
  · rfl

end Contract

namespace Link

theorem isWhole_toJson (l : Link) : l.toJson.isWhole = true := by
  apply Json.isWhole_record
  simp [PluginId.isWhole_toJson]

theorem ofJson?_toJson (l : Link) : ofJson? l.toJson = some l := by
  rw [ofJson?, toJson, Json.fields?_record]
  · simp [List.lookup_cons, Json.required?, Json.optional?, PluginId.ofJson?_toJson]
  · decide
  · rfl

end Link

namespace Topology

theorem isWhole_toJson (t : Topology) : t.toJson.isWhole = true := by
  apply Json.isWhole_record
  simp [Json.isWhole_ofList Link.isWhole_toJson]

theorem ofJson?_toJson (t : Topology) : ofJson? t.toJson = some t := by
  rw [ofJson?, toJson, Json.fields?_record]
  · simp [Json.optional?, Json.list?_ofList Link.ofJson?_toJson]
  · decide
  · rfl

end Topology

namespace Config

theorem isWhole_toJson (c : Config) : c.toJson.isWhole = true := by
  apply Json.isWhole_record
  simp [Topology.isWhole_toJson]

theorem ofJson?_toJson (c : Config) : ofJson? c.toJson = some c := by
  rw [ofJson?, toJson, Json.fields?_record]
  · simp [List.lookup_cons, Json.optional?, Topology.ofJson?_toJson]
  · decide
  · rfl

end Config

/-! ### Texts -/

namespace Json

/-- Each value is read back from its text and written as that text again, and what a text is read as
is what the text that is then written is read as. -/
structure Lossless {α : Type} (toJson : α → Json) (ofJson? : Json → Option α) : Prop where
  reads : ∀ a, decode? ofJson? (toJson a).compact = some a
  rewrites : ∀ a, (decode? ofJson? (toJson a).compact).map (fun b => (toJson b).compact) =
    some (toJson a).compact
  settles : ∀ s a, decode? ofJson? s = some a →
    decode? ofJson? (toJson a).compact = decode? ofJson? s

theorem Lossless.of_value {α : Type} {toJson : α → Json} {ofJson? : Json → Option α}
    (whole : ∀ a, isWhole (toJson a) = true) (value : ∀ a, ofJson? (toJson a) = some a) :
    Lossless toJson ofJson? := by
  have reads (a : α) : decode? ofJson? (toJson a).compact = some a := by
    rw [decode?, ofText?_compact (whole a), Option.bind_some, value]
  constructor
  · exact reads
  · intro a
    rw [reads a, Option.map_some]
  · intro s a h
    rw [reads a, h]

end Json

/-- Nothing is lost when a value is written as JSON and read back. -/
theorem exchange_lossless :
    Json.Lossless Category.toJson Category.ofJson? ∧
    Json.Lossless PluginId.toJson PluginId.ofJson? ∧
    Json.Lossless Method.toJson Method.ofJson? ∧
    Json.Lossless Contract.toJson Contract.ofJson? ∧
    Json.Lossless Link.toJson Link.ofJson? ∧
    Json.Lossless Topology.toJson Topology.ofJson? ∧
    Json.Lossless Config.toJson Config.ofJson? := by
  refine ⟨?_, ?_, ?_, ?_, ?_, ?_, ?_⟩
  · exact .of_value Category.isWhole_toJson Category.ofJson?_toJson
  · exact .of_value PluginId.isWhole_toJson PluginId.ofJson?_toJson
  · exact .of_value Method.isWhole_toJson Method.ofJson?_toJson
  · exact .of_value Contract.isWhole_toJson Contract.ofJson?_toJson
  · exact .of_value Link.isWhole_toJson Link.ofJson?_toJson
  · exact .of_value Topology.isWhole_toJson Topology.ofJson?_toJson
  · exact .of_value Config.isWhole_toJson Config.ofJson?_toJson

end PluginBroker
