import Stencil.Proofs.Json.Values
import Stencil.Proofs.Render.FunctionFree
import Stencil.Proofs.Source.Heads
import Stencil.Proofs.Text.Decoding

/-! Data through the text of JSON and back: what one filter writes the other reads, the same in every part. Whole numbers
    stay words and the others floating-point numbers, as their texts do. -/

namespace Stencil

open Json

namespace Value

/-- The fields of objects stand in the order of their names, one for each name. -/
inductive Ordered : Value → Prop
  | flat {v : Value} : v.items? = none → v.fields? = none → Ordered v
  | array {items : List Value} : (∀ v ∈ items, Ordered v) → Ordered (.array items)
  | object {fields : List (String × Value)} : Dict.Sorted fields → (∀ e ∈ fields, Ordered e.2) → Ordered (.object fields)

variable {v : Value}

/-! ### The JSON of a value -/

theorem toJson_array (items : List Value) : (array items).toJson = .array (items.map toJson) := by
  refine congrArg Json.array ?_
  induction items with
  | nil => rfl
  | cons item items ih => exact congrArg (item.toJson :: ·) ih

theorem toJson_object (fields : List (String × Value)) :
    (object fields).toJson = .object (fields.map fun e => (e.1, e.2.toJson)) := by
  refine congrArg Json.object ?_
  induction fields with
  | nil => rfl
  | cons e fields ih => exact congrArg ((e.1, e.2.toJson) :: ·) ih

theorem ofJson_array (items : List Json) : ofJson (.array items) = .array (items.map ofJson) := by
  refine congrArg Value.array ?_
  induction items with
  | nil => rfl
  | cons item items ih => exact congrArg (ofJson item :: ·) ih

theorem ofJson_object (members : List (String × Json)) :
    ofJson (.object members) = .object (members.map fun member => (member.1, ofJson member.2)) := by
  refine congrArg Value.object ?_
  induction members with
  | nil => rfl
  | cons member members ih => exact congrArg ((member.1, ofJson member.2) :: ·) ih

/-- The JSON of data stands for it. A whole number is a word, so it stays one. -/
theorem FunctionFree.ofJson_toJson (free : v.FunctionFree) : ofJson v.toJson = v := by
  induction free with
  | null | bool | float | string => rfl
  | int n =>
    show ofInt n.toInt = .int n
    rw [ofInt, Cursor.word?_toInt]
  | @array items _ ih =>
    have same : items.map (ofJson ∘ toJson) = items := (List.map_congr_left ih).trans (List.map_id' items)
    rw [toJson_array, ofJson_array, List.map_map, same]
  | @object fields _ ih =>
    have same : fields.map (fun e => (e.1, ofJson e.2.toJson)) = fields :=
      (List.map_congr_left fun e mem => congrArg (Prod.mk e.1) (ih e mem)).trans (List.map_id' fields)
    rw [toJson_object, ofJson_object, List.map_map]
    exact congrArg Value.object same

theorem Ordered.fair (ordered : v.Ordered) : v.toJson.Fair := by
  induction ordered with
  | @flat v noItems noFields =>
    cases v with
    | null | function => exact .null
    | bool b => exact .bool b
    | int n => exact .int n.le_toInt (Int.le_trans (Int.le_of_lt n.toInt_lt) (by decide))
    | float x => exact .float x
    | string s => exact .string s
    | array => cases noItems
    | object => cases noFields
  | array _ ih =>
    rw [toJson_array]
    exact .array (List.forall_mem_map.mpr ih)
  | object sorted _ ih =>
    rw [toJson_object]
    exact .object (by rw [Dict.keys_map]; exact sorted.nodup) (List.forall_mem_map.mpr ih)

/-- Data in order whose numbers have texts are read as they are. -/
theorem Ordered.written_eq (ordered : v.Ordered) : v.toJson.Finite → v.toJson.written = v.toJson := by
  induction ordered with
  | @flat v noItems noFields =>
    intro finite
    cases v with
    | float x => exact if_pos (finite x List.mem_cons_self)
    | null | function | bool | int | string => rfl
    | array => cases noItems
    | object => cases noFields
  | array _ ih =>
    intro finite
    rw [toJson_array, finite_array, List.forall_mem_map] at finite
    rw [toJson_array, written_array, List.map_map]
    exact congrArg Json.array (List.map_congr_left fun item mem => ih item mem (finite item mem))
  | object sorted _ ih =>
    intro finite
    rw [toJson_object, finite_object, List.forall_mem_map] at finite
    rw [toJson_object, written_object, List.map_map]
    refine (congrArg ofMembers (List.map_congr_left fun e mem =>
      congrArg (Prod.mk e.1) (ih e mem (finite e mem)))).trans ?_
    exact congrArg Json.object (Dict.ofList_of_sorted (List.pairwise_map.mpr sorted))

/-! ### Equality -/

theorem beqItems_self {items : List Value} (all : ∀ v ∈ items, v.beq v = true) : beqItems items items = true := by
  induction items with
  | nil => rfl
  | cons item items ih =>
    obtain ⟨here, rest⟩ := List.forall_mem_cons.mp all
    exact Bool.and_eq_true_iff.mpr ⟨here, ih rest⟩

theorem beqFields_self {fields : List (String × Value)} (all : ∀ e ∈ fields, e.2.beq e.2 = true) :
    beqFields fields fields = true := by
  induction fields with
  | nil => rfl
  | cons e fields ih =>
    obtain ⟨here, rest⟩ := List.forall_mem_cons.mp all
    exact Bool.and_eq_true_iff.mpr ⟨Bool.and_eq_true_iff.mpr ⟨beq_self_eq_true e.1, here⟩, ih rest⟩

/-- Data with finite numbers is equal to itself; a number that is none is not. -/
theorem FunctionFree.beq_self (free : v.FunctionFree) : v.toJson.Finite → v.beq v = true := by
  induction free with
  | null => exact fun _ => rfl
  | bool b => exact fun _ => beq_self_eq_true b
  | int n => exact fun _ => beq_self_eq_true n
  | string s => exact fun _ => beq_self_eq_true s
  | float x => exact fun finite => beq_self_of_isFinite (finite x List.mem_cons_self)
  | array _ ih =>
    rw [toJson_array, finite_array, List.forall_mem_map]
    exact fun finite => beqItems_self fun item mem => ih item mem (finite item mem)
  | object _ ih =>
    rw [toJson_object, finite_object, List.forall_mem_map]
    exact fun finite => beqFields_self fun e mem => ih e mem (finite e mem)

end Value

namespace Filter

/-- The filter that reads the text of JSON undoes the one that writes it, for data with finite numbers that nests no deeper
    than the reader follows. The texts of its numbers are taken to read back. -/
theorem readJson_writeJson {v : Value} (free : v.FunctionFree) (ordered : v.Ordered)
    (finite : ∀ x ∈ v.toJson.floats, x.isFinite = true) (exact : ∀ x ∈ v.toJson.floats, ReadsBack x)
    (shallow : v.toJson.nesting < 128) :
    ∃ text, Gives "js" v (.string text) ∧ Gives "jp" (.string text) v ∧ (v == v) = true := by
  have parsed : parse? maxJsonDepth v.toJson.text = some v.toJson :=
    (ordered.fair.parse?_text (fun x mem _ => exact x mem) maxJsonDepth).trans <|
      (if_pos (Nat.le_of_lt_succ shallow)).trans (congrArg some (ordered.written_eq finite))
  have read : readJson (.string v.toJson.text) = .ok v := by
    unfold readJson
    rw [show (Value.string v.toJson.text).text = v.toJson.text from rfl, parsed]
    exact congrArg Except.ok free.ofJson_toJson
  exact ⟨v.toJson.text, ⟨writeJson, rfl, rfl⟩, ⟨readJson, rfl, read⟩, free.beq_self finite⟩

/-- Numbers of both kinds, with the least and the greatest word, and characters of all kinds. -/
def mixedData : Value :=
  .object [
    ("a\"", .array [.int 2, .float 2.0, .array [.float (-0.0)], .int Int64.minValue, .int Int64.maxValue]),
    ("é", .object [("", .null), ("b", .string "\"\\/\n\x01\u2028\x7d")])]

theorem readJson_writeJson_mixedData :
    ∃ text, Gives "js" mixedData (.string text) ∧ Gives "jp" (.string text) mixedData ∧
      (mixedData == mixedData) = true := by
  have free : mixedData.FunctionFree := by
    refine .object (List.forall_mem_cons.mpr ⟨.array ?_, List.forall_mem_singleton.mpr (.object ?_)⟩)
    · refine List.forall_mem_cons.mpr ⟨.int _, List.forall_mem_cons.mpr ⟨.float _, List.forall_mem_cons.mpr ⟨?_, ?_⟩⟩⟩
      · exact .array (List.forall_mem_singleton.mpr (.float _))
      · exact List.forall_mem_cons.mpr ⟨.int _, List.forall_mem_singleton.mpr (.int _)⟩
    · exact List.forall_mem_cons.mpr ⟨.null, List.forall_mem_singleton.mpr (.string _)⟩
  have ordered : mixedData.Ordered := by
    refine .object (List.pairwise_pair.mpr (by decide)) (List.forall_mem_cons.mpr ⟨.array ?_, ?_⟩)
    · refine List.forall_mem_cons.mpr ⟨.flat rfl rfl, List.forall_mem_cons.mpr ⟨.flat rfl rfl, ?_⟩⟩
      refine List.forall_mem_cons.mpr ⟨.array (List.forall_mem_singleton.mpr (.flat rfl rfl)), ?_⟩
      exact List.forall_mem_cons.mpr ⟨.flat rfl rfl, List.forall_mem_singleton.mpr (.flat rfl rfl)⟩
    · refine List.forall_mem_singleton.mpr (.object (List.pairwise_pair.mpr (by decide)) ?_)
      exact List.forall_mem_cons.mpr ⟨.flat rfl rfl, List.forall_mem_singleton.mpr (.flat rfl rfl)⟩
  exact readJson_writeJson free ordered (by decide +kernel) (by decide +kernel) (by decide +kernel)

end Filter
end Stencil
