import Stencil.Proofs.Json.Values
import Stencil.Proofs.Source.Roundtrip

/-! Programs kept as text and loaded again. -/

namespace Stencil

open Json

variable {α β : Type}

/-- What a reader makes of a value whose text was written and read: what the value stands for, or nothing where a number
    has no text. -/
structure Restores (read : Json → Option α) (json : Json) (a : α) : Prop where
  fair : json.Fair
  reads : read json.written = if json.Finite then some a else none

namespace Restores

variable {read : Json → Option α} {json : Json} {a : α}

/-- A value without numbers that have no text. -/
theorem flat (fair : json.Fair) (finite : json.Finite) (h : read json.written = some a) : Restores read json a :=
  ⟨fair, h.trans (if_pos finite).symm⟩

theorem of_parts {form : Json} {p : Prop} [Decidable p] {o : Option α} (fair : form.Fair) (opens : read form.written = o)
    (parts : o = if p then some a else none) (finite : form.Finite ↔ p) : Restores read form a :=
  ⟨fair, opens.trans (parts.trans (if_congr finite.symm rfl rfl))⟩

theorem string (s : String) : Restores Form.string? (.string s) s := flat (.string s) nofun rfl

theorem bool (b : Bool) : Restores Form.bool? (.bool b) b := flat (.bool b) nofun rfl

theorem count {n : Nat} (bound : n ≤ Decimal.Numeral.maxIndex) : Restores Form.count? (.int n) n := by
  refine flat (.int (by simp [Decimal.Numeral.wordEnd]) (Int.ofNat_le.mpr bound)) nofun ?_
  exact if_pos ⟨Int.natCast_nonneg n, bound⟩

theorem word (n : Int64) : Restores Form.word? (.int n.toInt) n := by
  refine flat (.int n.le_toInt ?_) nofun (Cursor.word?_toInt n)
  exact Int.le_trans (Int.le_of_lt n.toInt_lt) (by decide)

/-- An infinity comes back as nothing, which is no number. -/
theorem float (x : Float) : Restores Form.float? (.float x) x := by
  refine .of_parts (.float x) rfl (p := x.isFinite = true) ?_ (by simp [Json.Finite, floats])
  by_cases finite : x.isFinite = true
  · rw [if_pos finite]
    exact congrArg Form.float? (if_pos finite)
  · rw [if_neg finite]
    exact congrArg Form.float? (if_neg finite)

theorem list {form : α → Json} {l : List α} (each : ∀ a ∈ l, Restores read (form a) a) :
    Restores (Form.list? read) (.array (l.map form)) l where
  fair := .array fun item mem => by
    obtain ⟨a, inside, rfl⟩ := List.mem_map.mp mem
    exact (each a inside).fair
  reads := by
    have finite : (Json.array (l.map form)).Finite ↔ ∀ a ∈ l, (form a).Finite := by
      rw [finite_array, List.forall_mem_map]
    have all : l.mapM (fun a => read (form a).written) = _ := mapM_ite (f := id) fun a mem => (each a mem).reads
    rw [written_array, List.map_map]
    show ((l.map (written ∘ form)).mapM read) = _
    rw [List.mapM_map]
    refine all.trans ?_
    rw [List.map_id]
    exact if_congr finite.symm rfl rfl

theorem map (h : Restores read json a) {outer : Json → Option β} {form : Json} {f : α → β} (fair : form.Fair)
    (finite : form.Finite ↔ json.Finite) (opens : outer form.written = (read json.written).map f) :
    Restores outer form (f a) where
  fair := fair
  reads := by
    rw [opens, h.reads, apply_ite (Option.map f)]
    exact if_congr finite.symm rfl rfl

theorem variant (h : Restores read json a) {outer : Json → Option β} {name : String} {f : α → β}
    (opens : outer (Form.variant name json.written) = (read json.written).map f) :
    Restores outer (Form.variant name json) (f a) := by
  have distinct : List.Nodup [name] := List.pairwise_singleton ..
  refine h.map (.object distinct fun member mem => ?_) (by simp [Form.variant, finite_object]) opens
  cases List.mem_singleton.mp mem
  exact h.fair

/-- What may be missing, if what is there is not written as nothing. -/
theorem nullable {form : α → Json} {o : Option α} (each : ∀ a ∈ o, Restores read (form a) a)
    (some : ∀ a, (form a).written ≠ .null) :
    Restores (fun json => Form.optional read (Option.some json)) (Form.nullable form o) o := by
  cases o with
  | none => exact flat .null nofun rfl
  | some a =>
    refine (each a rfl).map (each a rfl).fair Iff.rfl ?_
    show Form.optional read (Option.some (form a).written) = _
    unfold Form.optional
    split
    · next none => cases none
    · next null => exact absurd (Option.some.inj null) (some a)
    · next same => rw [Option.some.inj same]

end Restores

theorem bind_of_ite {o : Option α} {a : α} {f : α → Option β} {b : β} {p q : Prop} [Decidable p] [Decidable q]
    (first : o = if p then some a else none) (next : f a = if q then some b else none) :
    o.bind f = if p ∧ q then some b else none := by
  rw [first]
  by_cases here : p
  · rw [if_pos here]
    exact next.trans (if_congr (and_iff_right here).symm rfl rfl)
  · rw [if_neg here, if_neg fun both => here both.1]
    rfl

theorem last_of_ite {o : Option α} {a : α} {p : Prop} [Decidable p] (h : o = if p then some a else none)
    (f : α → β) : (o.bind fun a => some (f a)) = if p then some (f a) else none := by
  rw [h]
  split <;> rfl

theorem Restores.dict {read : Json → Option α} {form : α → Json} {d : Dict α} (sorted : Dict.Sorted d)
    (each : ∀ e ∈ d, Restores read (form e.2) e.2) :
    Restores (Form.dict? read) (.object (d.map fun e => (e.1, form e.2))) d := by
  have all : d.mapM (fun e => (read (form e.2).written).map (e.1, ·)) =
      if ∀ e ∈ d, (form e.2).Finite then some (d.map id) else none := by
    refine mapM_ite fun e mem => ?_
    rw [(each e mem).reads]
    exact apply_ite (Option.map (e.1, ·)) _ _ _
  rw [List.map_id] at all
  have kept : Dict.Sorted ((d.map fun e => (e.1, form e.2)).map fun member => (member.1, member.2.written)) := by
    rw [List.map_map]
    exact List.pairwise_map.mpr sorted
  refine .of_parts (.object (by rw [Dict.keys_map]; exact sorted.nodup) fun member mem => ?_) ?_ all ?_
  · obtain ⟨e, inside, rfl⟩ := List.mem_map.mp mem
    exact (each e inside).fair
  · rw [written_object, ofMembers, Dict.ofList_of_sorted kept, List.map_map]
    exact List.mapM_map
  · rw [finite_object, List.forall_mem_map]

/-- The fields of a record are read whatever the order that they are written in. -/
theorem Form.fields?_written (names : List String) (members : List (String × Json)) (distinct : (Dict.keys members).Nodup) :
    Form.fields? names (Json.object members).written =
      some (names.map fun name => (Dict.get? name members).map written) := by
  have distinct' : (Dict.keys (members.map fun member => (member.1, member.2.written))).Nodup := by
    rw [Dict.keys_map]
    exact distinct
  rw [written_object]
  refine congrArg some (List.map_congr_left fun name _ => ?_)
  rw [Dict.get?_ofList_of_nodup name distinct', Dict.get?_map]

theorem Form.record?_written (names : List String) (members : List (String × Json)) (distinct : (Dict.keys members).Nodup) :
    Form.record? names (Json.object members).written =
      some (names.map fun name => (Dict.get? name members).map written) :=
  Form.fields?_written names members distinct

/-! ### Paths -/

theorem Path.Proper.segments {p : Path} (proper : p.Proper) : Segment.AllProper p.segments := by
  obtain ⟨current, segments⟩ := p
  match segments, proper with
  | [], _ => trivial
  | .key _ :: _, proper => exact proper

theorem Segment.toJsons_eq (l : List Segment) : Segment.toJsons l = l.map Segment.toJson := by
  induction l with
  | nil => rfl
  | cons s l ih => exact congrArg (s.toJson :: ·) ih

theorem Json.nesting_le_of_variant {name : String} {json : Json} {depth : Nat}
    (nest : (Form.variant name json).nesting ≤ depth) : json.nesting ≤ depth := by
  simp only [Form.variant, nesting, nesting.memberNestings] at nest
  omega

/-- Fields nest no deeper than their object. -/
theorem Json.nesting_le_of_object {members : List (String × Json)} {depth : Nat}
    (nest : (Json.object members).nesting ≤ depth) : ∀ member ∈ members, member.2.nesting ≤ depth :=
  nesting_object_le.mp (nest.trans (Nat.le_succ depth))

theorem Json.nesting_le_of_array {items : List Json} {depth : Nat} (nest : (Json.array items).nesting ≤ depth) :
    ∀ item ∈ items, item.nesting ≤ depth :=
  nesting_array_le.mp (nest.trans (Nat.le_succ depth))

theorem Path.ofJson?_fields (depth : Nat) (current segments : Json) :
    Path.ofJson? (depth + 1) (Json.object [("current", current), ("segments", segments)]).written =
      (Form.bool? current.written).bind fun current =>
        (Form.list? (Segment.ofJson? (Path.ofJson? depth)) segments.written).bind fun segments =>
          some ⟨current, segments⟩ := by
  have fields := Form.record?_written ["current", "segments"] [("current", current), ("segments", segments)]
    (show List.Nodup ["current", "segments"] by decide)
  simp [Path.ofJson?, fields, Dict.get?, Form.required]

mutual

/-- A path comes back. -/
theorem Path.restores : ∀ p : Path, p.Proper → ∀ {depth : Nat}, p.toJson.nesting ≤ depth →
    Restores (Path.ofJson? depth) p.toJson p
  | ⟨current, segments⟩, proper, 0, nest => absurd nest (Nat.not_succ_le_zero _)
  | ⟨current, segments⟩, proper, depth + 1, nest => by
    have inside : (Json.array (Segment.toJsons segments)).nesting ≤ depth :=
      nesting_object_le.mp nest ("segments", _) (by simp)
    rw [Segment.toJsons_eq] at inside
    have each := Segment.restores segments proper.segments fun s mem =>
      nesting_le_of_array inside s.toJson (List.mem_map_of_mem mem)
    have all := Restores.list each
    have one := Restores.bool current
    have form : Path.toJson ⟨current, segments⟩ =
        .object [("current", .bool current), ("segments", .array (segments.map Segment.toJson))] := by
      rw [Path.toJson, Segment.toJsons_eq]
    rw [form]
    refine .of_parts (.object (show List.Nodup ["current", "segments"] by decide) (by simp [one.fair, all.fair]))
      (Path.ofJson?_fields ..) (bind_of_ite one.reads (last_of_ite all.reads _)) (by simp [finite_object])

theorem Segment.restores : ∀ l : List Segment, Segment.AllProper l → ∀ {depth : Nat},
    (∀ s ∈ l, s.toJson.nesting ≤ depth) → ∀ s ∈ l, Restores (Segment.ofJson? (Path.ofJson? depth)) s.toJson s
  | [], _, _, _ => nofun
  | .key name :: rest, proper, depth, nest => by
    refine List.forall_mem_cons.mpr ⟨?_, Segment.restores rest proper.2 (List.forall_mem_cons.mp nest).2⟩
    exact (Restores.string name).variant rfl
  | .index i :: rest, proper, depth, nest => by
    refine List.forall_mem_cons.mpr ⟨?_, Segment.restores rest proper.2 (List.forall_mem_cons.mp nest).2⟩
    exact (Restores.count proper.1).variant rfl
  | .dynamic path :: rest, proper, depth, nest => by
    obtain ⟨first, others⟩ := List.forall_mem_cons.mp nest
    refine List.forall_mem_cons.mpr ⟨?_, Segment.restores rest proper.2 others⟩
    exact (Path.restores path proper.1 (nesting_le_of_variant first)).variant rfl

end

theorem Path.written_toJson_ne_null (p : Path) : p.toJson.written ≠ .null := by
  obtain ⟨current, segments⟩ := p
  exact nofun

/-! ### Steps -/

namespace Step

theorem toJsons_eq (l : List Step) : toJsons l = l.map toJson := by
  induction l with
  | nil => rfl
  | cons s l ih => exact congrArg (s.toJson :: ·) ih

/-- A body in JSON. -/
def bodyToJson (b : Body) : Json := .array (toJsons b)

theorem blockToJson_eq (o : Option Body) : blockToJson o = Form.nullable bodyToJson o := by cases o <;> rfl

/-- A named body in JSON. -/
def namedBodyToJson (e : String × Body) : Json := .array [.string e.1, bodyToJson e.2]

theorem namedToJson_eq (l : List (String × Body)) : namedToJson l = l.map namedBodyToJson := by
  induction l with
  | nil => rfl
  | cons e l ih => exact congrArg (namedBodyToJson e :: ·) ih

/-- A parameter in JSON. -/
def paramToJson (e : String × Operand Body) : Json := .object [("key", .string e.1), ("value", operandToJson e.2)]

theorem paramsToJson_eq (l : List (String × Operand Body)) : paramsToJson l = l.map paramToJson := by
  induction l with
  | nil => rfl
  | cons e l ih => exact congrArg (paramToJson e :: ·) ih

/-- The bodies of a tag in JSON. -/
def bodiesToJson (bodies : Bodies Body) : Json :=
  .object [("block", blockToJson bodies.block), ("named", .array (namedToJson bodies.named))]

theorem toJson_section (kind : SectionKind) (key : Path) (own : Option Path) (list : List (String × Operand Body))
    (bodies : Bodies Body) : toJson (.sectionTag kind key own list bodies) = Form.variant "Section" (.object
      [("kind", .string kind.formName), ("key", key.toJson), ("context", Form.nullable Path.toJson own),
        ("params", .array (paramsToJson list)), ("bodies", bodiesToJson bodies)]) := rfl

theorem toJson_helper (name : String) (own : Option Path) (list : List (String × Operand Body)) (bodies : Bodies Body) :
    toJson (.helperTag name own list bodies) = Form.variant "Helper" (.object
      [("name", .string name), ("context", Form.nullable Path.toJson own), ("params", .array (paramsToJson list)),
        ("bodies", bodiesToJson bodies)]) := rfl

section

variable (path : Json → Option Path) (body : Json → Option Body)

theorem paramOfJson?_fields (key value : Json) :
    paramOfJson? path body (Json.object [("key", key), ("value", value)]).written =
      (Form.string? key.written).bind fun key => (operandOfJson? path body value.written).bind fun value =>
        some (key, value) := by
  have fields := Form.record?_written ["key", "value"] [("key", key), ("value", value)]
    (show List.Nodup ["key", "value"] by decide)
  simp [paramOfJson?, fields, Dict.get?, Form.required]

theorem namedBodyOfJson?_items (name steps : Json) : namedBodyOfJson? body (Json.array [name, steps]).written =
    (Form.string? name.written).bind fun name => (body steps.written).bind fun steps => some (name, steps) := rfl

theorem bodiesOfJson?_fields (block named : Json) :
    bodiesOfJson? body (Json.object [("block", block), ("named", named)]).written =
      (Form.optional body (some block.written)).bind fun block =>
        (Form.list? (namedBodyOfJson? body) named.written).bind fun named => some ⟨block, named⟩ := by
  have fields := Form.record?_written ["block", "named"] [("block", block), ("named", named)]
    (show List.Nodup ["block", "named"] by decide)
  simp [bodiesOfJson?, fields, Dict.get?, Form.required]

theorem ofForm?_reference (target filters : Json) :
    ofForm? path body "Reference" (Json.object [("path", target), ("filters", filters)]).written =
      (path target.written).bind fun target =>
        (Form.list? Form.string? filters.written).bind fun filters => some (.reference target filters) := by
  have fields := Form.fields?_written ["path", "filters"] [("path", target), ("filters", filters)]
    (show List.Nodup ["path", "filters"] by decide)
  simp [ofForm?, fields, Dict.get?, Form.required]

theorem ofForm?_section (kind key context params bodies : Json) :
    ofForm? path body "Section" (Json.object
      [("kind", kind), ("key", key), ("context", context), ("params", params), ("bodies", bodies)]).written =
      (SectionKind.ofJson? kind.written).bind fun kind => (path key.written).bind fun key =>
        (Form.optional path (some context.written)).bind fun context =>
          (Form.list? (paramOfJson? path body) params.written).bind fun params =>
            (bodiesOfJson? body bodies.written).bind fun bodies => some (.sectionTag kind key context params bodies) := by
  have fields := Form.fields?_written ["kind", "key", "context", "params", "bodies"]
    [("kind", kind), ("key", key), ("context", context), ("params", params), ("bodies", bodies)]
    (show List.Nodup ["kind", "key", "context", "params", "bodies"] by decide)
  simp [ofForm?, fields, Dict.get?, Form.required, paramsOfJson?]

theorem ofForm?_helper (name context params bodies : Json) :
    ofForm? path body "Helper" (Json.object
      [("name", name), ("context", context), ("params", params), ("bodies", bodies)]).written =
      (Form.string? name.written).bind fun name => (Form.optional path (some context.written)).bind fun context =>
        (Form.list? (paramOfJson? path body) params.written).bind fun params =>
          (bodiesOfJson? body bodies.written).bind fun bodies => some (.helperTag name context params bodies) := by
  have fields := Form.fields?_written ["name", "context", "params", "bodies"]
    [("name", name), ("context", context), ("params", params), ("bodies", bodies)]
    (show List.Nodup ["name", "context", "params", "bodies"] by decide)
  simp [ofForm?, fields, Dict.get?, Form.required, paramsOfJson?]

theorem ofForm?_partial (name context params : Json) :
    ofForm? path body "Partial" (Json.object [("name", name), ("context", context), ("params", params)]).written =
      (partialNameOfJson? body name.written).bind fun name =>
        (Form.optional path (some context.written)).bind fun context =>
          (Form.list? (paramOfJson? path body) params.written).bind fun params =>
            some (.partialTag name context params) := by
  have fields := Form.fields?_written ["name", "context", "params"]
    [("name", name), ("context", context), ("params", params)]
    (show List.Nodup ["name", "context", "params"] by decide)
  simp [ofForm?, fields, Dict.get?, Form.required, paramsOfJson?]

theorem ofForm?_block (name default : Json) :
    ofForm? path body "Block" (Json.object [("name", name), ("default", default)]).written =
      (Form.string? name.written).bind fun name =>
        (Form.optional body (some default.written)).bind fun default => some (.slot name default) := by
  have fields := Form.fields?_written ["name", "default"] [("name", name), ("default", default)]
    (show List.Nodup ["name", "default"] by decide)
  simp [ofForm?, fields, Dict.get?, Form.required]

end

theorem restores_of_content {json : Json} {s : Step} {path : Json → Option Path} {body : Json → Option Body}
    {name : String} (h : Restores (ofForm? path body name) json s) :
    Restores (ofJson? path body) (Form.variant name json) s :=
  h.variant (f := id) (congrFun Option.map_id _).symm

/-- Paths come back that nest no deeper than this. -/
def PathsCome (path : Json → Option Path) (depth : Nat) : Prop :=
  ∀ p : Path, p.Proper → p.toJson.nesting ≤ depth → Restores path p.toJson p

/-- A body comes back if it nests no deeper than this. -/
def Comes (body : Json → Option Body) (depth : Nat) (b : Body) : Prop :=
  (bodyToJson b).nesting ≤ depth → Restores body (bodyToJson b) b

section

variable {path : Json → Option Path} {body : Json → Option Body} {depth : Nat}

theorem restores_operand (paths : PathsCome path depth) (quoted : ∀ b, Dynamic b → Comes body depth b) {o : Operand Body}
    (canonical : o.Canonical) (nest : (operandToJson o).nesting ≤ depth) :
    Restores (operandOfJson? path body) (operandToJson o) o := by
  cases o with
  | text s => exact (Restores.string s).variant rfl
  | int n => exact (Restores.word n).variant rfl
  | float x => exact (Restores.float x).variant rfl
  | path p => exact (paths p canonical (nesting_le_of_variant nest)).variant rfl
  | body b => exact (quoted b canonical (nesting_le_of_variant nest)).variant rfl

theorem restores_param (paths : PathsCome path depth) (quoted : ∀ b, Dynamic b → Comes body depth b)
    {e : String × Operand Body} (canonical : e.2.Canonical) (nest : (paramToJson e).nesting ≤ depth) :
    Restores (paramOfJson? path body) (paramToJson e) e := by
  obtain ⟨key, o⟩ := e
  have inside := nesting_le_of_object nest
  have one := Restores.string key
  have other := restores_operand paths quoted canonical (inside ("value", operandToJson o) (by simp))
  exact .of_parts (.object (show List.Nodup ["key", "value"] by decide) (by simp [one.fair, other.fair]))
    (paramOfJson?_fields ..) (bind_of_ite one.reads (last_of_ite other.reads _)) (by simp [paramToJson, finite_object])

theorem restores_params (paths : PathsCome path depth) (quoted : ∀ b, Dynamic b → Comes body depth b)
    {own : Option Path} {list : List (String × Operand Body)} (fitted : Fitted own list)
    (nest : (Json.array (paramsToJson list)).nesting ≤ depth) :
    Restores (Form.list? (paramOfJson? path body)) (.array (paramsToJson list)) list := by
  rw [paramsToJson_eq] at nest ⊢
  exact .list fun e mem => restores_param paths quoted (fitted.canonical e mem)
    (nesting_le_of_array nest _ (List.mem_map_of_mem mem))

theorem restores_context (paths : PathsCome path depth) {own : Option Path} {list : List (String × Operand Body)}
    (fitted : Fitted own list) (nest : (Form.nullable Path.toJson own).nesting ≤ depth) :
    Restores (fun json => Form.optional path (some json)) (Form.nullable Path.toJson own) own := by
  refine .nullable (fun p here => paths p (fitted.proper p here) ?_) Path.written_toJson_ne_null
  cases here
  exact nest

theorem restores_block {o : Option Body} (comes : ∀ b ∈ o, Comes body depth b) (nest : (blockToJson o).nesting ≤ depth) :
    Restores (fun json => Form.optional body (some json)) (blockToJson o) o := by
  rw [blockToJson_eq] at nest ⊢
  refine .nullable (fun b here => comes b here ?_) nofun
  cases here
  exact nest

theorem restores_namedBody {e : String × Body} (comes : Comes body depth e.2)
    (nest : (namedBodyToJson e).nesting ≤ depth) : Restores (namedBodyOfJson? body) (namedBodyToJson e) e := by
  obtain ⟨name, b⟩ := e
  have inside := nesting_le_of_array nest
  have one := Restores.string name
  have other := comes (inside (bodyToJson b) (by simp))
  exact .of_parts (.array (by simp [one.fair, other.fair])) (namedBodyOfJson?_items ..)
    (bind_of_ite one.reads (last_of_ite other.reads _)) (by simp [namedBodyToJson, finite_array])

theorem restores_bodies {bodies : Bodies Body}
    (inner : ∀ b ∈ bodies.block.toList ++ bodies.named.map (·.2), Comes body depth b)
    (nest : (bodiesToJson bodies).nesting ≤ depth) : Restores (bodiesOfJson? body) (bodiesToJson bodies) bodies := by
  obtain ⟨block, named⟩ := List.forall_mem_append.mp inner
  have inside := nesting_le_of_object nest
  have one := restores_block (fun b here => block b (Option.mem_toList.mpr here)) (inside ("block", _) (by simp))
  have inside' := inside ("named", .array (namedToJson bodies.named)) (by simp)
  have form : bodiesToJson bodies =
      .object [("block", blockToJson bodies.block), ("named", .array (bodies.named.map namedBodyToJson))] := by
    rw [bodiesToJson, namedToJson_eq]
  rw [namedToJson_eq] at inside'
  have other : Restores (Form.list? (namedBodyOfJson? body)) _ bodies.named := .list fun e mem =>
    restores_namedBody (named e.2 (List.mem_map_of_mem mem)) (nesting_le_of_array inside' _ (List.mem_map_of_mem mem))
  rw [form]
  exact .of_parts (.object (show List.Nodup ["block", "named"] by decide) (by simp [one.fair, other.fair]))
    (bodiesOfJson?_fields ..) (bind_of_ite one.reads (last_of_ite other.reads _)) (by simp [finite_object])

theorem restores_kind (kind : SectionKind) : Restores SectionKind.ofJson? (.string kind.formName) kind :=
  .flat (.string _) nofun (by cases kind <;> rfl)

theorem restores_strings (texts : List String) : Restores (Form.list? Form.string?) (.ofStrings texts) texts :=
  .list fun s _ => .string s

theorem restores_reference (paths : PathsCome path depth) {target : Path} {filters : List String} (proper : target.Proper)
    (nest : (toJson (.reference target filters)).nesting ≤ depth) :
    Restores (ofJson? path body) (toJson (.reference target filters)) (.reference target filters) := by
  have inside := nesting_le_of_object (nesting_le_of_variant nest)
  have one := paths target proper (inside ("path", target.toJson) (by simp))
  have other := restores_strings filters
  exact restores_of_content (.of_parts
    (.object (show List.Nodup ["path", "filters"] by decide) (by simp [one.fair, other.fair]))
    (ofForm?_reference ..) (bind_of_ite one.reads (last_of_ite other.reads _)) (by simp [finite_object]))

theorem restores_partialName (quoted : ∀ b, Dynamic b → Comes body depth b) {name : PartialName Body}
    (canonical : name.Canonical) {own : Option Path} {list : List (String × Operand Body)}
    (nest : (toJson (.partialTag name own list)).nesting ≤ depth) : ∃ form, Restores (partialNameOfJson? body) form name ∧
      toJson (.partialTag name own list) = Form.variant "Partial" (.object [("name", form),
        ("context", Form.nullable Path.toJson own), ("params", .array (paramsToJson list))]) := by
  cases name with
  | static name => exact ⟨_, (Restores.string name).variant rfl, rfl⟩
  | dynamic b =>
    have inside := nesting_le_of_object (nesting_le_of_variant nest)
    have named := inside ("name", Form.variant "Dynamic" (bodyToJson b)) (by simp [bodyToJson])
    exact ⟨_, (quoted b canonical (nesting_le_of_variant named)).variant rfl, rfl⟩

theorem restores (paths : PathsCome path depth) (quoted : ∀ b, Dynamic b → Comes body depth b) {s : Step} (fit : s.Fit)
    (inner : ∀ b ∈ s.inner, Comes body depth b) (nest : s.toJson.nesting ≤ depth) :
    Restores (ofJson? path body) s.toJson s := by
  cases s with
  | write text => exact (Restores.string text).variant rfl
  | reference target filters => exact restores_reference paths fit.1 nest
  | sectionTag kind key own list bodies =>
    obtain ⟨proper, fitted, -⟩ := fit
    rw [toJson_section] at nest ⊢
    have inside := nesting_le_of_object (nesting_le_of_variant nest)
    have first := restores_kind kind
    have second := paths key proper (inside ("key", key.toJson) (by simp))
    have third := restores_context paths fitted (inside ("context", Form.nullable Path.toJson own) (by simp))
    have fourth := restores_params paths quoted fitted (inside ("params", .array (paramsToJson list)) (by simp))
    have fifth := restores_bodies inner (inside ("bodies", bodiesToJson bodies) (by simp))
    refine restores_of_content (.of_parts (.object
      (show List.Nodup ["kind", "key", "context", "params", "bodies"] by decide) ?_) (ofForm?_section ..)
      (bind_of_ite first.reads (bind_of_ite second.reads (bind_of_ite third.reads (bind_of_ite fourth.reads
        (last_of_ite fifth.reads _))))) ?_)
    · simp [first.fair, second.fair, third.fair, fourth.fair, fifth.fair]
    · simp [finite_object]
  | helperTag name own list bodies =>
    obtain ⟨-, fitted, -⟩ := fit
    rw [toJson_helper] at nest ⊢
    have inside := nesting_le_of_object (nesting_le_of_variant nest)
    have first := Restores.string name
    have second := restores_context paths fitted (inside ("context", Form.nullable Path.toJson own) (by simp))
    have third := restores_params paths quoted fitted (inside ("params", .array (paramsToJson list)) (by simp))
    have fourth := restores_bodies inner (inside ("bodies", bodiesToJson bodies) (by simp))
    refine restores_of_content (.of_parts (.object
      (show List.Nodup ["name", "context", "params", "bodies"] by decide) ?_) (ofForm?_helper ..)
      (bind_of_ite first.reads (bind_of_ite second.reads (bind_of_ite third.reads (last_of_ite fourth.reads _)))) ?_)
    · simp [first.fair, second.fair, third.fair, fourth.fair]
    · simp [finite_object]
  | partialTag name own list =>
    obtain ⟨canonical, fitted⟩ := fit
    obtain ⟨form, first, same⟩ := restores_partialName quoted canonical nest
    rw [same] at nest ⊢
    have inside := nesting_le_of_object (nesting_le_of_variant nest)
    have second := restores_context paths fitted (inside ("context", Form.nullable Path.toJson own) (by simp))
    have third := restores_params paths quoted fitted (inside ("params", .array (paramsToJson list)) (by simp))
    refine restores_of_content (.of_parts (.object (show List.Nodup ["name", "context", "params"] by decide) ?_)
      (ofForm?_partial ..) (bind_of_ite first.reads (bind_of_ite second.reads (last_of_ite third.reads _))) ?_)
    · simp [first.fair, second.fair, third.fair]
    · simp [finite_object]
  | slot name default =>
    have inside := nesting_le_of_object (nesting_le_of_variant nest)
    have first := Restores.string name
    have second := restores_block (fun b here => inner b (Option.mem_toList.mpr here))
      (inside ("default", blockToJson default) (by simp))
    exact restores_of_content (.of_parts
      (.object (show List.Nodup ["name", "default"] by decide) (by simp [first.fair, second.fair]))
      (ofForm?_block ..) (bind_of_ite first.reads (last_of_ite second.reads _)) (by simp [finite_object]))

theorem restores_inline (paths : PathsCome path depth) {s : Step} (inline : s.Inline) (nest : s.toJson.nesting ≤ depth) :
    Restores (ofJson? path body) s.toJson s := by
  cases s with
  | write text => exact (Restores.string text).variant rfl
  | reference target filters => exact restores_reference paths inline.1 nest
  | _ => exact inline.elim

end

/-! ### Bodies -/

section

variable {deepest depth : Nat} {b : Body}

theorem pathsCome (low : depth ≤ deepest) : PathsCome (Path.ofJson? deepest) depth := fun p proper nest =>
  p.restores proper (nest.trans low)

/-- A body comes back whose steps do so one level deeper. -/
theorem comes_of_each (low : depth ≤ deepest)
    (each : ∀ {depth : Nat}, depth ≤ deepest → ∀ s ∈ b, s.toJson.nesting ≤ depth →
      Restores (ofJson? (Path.ofJson? deepest) (bodyOfJson? (Path.ofJson? deepest) depth)) s.toJson s) :
    Comes (bodyOfJson? (Path.ofJson? deepest) depth) depth b := by
  intro nest
  cases depth with
  | zero => exact absurd nest (Nat.not_succ_le_zero _)
  | succ depth =>
    have inside := nesting_array_le.mp nest
    unfold bodyToJson
    rw [toJsons_eq] at inside ⊢
    exact .list fun s mem => each (Nat.le_of_succ_le low) s mem (inside _ (List.mem_map_of_mem mem))

theorem comes_of_dynamic (low : depth ≤ deepest) (dynamic : Dynamic b) :
    Comes (bodyOfJson? (Path.ofJson? deepest) depth) depth b :=
  comes_of_each low fun low s mem nest => restores_inline (pathsCome low) (dynamic.inline s mem) nest

theorem each_of_canonical (canonical : Canonical b) : ∀ {depth : Nat}, depth ≤ deepest → ∀ s ∈ b,
    s.toJson.nesting ≤ depth →
      Restores (ofJson? (Path.ofJson? deepest) (bodyOfJson? (Path.ofJson? deepest) depth)) s.toJson s := by
  -- The depth stays free: the bodies within a step are read at a lower one than the step.
  induction canonical with
  | nil => exact fun _ => nofun
  | @cons s rest fit inner _ _ inside behind =>
    intro depth low
    refine List.forall_mem_cons.mpr ⟨fun nest => ?_, behind low⟩
    exact restores (pathsCome low) (fun b dynamic => comes_of_dynamic low dynamic) fit
      (fun b mem => comes_of_each low (inside b mem)) nest

theorem comes_of_canonical (low : depth ≤ deepest) (canonical : Canonical b) :
    Comes (bodyOfJson? (Path.ofJson? deepest) depth) depth b :=
  comes_of_each low (each_of_canonical canonical)

end

end Step

/-! ### Templates -/

theorem Json.Fair.nesting_written_le {json : Json} (fair : json.Fair) :
    ∀ depth, json.written.nesting ≤ depth ↔ json.nesting ≤ depth := by
  induction fair with
  | null => exact fun _ => Iff.rfl
  | bool => exact fun _ => Iff.rfl
  | int => exact fun _ => Iff.rfl
  | float x =>
    intro depth
    show (if x.isFinite then Json.float x else .null).nesting ≤ depth ↔ 0 ≤ depth
    split <;> exact Iff.rfl
  | string => exact fun _ => Iff.rfl
  | array all ih =>
    intro depth
    rw [written_array]
    cases depth with
    | zero => exact iff_of_false (Nat.not_succ_le_zero _) (Nat.not_succ_le_zero _)
    | succ depth =>
      rw [nesting_array_le, nesting_array_le, List.forall_mem_map]
      exact forall₂_congr fun item mem => ih item mem depth
  | @object members distinct all ih =>
    intro depth
    have distinct' : (Dict.keys (members.map fun member => (member.1, member.2.written))).Nodup := by
      rw [Dict.keys_map]
      exact distinct
    rw [written_object, ofMembers]
    cases depth with
    | zero => exact iff_of_false (Nat.not_succ_le_zero _) (Nat.not_succ_le_zero _)
    | succ depth =>
      simp only [nesting_object_le, Dict.mem_ofList_of_nodup distinct', List.forall_mem_map]
      exact forall₂_congr fun member mem => ih member mem depth

theorem Json.Fair.nesting_written {json : Json} (fair : json.Fair) : json.written.nesting = json.nesting :=
  Nat.le_antisymm ((fair.nesting_written_le _).mpr (Nat.le_refl _)) ((fair.nesting_written_le _).mp (Nat.le_refl _))

namespace Template

theorem ofJson?_fields (name body blocks : Json) {depth : Nat}
    (nest : (Json.object [("name", name), ("body", body), ("blocks", blocks)]).written.nesting = depth) :
    ofJson? (Json.object [("name", name), ("body", body), ("blocks", blocks)]).written =
      (Form.optional Form.string? (some name.written)).bind fun name =>
        (Step.bodyOfJson? (Path.ofJson? depth) depth body.written).bind fun body =>
          (Form.dict? (Step.bodyOfJson? (Path.ofJson? depth) depth) blocks.written).bind fun blocks =>
            some ⟨name, body, blocks⟩ := by
  have fields : Form.record? ["name", "body", "blocks"]
      (Json.object [("name", name), ("body", body), ("blocks", blocks)]).written =
        some [some name.written, some body.written, some blocks.written] := by
    have distinct : (Dict.keys [("name", name), ("body", body), ("blocks", blocks)]).Nodup :=
      show List.Nodup ["name", "body", "blocks"] by decide
    rw [Form.record?_written _ _ distinct]
    simp [Dict.get?]
  unfold ofJson?
  rw [fields, nest]
  rfl

theorem toJson_eq (t : Template) : t.toJson = .object
    [("name", Form.nullable Json.string t.name), ("body", Step.bodyToJson t.body),
      ("blocks", .object (t.blocks.map fun e => (e.1, Step.bodyToJson e.2)))] := by
  obtain ⟨name, body, blocks⟩ := t
  cases name <;> rfl

/-- A template comes back, unless it has a number without a text. -/
theorem Canonical.restores {t : Template} (canonical : t.Canonical) : Restores ofJson? t.toJson t := by
  rw [toJson_eq]
  -- The reader of a template takes the nesting of what it is given for the deepest that a path or body in it can have.
  generalize whole : (Json.object [("name", _), ("body", Step.bodyToJson t.body),
    ("blocks", .object (t.blocks.map fun e => (e.1, Step.bodyToJson e.2)))]).nesting = deepest
  have inside := nesting_le_of_object (Nat.le_of_eq whole)
  have body := Step.comes_of_canonical (Nat.le_refl deepest) canonical.body
    (inside ("body", Step.bodyToJson t.body) (by simp))
  have table := nesting_le_of_object (inside
    ("blocks", .object (t.blocks.map fun e => (e.1, Step.bodyToJson e.2))) (by simp))
  have blocks : Restores (Form.dict? (Step.bodyOfJson? (Path.ofJson? deepest) deepest)) _ t.blocks :=
    .dict canonical.sorted fun e mem => Step.comes_of_canonical (Nat.le_refl deepest) (canonical.table e mem).2
      (table (e.1, Step.bodyToJson e.2) (List.mem_map_of_mem mem))
  have name : Restores (fun json => Form.optional Form.string? (some json)) (Form.nullable Json.string t.name) t.name :=
    .nullable (fun s _ => .string s) nofun
  have fair : (Json.object [("name", Form.nullable Json.string t.name), ("body", Step.bodyToJson t.body),
      ("blocks", .object (t.blocks.map fun e => (e.1, Step.bodyToJson e.2)))]).Fair :=
    .object (show List.Nodup ["name", "body", "blocks"] by decide) (by simp [name.fair, body.fair, blocks.fair])
  refine .of_parts fair (ofJson?_fields _ _ _ (fair.nesting_written.trans whole))
    (bind_of_ite name.reads (bind_of_ite body.reads (last_of_ite blocks.reads _))) ?_
  simp [finite_object]

end Template

end Stencil
