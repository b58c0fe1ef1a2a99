import Stencil.Proofs.Source.Lexemes
import Stencil.Proofs.Source.Positions

/-! The parser as readers that leave what comes next to others. Begun at a place, a reader ends at a place or with a fault. A
    few take characters themselves; every other has a script of readers, and ends where these end one after another. What is
    read and undone is in the scripts too, so they tell all the places to which the parser comes. -/

namespace Stencil

/-- What the parser sets out to read at a place. -/
inductive Reader where
  /-- These characters, in one go and with no look at each of them. -/
  | mark (text : String)
  /-- One character, whichever it is. -/
  | char
  /-- Nothing: the parser raises a fault. -/
  | fail (fault : Fault)
  /-- What another reader reads, from where the parser goes back. -/
  | undone (reader : Reader)
  /-- These characters, if they come next. -/
  | optional (text : String)
  /-- The characters of a class that come next. -/
  | chars (p : Char → Bool)
  /-- Text up to a brace or a line break. -/
  | plain
  /-- Everything up to a closing text. -/
  | closing (close what : String)
  | key
  | index
  | path
  | segments
  | filters
  | reference
  | special
  | pieces (reversed : List Char)
  | quoted
  | fraction
  | number
  | paramValue
  | params
  | context
  | keyHead
  | pathHead
  | partialName
  | partialTag
  | closingTag
  | separatorTag
  | tag
  | nodes
  | bodies (written : String)
  | namedBodies (written name : String)

namespace Reader

open Cursor

/-- The place where a reader ends, or the fault it raises. -/
def ended {α : Type} (cursor : α → Cursor) : Except ParseError α → Except (Option ParseError) Cursor
  | .ok a => .ok (cursor a)
  | .error e => .error (some e)

/-- Where a reader ends that has a value to give or none. -/
def ended? {α : Type} (cursor : α → Cursor) : Option α → Except (Option ParseError) Cursor
  | some a => .ok (cursor a)
  | none => .error none

/-- Where a reader ends, begun at a place. A reader that gives up without a fault ends nowhere. -/
def read : Reader → Cursor → Except (Option ParseError) Cursor
  | .mark text, c => ended (·.cursor) (c.expect text)
  | .char, c => if c.rest = [] then .error none else .ok c.next
  | .fail fault, c => .error (some (c.fault fault))
  | .undone _, c => .ok c
  | .optional text, c => .ok (if c.startsWith text then c.skip text.length else c)
  | .chars p, c => .ok (c.walk (c.run p))
  | .plain, c => .ok (c.walk (textLength c.rest))
  | .closing close what, c => ended (·.cursor) (c.upToClosing close what)
  | .key, c => ended (·.cursor) c.key
  | .index, c => ended (·.cursor) c.index
  | .path, c => ended (·.cursor) c.path
  | .segments, c => ended (·.cursor) c.segments
  | .filters, c => ended? (·.cursor) c.filters?
  | .reference, c => ended? (·.cursor) c.reference?
  | .special, c => ended (·.cursor) c.special
  | .pieces reversed, c => ended (·.cursor) (c.pieces reversed)
  | .quoted, c => ended (·.cursor) c.quoted
  | .fraction, c =>
    .ok (if c.startsWith "." && (c.skip 1).sees Char.isDigit then (c.skip 1).walk ((c.skip 1).run Char.isDigit) else c)
  | .number, c => ended (·.cursor) c.number
  | .paramValue, c => ended (·.cursor) c.paramValue
  | .params, c => ended (·.cursor) c.params
  | .context, c => ended (·.cursor) c.context
  | .keyHead, c => ended (·.cursor) (c.head Cursor.key)
  | .pathHead, c => ended (·.cursor) (c.head Cursor.path)
  | .partialName, c => ended (·.cursor) c.partialName
  | .partialTag, c => ended (·.cursor) c.partialTag
  | .closingTag, c => ended (·.cursor) c.closingTag
  | .separatorTag, c => ended (·.cursor) c.separatorTag
  | .tag, c =>
    if brace : c.startsWith "\x7b" then ended (·.cursor) (c.tag (rest_ne_nil_of_startsWith brace Nat.one_pos))
    else ended (·.cursor) (c.expect "\x7b")
  | .nodes, c => ended (·.cursor) c.nodes
  | .bodies written, c => ended (·.cursor) (c.bodies written)
  | .namedBodies written name, c => ended (·.cursor) (c.namedBodies written name)

/-- Where readers end that come one after another. -/
def readAll : List Reader → Cursor → Except (Option ParseError) Cursor
  | [], c => .ok c
  | r :: rest, c => r.read c >>= readAll rest

/-- What a reader does by itself, before those of its script. -/
def move : Reader → Cursor → Except (Option ParseError) Cursor
  | .mark text, c => (Reader.mark text).read c
  | .char, c => Reader.char.read c
  | .fail fault, c => (Reader.fail fault).read c
  | _, c => .ok c

/-- The fault of a reader that has read all it reads and then refuses it. -/
def refused {α : Type} : Except ParseError α → List Reader
  | .ok _ => []
  | .error e => [.fail e.fault]

/-- The bodies behind the head of a tag, if it has any. -/
def behindHead {α : Type} {c : Cursor} : Except ParseError (Read c (Head α)) → List Reader
  | .ok head => if head.value.closed then [] else [.bodies head.value.written]
  | .error _ => []

/-- What follows the nodes of a body. -/
def behindNodes {c : Cursor} (written : String) : Except ParseError (NodeRun c) → List Reader
  | .error _ => []
  | .ok run =>
    match run.stop with
    | .sourceEnd => [.fail (.endOfSource (some ("\x7b/" ++ written ++ "\x7d")))]
    | .close found => if found = written then [] else [.fail (.mismatchedClose written found)]
    | .separator name => [.namedBodies written name]

/-- What follows the name of a special. -/
def behindSpecial {c : Cursor} : Except ParseError (Read c String) → List Reader
  | .error _ => []
  | .ok name => if (Special.ofName? name.value).isSome then [.mark "\x7d"] else [.fail (.unknownSpecial name.value)]

/-- What follows an opening brace with no sigil: a reference, which is tried and undone if there is none. -/
def behindBrace (c : Cursor) : Reader :=
  if c.reference?.isSome then .reference else .undone .reference

/-- What follows the opening brace of a tag. -/
def behindSigil (c : Cursor) : List Reader :=
  match c.rest.drop 1 with
  | '!' :: _ => [.mark "!", .closing "!\x7d" "comment"]
  | '\x60' :: _ => [.mark "\x60", .closing "\x60\x7d" "raw block"]
  | '~' :: _ => [.special]
  | '#' :: _ => .mark "#" :: .pathHead :: behindHead ((c.skip 2).head Cursor.path)
  | '?' :: _ => .mark "?" :: .pathHead :: behindHead ((c.skip 2).head Cursor.path)
  | '^' :: _ => .mark "^" :: .pathHead :: behindHead ((c.skip 2).head Cursor.path)
  | '@' :: _ => .mark "@" :: .keyHead :: behindHead ((c.skip 2).head Cursor.key)
  | '+' :: _ => .mark "+" :: .keyHead :: behindHead ((c.skip 2).head Cursor.key)
  | '<' :: _ => .mark "<" :: .keyHead :: behindHead ((c.skip 2).head Cursor.key)
  | '>' :: _ => [.mark ">", .partialTag]
  | '/' :: _ => [.mark "/", .closingTag]
  | ':' :: _ => [.mark ":", .separatorTag]
  | _ => [behindBrace (c.skip 1)]

/-- The head of a tag: its name, context and parameters, up to the closing brace. -/
def headScript (name : Reader) : List Reader :=
  [.chars Text.isBlank, name, .context, .params, .chars Text.isBlank, .optional "/", .mark "\x7d"]

/-- What there is where no tag starts: plain text, or blanks that begin with a line break. -/
def textOrBreak (c : Cursor) : Reader :=
  match c.rest with
  | '\n' :: _ | '\r' :: '\n' :: _ => .chars Text.isBlank
  | _ => .plain

/-- The readers to which a reader leaves what it does not read by itself, one after another. -/
def script : Reader → Cursor → List Reader
  | .mark _, _ | .char, _ | .fail _, _ | .undone _, _ => []
  | .optional text, c => if c.startsWith text then [.mark text] else []
  | .chars p, c => if c.sees p then [.char, .chars p] else []
  | .plain, c => if textLength c.rest = 0 then [] else [.char, .plain]
  | .closing close what, c =>
    if c.startsWith close then [.mark close]
    else if c.rest = [] then [.fail (.unclosed what)]
    else [.char, .closing close what]
  | .key, c => if c.seesKey then [.chars isKeyChar] else [.fail (.expected "identifier")]
  | .index, c => .chars Char.isDigit :: refused c.index
  | .path, c =>
    if c.startsWith "." then if (c.skip 1).seesKey then [.mark ".", .key, .segments] else [.mark "."]
    else [.key, .segments]
  | .segments, c =>
    if c.startsWith "." && (c.skip 1).seesKey then [.mark ".", .key, .segments]
    else if c.startsWith "[" then
      [.mark "[", if (c.skip 1).sees Char.isDigit then .index else .path, .mark "]", .segments]
    else []
  | .filters, c => if c.startsWith "|" then [.mark "|", .key, .filters] else []
  | .reference, _ => [.path, .filters, .mark "\x7d"]
  | .special, c => .mark "~" :: .key :: behindSpecial (c.skip 1).key
  | .pieces reversed, c =>
    match c.rest with
    | [] => [.fail (.unclosed "string")]
    | '"' :: _ => [.mark "\""]
    | '\\' :: '"' :: _ => [.mark "\\", .mark "\"", .pieces ['"']]
    | '\x7b' :: _ =>
      if (c.skip 1).startsWith "~" then [.mark "\x7b", .special, .pieces []]
      else [.mark "\x7b", behindBrace (c.skip 1), .pieces (if (c.skip 1).reference?.isSome then [] else ['\x7b'])]
    | ch :: _ => [.char, .pieces (ch :: reversed)]
  | .quoted, _ => [.mark "\"", .pieces []]
  | .fraction, c =>
    if c.startsWith "." && (c.skip 1).sees Char.isDigit then [.mark ".", .chars Char.isDigit] else []
  | .number, c => .optional "-" :: .chars Char.isDigit :: .fraction :: refused c.number
  | .paramValue, c =>
    if c.startsWith "\"" then [.quoted]
    else if c.sees fun ch => ch.isDigit || ch = '-' then [.number]
    else [.path]
  | .params, c =>
    if 0 < c.run Text.isBlank && c.skipBlanks.seesKey then
      [.chars Text.isBlank, .key, .mark "=", .paramValue, .params]
    else [.undone (.chars Text.isBlank)]
  | .context, c => if c.startsWith ":" then [.mark ":", .path] else []
  | .keyHead, _ => headScript .key
  | .pathHead, _ => headScript .path
  | .partialName, c =>
    if c.startsWith "\"" then [.quoted] else [.key, .chars fun ch => isKeyChar ch || ch = '.']
  | .partialTag, _ => [.chars Text.isBlank, .partialName, .context, .params, .chars Text.isBlank, .mark "/\x7d"]
  | .closingTag, _ => [.chars Text.isBlank, .path, .chars Text.isBlank, .mark "\x7d"]
  | .separatorTag, _ => [.key, .mark "\x7d"]
  | .tag, c => .mark "\x7b" :: behindSigil c
  | .nodes, c =>
    if more : c.rest = [] then []
    else if c.startsWith "\x7b" then
      match c.tag more with
      | .ok ⟨.node _, _, _⟩ => [.tag, .nodes]
      | _ => [.tag]
    else [textOrBreak c, .nodes]
  | .bodies written, c | .namedBodies written _, c => .nodes :: behindNodes written c.nodes

/-! ### A reader ends where those of its script end -/

section

variable {c d : Cursor} {text : String} {p : Char → Bool} {rest : List Reader}

theorem read_mark (h : c.startsWith text = true) : (mark text).read c = .ok (c.skip text.length) := by
  rw [read, expect, if_pos h]
  rfl

theorem readAll_mark (h : c.startsWith text = true) : readAll (.mark text :: rest) c = readAll rest (c.skip text.length) := by
  rw [readAll, read_mark h]
  rfl

theorem read_char (more : c.rest ≠ []) : Reader.char.read c = .ok c.next := if_neg more

theorem readAll_char (more : c.rest ≠ []) : readAll (.char :: rest) c = readAll rest c.next := by
  rw [readAll, read_char more]
  rfl

theorem readAll_singleton (r : Reader) (c : Cursor) : readAll [r] c = r.read c := bind_pure _

theorem run_eq_zero (h : c.sees p = false) : c.run p = 0 := by
  unfold sees at h
  unfold run
  cases rest : c.rest with
  | nil => rfl
  | cons ch tail =>
    rw [rest, List.head?_cons, Option.any_some] at h
    simp [h]

theorem run_eq_next_run (h : c.sees p = true) : c.run p = c.next.run p + 1 := by
  unfold sees at h
  unfold run
  cases rest : c.rest with
  | nil => simp [rest] at h
  | cons ch tail =>
    rw [rest, List.head?_cons, Option.any_some] at h
    simp [rest, h]

theorem read_chars (p : Char → Bool) (c : Cursor) : (chars p).read c = readAll ((chars p).script c) c := by
  rw [script]
  split
  · rename_i sees
    rw [readAll_char (rest_ne_nil_of_sees sees), readAll_singleton, read, read, run_eq_next_run sees]
    rfl
  · rename_i other
    rw [read, run_eq_zero (Bool.eq_false_iff.mpr other)]
    rfl

theorem textLength_eq_next (h : textLength c.rest ≠ 0) : c.rest ≠ [] ∧ textLength c.rest = textLength c.next.rest + 1 := by
  rw [next_rest]
  generalize c.rest = l at h ⊢
  fun_cases textLength l
  case case5 ch tail _ _ _ => exact ⟨List.cons_ne_nil _ _, rfl⟩
  all_goals exact absurd rfl h

theorem read_plain (c : Cursor) : plain.read c = readAll (plain.script c) c := by
  rw [script]
  split
  · rename_i nothing
    rw [read, nothing]
    rfl
  · rename_i some
    obtain ⟨more, length⟩ := textLength_eq_next some
    rw [readAll_char more, readAll_singleton, read, read, length]
    rfl

theorem distance?_of_isPrefixOf {text l : List Char} (h : text.isPrefixOf l = true) : distance? text l = some 0 := by
  cases l with
  | nil =>
    cases text with
    | nil => rfl
    | cons => cases h
  | cons => exact if_pos h

theorem read_closing (close what : String) (c : Cursor) :
    (closing close what).read c = readAll ((closing close what).script c) c := by
  rw [script]
  split
  · rename_i here
    rw [readAll_singleton, read_mark here, read, upToClosing, distance?_of_isPrefixOf here]
    rfl
  · rename_i other
    rw [startsWith] at other
    cases rest : c.rest with
    | nil =>
      have some : ¬ close.toList.isEmpty = true := fun empty => other (by rw [List.isEmpty_iff.mp empty]; rfl)
      rw [if_pos rfl, readAll_singleton]
      change ended _ (c.upToClosing close what) = _
      rw [upToClosing, rest, distance?, if_neg some]
      rfl
    | cons ch tail =>
      rw [if_neg (List.cons_ne_nil _ _), readAll_char (rest_ne_nil rest), readAll_singleton, read, read, upToClosing,
        upToClosing, next_rest, rest, List.drop_one, List.tail_cons, distance?, if_neg (rest ▸ other)]
      cases distance? close.toList tail <;> rfl

/-- A reader that begins with another one and goes on from where that one ends. -/
theorem ended_bind {α β : Type} {r : Reader} {x : Except ParseError α} {f : α → Except ParseError β}
    {cursor' : β → Cursor} (cursor : α → Cursor) (first : r.read c = ended cursor x)
    (others : ∀ a, x = .ok a → ended cursor' (f a) = readAll rest (cursor a)) :
    ended cursor' (x >>= f) = readAll (r :: rest) c := by
  rw [readAll, first]
  cases x with
  | error e => rfl
  | ok a => exact others a rfl

theorem read_key (c : Cursor) : key.read c = readAll (key.script c) c := by
  rw [script]
  change ended _ c.key = _
  rw [Cursor.key]
  split
  · rw [readAll_singleton]
    rfl
  · rfl

theorem read_index (c : Cursor) : index.read c = readAll (index.script c) c := by
  rw [script]
  change ended _ c.index = readAll (_ :: refused c.index) _
  rw [Cursor.index]
  split <;> rfl

theorem read_path (c : Cursor) : path.read c = readAll (path.script c) c := by
  rw [script]
  change ended _ c.path = _
  rw [Cursor.path]
  split
  · rename_i dot
    split
    · rw [readAll_mark dot]
      refine ended_bind (·.cursor) rfl fun _ _ => ?_
      exact ended_bind (·.cursor) rfl fun _ _ => rfl
    · rw [readAll_mark dot]
      rfl
  · refine ended_bind (·.cursor) rfl fun _ _ => ?_
    exact ended_bind (·.cursor) rfl fun _ _ => rfl

theorem read_segments (c : Cursor) : segments.read c = readAll (segments.script c) c := by
  rw [script]
  change ended _ c.segments = _
  rw [Cursor.segments]
  split
  · rename_i dot
    rw [readAll_mark (Bool.and_eq_true_iff.mp dot).1]
    refine ended_bind (·.cursor) rfl fun _ _ => ?_
    exact ended_bind (·.cursor) rfl fun _ _ => rfl
  · split
    · rename_i bracket
      rw [readAll_mark bracket]
      split
      · refine ended_bind (·.cursor) rfl fun _ _ => ?_
        refine ended_bind (·.cursor) rfl fun _ _ => ?_
        exact ended_bind (·.cursor) rfl fun _ _ => rfl
      · simp only [pure_bind]
        refine ended_bind (·.cursor) rfl fun _ _ => ?_
        refine ended_bind (·.cursor) rfl fun _ _ => ?_
        exact ended_bind (·.cursor) rfl fun _ _ => rfl
    · rfl

theorem read_filters (c : Cursor) : filters.read c = readAll (filters.script c) c ∨
    filters.read c = .error none ∧ ∀ d, readAll (filters.script c) c ≠ .ok d := by
  rw [script]
  change ended? _ c.filters? = _ ∨ ended? _ c.filters? = _ ∧ _
  rw [filters?]
  split
  · rename_i bar
    rw [readAll_mark bar, readAll]
    change _ = ended _ (c.skip 1).key >>= _ ∨ _ ∧ ∀ d, ended _ (c.skip 1).key >>= _ ≠ _
    rcases (c.skip 1).key with _ | ⟨_, c₁, _⟩
    · exact .inr ⟨rfl, nofun⟩
    · change _ = readAll [filters] c₁ ∨ _ ∧ ∀ d, readAll [filters] c₁ ≠ _
      rw [readAll_singleton]
      change ended? _ (c₁.filters?.bind _) = ended? _ c₁.filters? ∨ _
      left
      cases c₁.filters? <;> rfl
  · exact .inl rfl

theorem read_reference (c : Cursor) : reference.read c = readAll (reference.script c) c ∨
    reference.read c = .error none ∧ ∀ d, readAll (reference.script c) c ≠ .ok d := by
  rw [script, readAll]
  change ended? _ c.reference? = ended _ c.path >>= _ ∨ ended? _ c.reference? = _ ∧ ∀ d, ended _ c.path >>= _ ≠ _
  rw [reference?]
  rcases c.path with _ | ⟨_, c₁, _⟩
  · exact .inr ⟨rfl, nofun⟩
  · change ended? _ (c₁.filters?.bind _) = ended? _ c₁.filters? >>= _ ∨
      ended? _ (c₁.filters?.bind _) = _ ∧ ∀ d, ended? _ c₁.filters? >>= _ ≠ _
    rcases c₁.filters? with _ | ⟨_, c₂, _⟩
    · exact .inl rfl
    · change ended? _ (if _ then some _ else none) = readAll [mark "\x7d"] c₂ ∨
        ended? _ (if _ then some _ else none) = _ ∧ ∀ d, readAll [mark "\x7d"] c₂ ≠ _
      rw [readAll_singleton]
      split
      · rename_i brace
        rw [read_mark brace]
        exact .inl rfl
      · rename_i other
        refine .inr ⟨rfl, ?_⟩
        rw [read, expect, if_neg other]
        split <;> exact nofun

theorem startsWith_of_expect {r : Pass c Unit} (h : c.expect text = .ok r) :
    c.startsWith text = true ∧ r.cursor = c.skip text.length := by
  unfold expect at h
  split at h
  · cases h
    exact ⟨‹_›, rfl⟩
  · split at h <;> cases h

theorem read_special (c : Cursor) : special.read c = readAll (special.script c) c := by
  rw [script]
  change ended _ c.special = _
  rw [Cursor.special]
  refine ended_bind (·.cursor) rfl fun ⟨_, c₁, _⟩ tilde => ?_
  obtain rfl : c₁ = c.skip 1 := (startsWith_of_expect tilde).2
  refine ended_bind (·.cursor) rfl fun ⟨name, c₂, _⟩ there => ?_
  rw [there, behindSpecial]
  dsimp only
  cases Special.ofName? name with
  | none => rfl
  | some special => exact ended_bind (·.cursor) rfl fun _ _ => rfl

theorem read_quoted (c : Cursor) : quoted.read c = readAll (quoted.script c) c := by
  rw [script]
  change ended _ c.quoted = _
  rw [Cursor.quoted]
  refine ended_bind (·.cursor) rfl fun _ _ => ?_
  exact ended_bind (·.cursor) rfl fun _ _ => rfl

theorem read_paramValue (c : Cursor) : paramValue.read c = readAll (paramValue.script c) c := by
  rw [script]
  change ended _ c.paramValue = _
  rw [Cursor.paramValue]
  split
  · exact ended_bind (·.cursor) rfl fun _ _ => rfl
  · split
    · rw [readAll_singleton]
      rfl
    · exact ended_bind (·.cursor) rfl fun _ _ => rfl

theorem read_params (c : Cursor) : params.read c = readAll (params.script c) c := by
  rw [script]
  change ended _ c.params = _
  rw [Cursor.params]
  split
  · refine Eq.trans ?_ (show readAll [key, mark "=", paramValue, params] c.skipBlanks = _ from rfl)
    refine ended_bind (·.cursor) rfl fun _ _ => ?_
    refine ended_bind (·.cursor) rfl fun _ _ => ?_
    refine ended_bind (·.cursor) rfl fun _ _ => ?_
    exact ended_bind (·.cursor) rfl fun _ _ => rfl
  · rfl

theorem read_context (c : Cursor) : context.read c = readAll (context.script c) c := by
  rw [script]
  change ended _ c.context = _
  rw [Cursor.context]
  split
  · rename_i colon
    rw [readAll_mark colon]
    exact ended_bind (·.cursor) rfl fun _ _ => rfl
  · rfl

theorem read_head {α : Type} {name : (c : Cursor) → Except ParseError (Read c α)} {r : Reader}
    (same : ∀ c, r.read c = ended (·.cursor) (name c)) (c : Cursor) :
    ended (·.cursor) (c.head name) = readAll (headScript r) c := by
  refine Eq.trans ?_ (show readAll [r, context, params, chars Text.isBlank, optional "/", mark "\x7d"] c.skipBlanks = _ from rfl)
  rw [head]
  refine ended_bind (·.cursor) (same _) fun _ _ => ?_
  refine ended_bind (·.cursor) rfl fun _ _ => ?_
  refine ended_bind (·.cursor) rfl fun ⟨_, c₃, _⟩ _ => ?_
  have slash : (if c₃.skipBlanks.startsWith "/" then c₃.skipBlanks.skip 1 else c₃.skipBlanks) =
      c₃.skipBlanks.skip (if c₃.skipBlanks.startsWith "/" then 1 else 0) := by
    split <;> rfl
  refine Eq.trans ?_ (congrArg (readAll [mark "\x7d"]) slash).symm
  exact ended_bind (·.cursor) rfl fun _ _ => rfl

theorem read_partialName (c : Cursor) : partialName.read c = readAll (partialName.script c) c := by
  rw [script]
  change ended _ c.partialName = _
  rw [Cursor.partialName]
  split
  · rw [readAll_singleton]
    rfl
  · exact ended_bind (·.cursor) rfl fun _ _ => rfl

theorem read_partialTag (c : Cursor) : partialTag.read c = readAll (partialTag.script c) c := by
  rw [script]
  change ended _ c.partialTag = readAll [partialName, context, params, chars Text.isBlank, mark "/\x7d"] c.skipBlanks
  rw [Cursor.partialTag]
  refine ended_bind (·.cursor) rfl fun _ _ => ?_
  refine ended_bind (·.cursor) rfl fun _ _ => ?_
  refine ended_bind (·.cursor) rfl fun ⟨_, c₃, _⟩ _ => ?_
  change _ = readAll [mark "/\x7d"] c₃.skipBlanks
  exact ended_bind (·.cursor) rfl fun _ _ => rfl

theorem read_closingTag (c : Cursor) : closingTag.read c = readAll (closingTag.script c) c := by
  rw [script]
  change ended _ c.closingTag = readAll [path, chars Text.isBlank, mark "\x7d"] c.skipBlanks
  rw [Cursor.closingTag]
  refine ended_bind (·.cursor) rfl fun ⟨_, c₁, _⟩ _ => ?_
  change _ = readAll [mark "\x7d"] c₁.skipBlanks
  exact ended_bind (·.cursor) rfl fun _ _ => rfl

theorem read_separatorTag (c : Cursor) : separatorTag.read c = readAll (separatorTag.script c) c := by
  rw [script]
  change ended _ c.separatorTag = _
  rw [Cursor.separatorTag]
  refine ended_bind (·.cursor) rfl fun _ _ => ?_
  exact ended_bind (·.cursor) rfl fun _ _ => rfl

theorem read_bodies (written : String) (c : Cursor) :
    (bodies written).read c = readAll ((bodies written).script c) c := by
  rw [script]
  change ended _ (c.bodies written) = _
  rw [Cursor.bodies]
  refine ended_bind (·.cursor) rfl fun ⟨_, stop, _, _, _⟩ there => ?_
  rw [there, behindNodes]
  cases stop with
  | sourceEnd => rfl
  | close found =>
    dsimp only
    split <;> rfl
  | separator name => exact ended_bind (·.cursor) rfl fun _ _ => rfl

theorem read_namedBodies (written name : String) (c : Cursor) :
    (namedBodies written name).read c = readAll ((namedBodies written name).script c) c := by
  rw [script]
  change ended _ (c.namedBodies written name) = _
  rw [Cursor.namedBodies]
  refine ended_bind (·.cursor) rfl fun ⟨_, stop, _, _, _⟩ there => ?_
  rw [there, behindNodes]
  cases stop with
  | sourceEnd => rfl
  | close found =>
    dsimp only
    split <;> rfl
  | separator name => exact ended_bind (·.cursor) rfl fun _ _ => rfl

theorem read_textOrBreak (more : c.rest ≠ []) (other : c.startsWith "\x7b" = false) :
    .ok (c.textOrBreak more).cursor = (textOrBreak c).read c := by
  unfold Cursor.textOrBreak
  split
  · exact absurd ‹_› more
  · rename_i here
    have blanks : textOrBreak c = .chars Text.isBlank := by
      rw [textOrBreak, here]
      rfl
    rw [blanks]
    rfl
  · rename_i here
    have blanks : textOrBreak c = .chars Text.isBlank := by
      rw [textOrBreak, here]
      rfl
    rw [blanks]
    rfl
  · rename_i ch tail newline carriage here
    have brace : ch ≠ '\x7b' := by
      rintro rfl
      rw [startsWith, here] at other
      cases other
    have plain : textOrBreak c = .plain := by
      rw [textOrBreak, here]
      split <;> simp_all
    have length : textLength c.rest = textLength tail + 1 := by
      rw [here, textLength]
      · exact brace
      · exact newline
      · exact carriage
    rw [plain, read, length]

theorem read_nodes (c : Cursor) : nodes.read c = readAll (nodes.script c) c := by
  rw [script]
  change ended _ c.nodes = _
  rw [Cursor.nodes]
  split
  · rfl
  · rename_i more
    split
    · rename_i brace
      have tagged : tag.read c = ended (·.cursor) (c.tag more) := dif_pos brace
      split
      · rename_i there
        refine ended_bind (·.cursor) tagged fun ⟨_, _, _⟩ there' => ?_
        cases there.symm.trans there'
        exact ended_bind (·.cursor) rfl fun _ _ => rfl
      · rename_i other
        refine ended_bind (·.cursor) tagged fun ⟨t, _, _⟩ there => ?_
        cases t with
        | node node => exact absurd there (other _ _ _)
        | stop => rfl
    · rename_i other
      rw [readAll, ← read_textOrBreak more (Bool.eq_false_iff.mpr other)]
      exact ended_bind (·.cursor) rfl fun _ _ => rfl

theorem startsWith_of_rest {l behind : List Char} (here : c.rest = l ++ behind) (same : text.toList = l) :
    c.startsWith text = true := by
  rw [startsWith, here, same]
  exact List.isPrefixOf_iff_prefix.mpr (List.prefix_append _ _)

theorem readAll_behindBrace (c : Cursor) :
    readAll (behindBrace c :: rest) c = readAll rest (c.reference?.elim c (·.cursor)) := by
  rw [readAll, behindBrace]
  cases there : c.reference? with
  | none => rfl
  | some r =>
    change ended? _ c.reference? >>= _ = _
    rw [there]
    rfl

/-- A sigil behind a brace. -/
theorem readAll_sigil {ch : Char} {behind : List Char} (here : c.rest.drop 1 = ch :: behind) (same : text.toList = [ch]) :
    readAll (.mark text :: rest) (c.skip 1) = readAll rest (c.skip 2) := by
  have one : text.length = 1 := by rw [← String.length_toList, same, List.length_singleton]
  rw [readAll_mark (startsWith_of_rest (l := [ch]) here same), one, skip_skip]

/-- The bodies that follow a head. -/
theorem ended_behindHead {α β : Type} {cursor : β → Cursor} {head : Head α} {c₀ : Cursor} {h : c₀.Forward c}
    {f : Pass c (Bodies (List Node)) → Except ParseError β} (last : ∀ r, ended cursor (f r) = .ok r.cursor) :
    ended cursor (if head.closed = true then pure ⟨.empty, c, .refl c⟩ >>= f else c.bodies head.written >>= f) =
      readAll (behindHead (.ok ⟨head, c, h⟩)) c := by
  rw [behindHead]
  split
  · exact last _
  · exact ended_bind (·.cursor) rfl fun r _ => last r

theorem ended_tag (more : c.rest ≠ []) : ended (·.cursor) (c.tag more) = readAll (behindSigil c) (c.skip 1) := by
  rw [Cursor.tag]
  dsimp only
  split
  case h_1 here | h_2 here | h_10 here | h_11 here | h_12 here =>
    rw [behindSigil, here]
    refine Eq.trans ?_ (readAll_sigil here rfl).symm
    exact ended_bind (·.cursor) rfl fun _ _ => rfl
  case h_3 here =>
    rw [behindSigil, here]
    exact ended_bind (·.cursor) rfl fun _ _ => rfl
  case h_4 here | h_5 here | h_6 here =>
    rw [behindSigil, here, sectionTag]
    refine Eq.trans ?_ (readAll_sigil here rfl).symm
    refine ended_bind (·.cursor) rfl ?_
    rintro ⟨head, c₁, _⟩ there
    rw [there]
    exact ended_behindHead fun _ => rfl
  case h_7 here | h_8 here | h_9 here =>
    rw [behindSigil, here]
    refine Eq.trans ?_ (readAll_sigil here rfl).symm
    refine ended_bind (·.cursor) rfl ?_
    rintro ⟨head, c₁, _⟩ there
    rw [there]
    exact ended_behindHead fun _ => rfl
  case h_13 =>
    have leaves : behindSigil c = [behindBrace (c.skip 1)] := by
      unfold behindSigil
      split
      case h_13 => rfl
      all_goals
        rename_i here
        solve_by_elim
    rw [leaves, readAll_behindBrace]
    cases (c.skip 1).reference? <;> rfl

theorem read_tag (c : Cursor) : tag.read c = readAll (tag.script c) c := by
  rw [read, script]
  split
  · rename_i brace
    rw [readAll_mark brace]
    exact ended_tag _
  · rename_i other
    rw [readAll, read, expect, if_neg other]
    split <;> rfl

theorem read_pieces (reversed : List Char) (c : Cursor) :
    (pieces reversed).read c = readAll ((pieces reversed).script c) c := by
  change ended _ (c.pieces reversed) = _
  rw [Cursor.pieces]
  split
  · rename_i rest
    have leaves : (pieces reversed).script c = [.fail (.unclosed "string")] := by
      rw [script, rest]
    rw [leaves]
    rfl
  · rename_i rest
    have leaves : (pieces reversed).script c = [.mark "\""] := by
      rw [script, rest]
      rfl
    rw [leaves, readAll_mark (startsWith_of_rest (l := ['"']) rest rfl)]
    rfl
  · rename_i rest
    have leaves : (pieces reversed).script c = [.mark "\\", .mark "\"", .pieces ['"']] := by
      rw [script, rest]
      rfl
    rw [leaves, readAll_mark (startsWith_of_rest (l := ['\\']) rest rfl),
      readAll_mark (startsWith_of_rest (l := ['"']) (congrArg (List.drop 1) rest) rfl), skip_skip]
    exact ended_bind (·.cursor) rfl fun _ _ => rfl
  · rename_i rest
    have brace : c.startsWith "\x7b" = true := startsWith_of_rest (l := ['\x7b']) rest rfl
    split
    · rename_i tilde
      have leaves : (pieces reversed).script c = [.mark "\x7b", .special, .pieces []] := by
        rw [script, rest, if_pos tilde]
        rfl
      rw [leaves, readAll_mark brace]
      refine ended_bind (·.cursor) rfl fun _ _ => ?_
      exact ended_bind (·.cursor) rfl fun _ _ => rfl
    · rename_i other
      have leaves : (pieces reversed).script c =
          [.mark "\x7b", behindBrace (c.skip 1), .pieces (if (c.skip 1).reference?.isSome then [] else ['\x7b'])] := by
        rw [script, rest, if_neg other]
        rfl
      rw [leaves, readAll_mark brace]
      refine Eq.trans ?_ (readAll_behindBrace (c.skip 1)).symm
      cases (c.skip 1).reference? with
      | none => exact ended_bind (·.cursor) rfl fun _ _ => rfl
      | some r => exact ended_bind (·.cursor) rfl fun _ _ => rfl
  · rename_i ch tail quote backslash brace rest
    have leaves : (pieces reversed).script c = [.char, .pieces (ch :: reversed)] := by
      rw [script, rest]
      split <;> simp_all
    rw [leaves, readAll_char (rest_ne_nil rest)]
    exact ended_bind (·.cursor) rfl fun _ _ => rfl

theorem isMark_of_isDigit {ch : Char} (h : ch.isDigit = true) : IsMark ch := by
  refine ⟨Char.utf8Size_eq_one_iff.mpr ?_, ?_⟩
  · have below : ch.val ≤ 57 := of_decide_eq_true (Bool.and_eq_true_iff.mp h).2
    exact UInt32.le_trans below (by decide)
  · rintro rfl
    cases h

theorem walk_run_digits (c : Cursor) : c.walk (c.run Char.isDigit) = c.skip (c.run Char.isDigit) := by
  refine (skip_eq_walk ?_ fun ch mem => ?_).symm
  · exact (List.takeWhile_prefix _).length_le
  · rw [take_run] at mem
    exact isMark_of_isDigit (List.mem_takeWhile_imp mem)

theorem read_fraction (c : Cursor) : fraction.read c = readAll (fraction.script c) c := by
  rw [script, read]
  split
  · rename_i dot
    rw [readAll_mark (Bool.and_eq_true_iff.mp dot).1]
    rfl
  · rfl

theorem read_optional (text : String) (c : Cursor) : (optional text).read c = readAll ((optional text).script c) c := by
  rw [script, read]
  split
  · rename_i here
    rw [readAll_mark here]
    rfl
  · rfl

/-- The characters of a number are a sign, digits and a fraction. -/
theorem readAll_numberLength (c : Cursor) :
    readAll (.optional "-" :: .chars Char.isDigit :: .fraction :: rest) c = readAll rest (c.skip c.numberLength.1) := by
  have sign : (if c.startsWith "-" then c.skip 1 else c) = c.skip (if c.startsWith "-" then 1 else 0) := by
    split <;> rfl
  change readAll (.chars Char.isDigit :: .fraction :: rest) (if c.startsWith "-" then c.skip 1 else c) = _
  rw [sign, numberLength]
  generalize (if c.startsWith "-" then 1 else 0) = sign
  change readAll (.fraction :: rest) ((c.skip sign).walk ((c.skip sign).run Char.isDigit)) = _
  rw [walk_run_digits, skip_skip]
  generalize sign + (c.skip sign).run Char.isDigit = whole
  change readAll rest (if _ then ((c.skip whole).skip 1).walk (((c.skip whole).skip 1).run Char.isDigit) else _) = _
  split
  · rw [walk_run_digits, skip_skip, skip_skip, ← Nat.add_assoc]
  · rfl

theorem read_number (c : Cursor) : number.read c = readAll (number.script c) c := by
  rw [script, readAll_numberLength]
  change ended _ c.number = readAll (refused c.number) _
  rw [Cursor.number]
  dsimp only
  split <;> rfl

/-- A reader ends where those of its script end one after another. One that gives up without a fault does so only where these
    end nowhere. -/
theorem read_eq (r : Reader) (c : Cursor) : r.read c = (r.move c >>= readAll (r.script c)) ∨
    r.read c = .error none ∧ ∀ d, (r.move c >>= readAll (r.script c)) ≠ .ok d := by
  cases r with
  | mark | char | fail => exact .inl (bind_pure _).symm
  | undone => exact .inl rfl
  | optional text => exact .inl (read_optional text c)
  | chars p => exact .inl (read_chars p c)
  | plain => exact .inl (read_plain c)
  | closing close what => exact .inl (read_closing close what c)
  | key => exact .inl (read_key c)
  | index => exact .inl (read_index c)
  | path => exact .inl (read_path c)
  | segments => exact .inl (read_segments c)
  | filters => exact read_filters c
  | reference => exact read_reference c
  | special => exact .inl (read_special c)
  | pieces reversed => exact .inl (read_pieces reversed c)
  | quoted => exact .inl (read_quoted c)
  | fraction => exact .inl (read_fraction c)
  | number => exact .inl (read_number c)
  | paramValue => exact .inl (read_paramValue c)
  | params => exact .inl (read_params c)
  | context => exact .inl (read_context c)
  | keyHead => exact .inl (read_head (fun _ => rfl) c)
  | pathHead => exact .inl (read_head (fun _ => rfl) c)
  | partialName => exact .inl (read_partialName c)
  | partialTag => exact .inl (read_partialTag c)
  | closingTag => exact .inl (read_closingTag c)
  | separatorTag => exact .inl (read_separatorTag c)
  | tag => exact .inl (read_tag c)
  | nodes => exact .inl (read_nodes c)
  | bodies written => exact .inl (read_bodies written c)
  | namedBodies written name => exact .inl (read_namedBodies written name c)

theorem read_eq_ok_iff (r : Reader) (c d : Cursor) :
    r.read c = .ok d ↔ (r.move c >>= readAll (r.script c)) = .ok d := by
  rcases r.read_eq c with same | ⟨none, nowhere⟩
  · rw [same]
  · exact iff_of_false (fun ends => by cases none.symm.trans ends) (nowhere d)

end

end Reader
end Stencil
