import Stencil.Error

/-! Output in order, before it is complete. Chunks are linked in the order of the output; a new chunk goes directly
    behind one that exists, so what was written before a place stays before it. Text leaves the list once its chunk and
    every chunk before it have ended. -/

namespace Stencil

/-- The number of a chunk. -/
abbrev ChunkId := Nat

/-- A stretch of output. -/
structure Chunk where
  text : String := ""
  next : Option ChunkId := none
  ended : Bool := false
deriving Repr, DecidableEq

/-- The chunks of a render. -/
structure Chunks where
  slots : Array Chunk
  /-- The first chunk whose text is still here. -/
  head : Option ChunkId
deriving Repr, DecidableEq

namespace Chunks

/-- The first chunk of a render. -/
def root : ChunkId := 0

/-- One empty chunk. -/
def new : Chunks :=
  ⟨#[{}], some root⟩

/-- The error of a chunk that does not exist. -/
def unknown (id : ChunkId) : Error :=
  .protocol ("unknown chunk " ++ toString id)

/-- Adds text to a chunk. -/
def write (cs : Chunks) (id : ChunkId) (text : String) : Except Error Chunks :=
  match cs.slots[id]? with
  | none => .error (unknown id)
  | some chunk =>
    if chunk.ended then .error (.protocol ("write to ended chunk " ++ toString id))
    else .ok { cs with slots := cs.slots.setIfInBounds id { chunk with text := chunk.text ++ text } }

/-- Puts a new chunk directly behind another. -/
def insertAfter (cs : Chunks) (id : ChunkId) : Except Error (ChunkId × Chunks) :=
  match cs.slots[id]? with
  | none => .error (unknown id)
  | some chunk =>
    let new := cs.slots.size
    .ok (new, { cs with
      slots := (cs.slots.setIfInBounds id { chunk with next := some new }).push { next := chunk.next } })

/-- Ends a chunk: no more text is added to it. -/
def finish (cs : Chunks) (id : ChunkId) : Except Error Chunks :=
  match cs.slots[id]? with
  | none => .error (unknown id)
  | some chunk =>
    if chunk.ended then .error (.protocol ("chunk " ++ toString id ++ " ended twice"))
    else .ok { cs with slots := cs.slots.setIfInBounds id { chunk with ended := true } }

/-- Takes the text of the ended chunks in front, from a list of so many links at most. -/
def takeEnded : (links : Nat) → Chunks → String × Chunks
  | 0, cs => ("", cs)
  | links + 1, cs =>
    match cs.head with
    | none => ("", cs)
    | some id =>
      match cs.slots[id]? with
      | none => ("", { cs with head := none })
      | some chunk =>
        if chunk.ended then
          let (text, cs) := takeEnded links
            { slots := cs.slots.setIfInBounds id { chunk with text := "" }, head := chunk.next }
          (chunk.text ++ text, cs)
        else ("", cs)

/-- Takes the text of the ended chunks in front. The links visit no chunk twice, so their number is bounded. -/
def flush (cs : Chunks) : String × Chunks :=
  cs.takeEnded (cs.slots.size + 1)

/-- Whether all text has been taken. -/
def isFlushed (cs : Chunks) : Bool :=
  cs.head.isNone

/-- Drops all chunks. -/
def discard : Chunks :=
  ⟨#[], none⟩

end Chunks
end Stencil
