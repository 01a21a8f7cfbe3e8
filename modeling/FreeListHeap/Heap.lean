import FreeListHeap.Arena
import FreeListHeap.Assertion
import FreeListHeap.Change
import FreeListHeap.Log

namespace FreeListHeap

-- All that a heap keeps outside of its arena: where the first free block starts, and the arena.
-- A heap without an arena has an empty one.
structure Heap where
  head : Option Address := none
  arena : Span := ⟨0,0⟩
  deriving DecidableEq, Repr

-- A heap together with the memory that its arena lies in.
structure State where
  heap : Heap := {}
  memory : Memory := {}

-- An operation that fails an assertion stops in the state that it has reached.
structure Outcome (Value : Type) where
  result : Except Assertion Value
  state : State
  log : List LogLine

namespace Heap

-- No arena has room for more blocks than its length allows, so that many links are followed.
def freeBlocks (heap : Heap) (memory : Memory) : List Block :=
  FreeList.follow memory (heap.arena.length.toNat / minBlockSize.toNat) heap.head

def freeBytes (heap : Heap) (memory : Memory) : Word :=
  ((heap.freeBlocks memory).map (·.size)).foldl (· + ·) 0

def cursor (heap : Heap) : FreeList.Cursor :=
  ⟨heap.head⟩

end Heap

namespace State

def freeBlocks (state : State) : List Block :=
  state.heap.freeBlocks state.memory

def freeBytes (state : State) : Word :=
  state.heap.freeBytes state.memory

-- What the allocation at `payload` owns, by the header in front of it.
def reservation (state : State) (payload : Address) : Block :=
  let header := state.memory.readHeader payload
  ⟨payload - headerSize - header.padding,header.size⟩

def unchanged (state : State) (value : Value) : Outcome Value :=
  ⟨.ok value,state,[]⟩

-- Makes a change. A checked build looks at the fresh nodes before it writes anything, and at the
-- whole list as memory has it afterwards.
def commit (build : Build) (state : State) (arena : Span) (change : Change)
    (value : Value) (log : List LogLine) : Outcome Value :=
  match build.failure (change.fresh.flatMap Assertion.ofNode) with
  | some failed => ⟨.error failed,state,[]⟩
  | none =>
    let later : State := ⟨⟨FreeList.link change.blocks,arena⟩,state.memory.apply change.edits⟩
    match build.failure (Assertion.ofBlocks arena none later.freeBlocks) with
    | some failed => ⟨.error failed,later,log⟩
    | none => ⟨.ok value,later,log⟩

-- Takes over a range of addresses, once and for all. What the range holds of whole granules
-- becomes a single free block.
def adopt (build : Build) (state : State) (given : Span) : Outcome (Except ArenaError Unit) :=
  if ¬ state.heap.arena.isEmpty then state.unchanged (.error (.alreadyManaging state.heap.arena))
  else match given.arena? with
    | .error error => state.unchanged (.error error)
    | .ok arena =>
      state.commit build arena (.single ⟨arena.start,arena.length⟩) (.ok ()) [.arenaReady arena]

-- Hands out `size` bytes at a multiple of `align`, or nothing. A checked build insists on a power
-- of two; a plain build rounds any alignment up to whole granules and goes by that.
def allocateAligned (build : Build) (state : State) (size align : Word) :
    Outcome (Option Address) :=
  if size = 0 ∨ align = 0 then state.unchanged none
  else match build.failure [.powerOfTwo align] with
    | some failed => ⟨.error failed,state,[]⟩
    | none => match Request.ofBytes? size align with
      | none => state.unchanged none
      | some request => match Placement.find? request state.freeBlocks with
        | none => ⟨.ok none,state,[.noFit request]⟩
        | some placement =>
          state.commit build state.heap.arena (.take placement) (some placement.payload) []

def allocate (build : Build) (state : State) (size : Word) : Outcome (Option Address) :=
  state.allocateAligned build size Request.wordAlign

-- Takes back what the allocation at `payload` owns. Giving back nothing is allowed.
def release (build : Build) (state : State) : (payload : Option Address) → Outcome Unit
  | none => state.unchanged ()
  | some payload =>
    state.commit build state.heap.arena (.give (state.reservation payload) state.freeBlocks) () []

end State

end FreeListHeap
