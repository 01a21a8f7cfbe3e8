import FreeListHeap.Layout

namespace FreeListHeap

-- What a client asks of a heap and of the memory that it was handed, by address.
inductive Call where
  | adopt (given : Span)
  | allocate (size : Word)
  | allocateAligned (size align : Word)
  | allocateLayout (layout : Layout)
  | allocateZeroed (layout : Layout)
  | reallocate (payload : Address) (size : Word) (layout : Layout)
  | release (payload : Option Address)
  | store (address : Address) (bytes : List UInt8)
  | load (address : Address) (count : Nat)
  | copy (target source : Address) (size : Word)
  | header (payload : Address)
  | arena
  | advance (count : Nat)
  deriving DecidableEq

inductive Answer where
  | done
  | adopted
  | refused (error : ArenaError)
  | payload (payload : Option Address)
  | bytes (bytes : List UInt8)
  | address (address : Address)
  | header (header : Header)
  | arena (arena : Span)
  | blocks (blocks : List (Option Block))
  deriving DecidableEq, Repr

def Outcome.map (f : Value → Answer) (outcome : Outcome Value) : Outcome Answer :=
  ⟨outcome.result.map f,outcome.state,outcome.log⟩

def Answer.ofAdoption : Except ArenaError Unit → Answer
  | .ok () => .adopted
  | .error error => .refused error

namespace State

def perform (build : Build) (state : State) : Call → Outcome Answer
  | .adopt given => (state.adopt build given).map .ofAdoption
  | .allocate size => (state.allocate build size).map .payload
  | .allocateAligned size align => (state.allocateAligned build size align).map .payload
  | .allocateLayout layout => (layout.allocate build state).map .payload
  | .allocateZeroed layout => (layout.allocateZeroed build state).map .payload
  | .reallocate payload size layout => (layout.reallocate build state payload size).map .payload
  | .release payload => (state.release build payload).map fun _ => .done
  | .store address bytes =>
    {state with memory := state.memory.writeBytes address bytes}.unchanged .done
  | .load address count => state.unchanged (.bytes (state.memory.readBytes address count))
  | .copy target source size =>
    let copied := state.memory.copy target source size
    {state with memory := copied.2}.unchanged (.address copied.1)
  | .header payload => state.unchanged (.header (state.memory.readHeader payload))
  | .arena => state.unchanged (.arena state.heap.arena)
  | .advance count => state.unchanged (.blocks (state.heap.cursor.take state.memory count))

end State

end FreeListHeap
