import FreeListHeap.Heap

namespace FreeListHeap

-- No object reaches over more than half of all addresses.
def sizeLimit : Nat := UInt64.size / 2

-- A size and an alignment that some object can have: the alignment is a power of two, and the
-- size, rounded up to it, stays below the limit.
structure Layout where
  size : Word
  align : Word
  powerOfTwo : align.toNat.isPowerOfTwo
  bounded : size.toNat + align.toNat ≤ sizeLimit
  deriving DecidableEq

namespace Layout

def ofBytes? (size align : Word) : Option Layout :=
  if valid : align.toNat.isPowerOfTwo ∧ size.toNat + align.toNat ≤ sizeLimit then
    some ⟨size,align,valid.1,valid.2⟩
  else none

def allocate (build : Build) (state : State) (layout : Layout) : Outcome (Option Address) :=
  state.allocateAligned build layout.size layout.align

-- Stores zeros in the bytes asked for, and in no others.
def allocateZeroed (build : Build) (state : State) (layout : Layout) : Outcome (Option Address) :=
  let outcome := layout.allocate build state
  match outcome.result with
  | .ok (some payload) =>
    let memory := outcome.state.memory.fill payload layout.size.toNat 0
    {outcome with state := {outcome.state with memory := memory}}
  | _ => outcome

-- Moves an allocation of `size` bytes to a new place with this layout. The old one stays until
-- its bytes, as many as both have room for, are copied. If no new one is to be had, nothing
-- happens at all.
def reallocate (build : Build) (state : State) (payload : Address) (size : Word) (layout : Layout) :
    Outcome (Option Address) :=
  let outcome := layout.allocate build state
  match outcome.result with
  | .ok (some moved) =>
    let memory := outcome.state.memory.forward moved payload (min size layout.size).toNat
    let released := {outcome.state with memory := memory}.release build (some payload)
    ⟨released.result.map fun _ => some moved,released.state,outcome.log ++ released.log⟩
  | _ => outcome

end Layout

end FreeListHeap
