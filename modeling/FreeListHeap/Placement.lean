import FreeListHeap.Block
import FreeListHeap.Record

namespace FreeListHeap

-- A size and an alignment, both in whole granules.
structure Request where
  size : Word
  align : Word
  deriving DecidableEq, Repr

-- The alignment of a request that names none.
def Request.wordAlign : Word := 8

-- None if one of them, rounded up, exceeds the largest word.
def Request.ofBytes? (size align : Word) : Option Request := do
  return ⟨← Word.roundUp? size granule,← Word.roundUp? align granule⟩

-- The lowest aligned payload in the block that leaves room for a header in front of it, if the
-- block reaches far enough beyond it.
def Block.payload? (block : Block) (request : Request) : Option Address := do
  let behind ← Word.add? block.start headerSize
  let payload ← Word.roundUp? behind request.align
  if payload ≤ block.stop ∧ request.size ≤ block.stop - payload then some payload else none

-- A payload of `size` bytes in one of the free blocks, with the blocks below and above it.
structure Placement where
  below : List Block
  block : Block
  above : List Block
  payload : Address
  size : Word
  deriving DecidableEq, Repr

namespace Placement

-- The first block that fits takes the request, whatever the later ones would leave over.
def find? (request : Request) : List Block → Option Placement
  | [] => none
  | block :: rest =>
    match block.payload? request with
    | some payload => some ⟨[],block,rest,payload,request.size⟩
    | none => (find? request rest).map fun found => {found with below := block :: found.below}

theorem find?_none : find? request blocks = none ↔
    ∀ block ∈ blocks, block.payload? request = none := by
  induction blocks with
  | nil => simp [find?]
  | cons block rest ih =>
    rw [find?,List.forall_mem_cons]
    cases fits : block.payload? request with
    | some payload => simp
    | none => simp [ih]

theorem find?_some (found : find? request blocks = some placement) :
    blocks = placement.below ++ placement.block :: placement.above ∧
      placement.block.payload? request = some placement.payload ∧
      placement.size = request.size ∧
      ∀ block ∈ placement.below, block.payload? request = none := by
  induction blocks generalizing placement with
  | nil => simp [find?] at found
  | cons block rest ih =>
    rw [find?] at found
    split at found
    · rename_i payload fits
      cases Option.some.inj found
      exact ⟨rfl,fits,rfl,nofun⟩
    · rename_i refused
      obtain ⟨later,searched,rfl⟩ := Option.map_eq_some_iff.mp found
      obtain ⟨parts,fits,size,earlier⟩ := ih searched
      refine ⟨congrArg (block :: ·) parts,fits,size,?_⟩
      intro other member
      rcases List.mem_cons.mp member with rfl | before
      · exact refused
      · exact earlier other before

-- The block is divided into at most four parts: what lies in front of the header, the header, the
-- payload, and what lies behind the payload.
def headerStart (placement : Placement) : Address :=
  placement.payload - headerSize

def payloadStop (placement : Placement) : Address :=
  placement.payload + placement.size

def frontSize (placement : Placement) : Word :=
  placement.headerStart - placement.block.start

def tailSize (placement : Placement) : Word :=
  placement.block.stop - placement.payloadStop

-- A part that can stand alone stays free. A smaller one is reserved along with the payload.
def front? (placement : Placement) : Option Block :=
  if minBlockSize ≤ placement.frontSize then some ⟨placement.block.start,placement.frontSize⟩
  else none

def tail? (placement : Placement) : Option Block :=
  if minBlockSize ≤ placement.tailSize then some ⟨placement.payloadStop,placement.tailSize⟩
  else none

def pieces (placement : Placement) : List Block :=
  placement.front?.toList ++ placement.tail?.toList

-- The free blocks once the payload is handed out.
def remaining (placement : Placement) : List Block :=
  placement.below ++ placement.pieces ++ placement.above

def padding (placement : Placement) : Word :=
  if placement.front?.isSome then 0 else placement.frontSize

def reserved (placement : Placement) : Span where
  start := placement.headerStart - placement.padding
  stop := if placement.tail?.isSome then placement.payloadStop else placement.block.stop

def header (placement : Placement) : Header :=
  ⟨placement.reserved.stop - placement.reserved.start,placement.padding⟩

end Placement

end FreeListHeap
