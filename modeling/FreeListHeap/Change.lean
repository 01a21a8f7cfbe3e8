import FreeListHeap.FreeList
import FreeListHeap.Placement

namespace FreeListHeap

-- What an operation is about to do, worked out from the list of free blocks before any byte is
-- written: the blocks that get a node where there was none, the list afterwards, and the records
-- to store for that, the later over the earlier.
structure Change where
  fresh : List Block
  blocks : List Block
  edits : List Edit
  deriving DecidableEq, Repr

namespace Change

-- A new list of one block.
def single (block : Block) : Change :=
  ⟨[block],[block],FreeList.nodes [block] []⟩

-- A payload is handed out. The pieces that stay free take the place of their block in the list.
-- The header comes last, because it may lie where the node of the block was.
def take (placement : Placement) : Change where
  fresh := placement.tail?.toList
  blocks := placement.remaining
  edits :=
    FreeList.nodes (placement.below.getLast?.toList ++ placement.pieces) placement.above ++
      [.header placement.payload placement.header]

-- A block comes back among the others.
def give (block : Block) (blocks : List Block) : Change :=
  ⟨[block],FreeList.insert block blocks,FreeList.insertEdits block blocks⟩

end Change

end FreeListHeap
