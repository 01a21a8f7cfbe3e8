import FreeListHeap.Word

namespace FreeListHeap

-- Every block starts at a multiple of the granule and is a whole number of granules long. One
-- granule holds a node of the free list or the header of an allocation, and the smallest free
-- block holds a header and one granule of payload.
def granule : Word := 16
def headerSize : Word := 16
def minBlockSize : Word := headerSize + granule

-- The addresses from `start` up to but not including `stop`.
structure Span where
  start : Address
  stop : Address
  deriving DecidableEq, Repr

namespace Span

def isEmpty (span : Span) : Bool :=
  span.stop ≤ span.start

def text (span : Span) : String :=
  Word.hex span.start ++ ".." ++ Word.hex span.stop

end Span

-- Memory that no allocation owns.
structure Block where
  start : Address
  size : Word
  deriving DecidableEq, Repr

namespace Block

def stop (block : Block) : Address :=
  block.start + block.size

def span (block : Block) : Span :=
  ⟨block.start,block.stop⟩

end Block

end FreeListHeap
