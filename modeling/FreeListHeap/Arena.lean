import FreeListHeap.Block

namespace FreeListHeap

-- Why a heap refuses to take over a range of addresses.
inductive ArenaError where
  | alreadyManaging (arena : Span)
  | empty (given : Span)
  | tooSmall (given : Span) (usable : Word)
  deriving DecidableEq, Repr

namespace ArenaError

-- The range that the error is about.
def span : ArenaError → Span
  | alreadyManaging arena => arena
  | empty given => given
  | tooSmall given _ => given

def message : ArenaError → String
  | alreadyManaging arena => "heap already manages arena " ++ arena.text
  | empty given => "empty arena " ++ given.text
  | tooSmall given usable =>
    "arena " ++ given.text ++ " has " ++ Word.decimal usable ++ " usable bytes, at least " ++
      Word.decimal minBlockSize ++ " required"

end ArenaError

namespace Span

-- The largest range of whole granules inside. If no word can hold the start rounded up, the range
-- is left without any bytes.
def trim (span : Span) : Span :=
  let stop := Word.roundDown span.stop granule
  ⟨(Word.roundUp? span.start granule).getD stop,stop⟩

-- Counts from zero when the two ends are out of order.
def length (span : Span) : Word :=
  if span.start ≤ span.stop then span.stop - span.start else 0

-- The arena that a range of addresses yields.
def arena? (given : Span) : Except ArenaError Span :=
  if given.isEmpty then .error (.empty given)
  else if given.trim.length < minBlockSize then .error (.tooSmall given given.trim.length)
  else .ok given.trim

end Span

end FreeListHeap
