import FreeListHeap.Block

namespace FreeListHeap

-- What a heap relies on, here or there.
inductive Assertion where
  | powerOfTwo (align : Word)
  | alignedNode (block : Block)
  | nodeSize (block : Block)
  | insideArena (block : Block) (arena : Span)
  | wholeGranules (block : Block)
  | standsAlone (block : Block)
  | beyond (previous : Address) (block : Block)
  deriving DecidableEq, Repr

namespace Assertion

def Holds : Assertion → Prop
  | powerOfTwo align => align.toNat.isPowerOfTwo
  | alignedNode block => block.start % granule = 0
  | nodeSize block => minBlockSize ≤ block.size ∧ block.size % granule = 0
  | insideArena block arena => arena.start ≤ block.start ∧ block.stop ≤ arena.stop
  | wholeGranules block => block.start % granule = 0 ∧ block.size % granule = 0
  | standsAlone block => minBlockSize ≤ block.size
  | beyond previous block => previous < block.start

instance : (assertion : Assertion) → Decidable assertion.Holds
  | powerOfTwo align => inferInstanceAs (Decidable align.toNat.isPowerOfTwo)
  | alignedNode block => inferInstanceAs (Decidable (block.start % granule = 0))
  | nodeSize block =>
    inferInstanceAs (Decidable (minBlockSize ≤ block.size ∧ block.size % granule = 0))
  | insideArena block arena =>
    inferInstanceAs (Decidable (arena.start ≤ block.start ∧ block.stop ≤ arena.stop))
  | wholeGranules block =>
    inferInstanceAs (Decidable (block.start % granule = 0 ∧ block.size % granule = 0))
  | standsAlone block => inferInstanceAs (Decidable (minBlockSize ≤ block.size))
  | beyond previous block => inferInstanceAs (Decidable (previous < block.start))

-- What is reported when the assertion does not hold.
def message : Assertion → String
  | powerOfTwo align => "alignment must be a power of two: " ++ Word.decimal align
  | alignedNode _ => "free block must be granule aligned"
  | nodeSize block => "invalid free block size: " ++ Word.decimal block.size
  | insideArena block arena =>
    "free block " ++ block.span.text ++ " outside of arena " ++ arena.text
  | wholeGranules block => "free block " ++ block.span.text ++ " is not granule aligned"
  | standsAlone block => "free block " ++ block.span.text ++ " is too small"
  | beyond _ block =>
    "free block " ++ block.span.text ++ " is out of order or adjacent to its predecessor"

-- Of a block whose node is about to be written.
def ofNode (block : Block) : List Assertion :=
  [alignedNode block,nodeSize block]

-- Of the list of free blocks, behind a block that ended at `previous` if there was one.
def ofBlocks (arena : Span) : (previous : Option Address) → List Block → List Assertion
  | _,[] => []
  | previous,block :: rest =>
    [insideArena block arena,wholeGranules block,standsAlone block] ++
      previous.toList.map (beyond · block) ++ ofBlocks arena (some block.stop) rest

end Assertion

-- A checked build tests its assertions and stops at the first that does not hold. A plain build
-- takes them for granted. Words are added and subtracted alike in both: a checked build would also
-- stop where a sum or a difference leaves the words, but no heap comes to such a place
-- (Proofs.Exactness).
inductive Build where
  | plain
  | checked
  deriving DecidableEq, Repr

def Build.failure (build : Build) (assertions : List Assertion) : Option Assertion :=
  match build with
  | .plain => none
  | .checked => assertions.find? fun assertion => ¬ assertion.Holds

theorem Build.plain_failure (assertions : List Assertion) :
    Build.plain.failure assertions = none := rfl

theorem Build.checked_failure {assertions : List Assertion} :
    Build.checked.failure assertions = none ↔ ∀ assertion ∈ assertions, assertion.Holds := by
  simp [failure]

end FreeListHeap
