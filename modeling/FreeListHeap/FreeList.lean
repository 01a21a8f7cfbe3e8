import FreeListHeap.Block
import FreeListHeap.Record

namespace FreeListHeap.FreeList

-- The link that leads into a list of blocks.
def link : List Block → Option Address
  | [] => none
  | block :: _ => some block.start

-- `Chain memory head blocks`: the nodes found by following `head` through memory describe exactly
-- these blocks, and the last of them links to nothing.
inductive Chain (memory : Memory) : Option Address → List Block → Prop where
  | nil : Chain memory none []
  | cons : Chain memory (memory.readNode start).next rest →
      Chain memory (some start) (⟨start,(memory.readNode start).size⟩ :: rest)

-- Follows the links for at most `fuel` blocks.
def follow (memory : Memory) : (fuel : Nat) → (head : Option Address) → List Block
  | 0,_ => []
  | _,none => []
  | fuel + 1,some start =>
    let node := memory.readNode start
    ⟨start,node.size⟩ :: follow memory fuel node.next

theorem Chain.head_link (chain : Chain memory head blocks) : head = link blocks := by
  cases chain <;> rfl

-- Fuel for as many blocks as there are is enough.
theorem Chain.follow (chain : Chain memory head blocks) (enough : blocks.length ≤ fuel) :
    FreeList.follow memory fuel head = blocks := by
  induction chain generalizing fuel with
  | nil => cases fuel <;> rfl
  | cons _ ih =>
    cases fuel with
    | zero => simp at enough
    | succ fuel => rw [FreeList.follow,ih (by simpa using enough)]

-- Only the nodes of its own blocks hold a chain together.
theorem Chain.congr (chain : Chain left head blocks)
    (agree : ∀ block ∈ blocks, left.readNode block.start = right.readNode block.start) :
    Chain right head blocks := by
  induction chain with
  | nil => exact .nil
  | @cons start rest _ ih =>
    have same : left.readNode start = right.readNode start := agree _ List.mem_cons_self
    have later := ih fun block member => agree block (List.mem_cons_of_mem _ member)
    rw [same] at later ⊢
    exact .cons later

-- The edits that write the nodes of `fresh` so that they lead on into `rest`.
def nodes : (fresh rest : List Block) → List Edit
  | [],_ => []
  | block :: fresh,rest =>
    .node block.start ⟨block.size,link (fresh ++ rest)⟩ :: nodes fresh rest

-- Once these nodes are in memory, a chain of the rest is a chain of all.
theorem Chain.nodes (tail : Chain memory (link rest) rest)
    (written : ∀ edit ∈ nodes fresh rest, memory.readRecord edit.address = edit.record)
    (named : ∀ block ∈ fresh ++ rest, block.start ≠ 0) :
    Chain memory (link (fresh ++ rest)) (fresh ++ rest) := by
  induction fresh with
  | nil => exact tail
  | cons block fresh ih =>
    have later := ih (fun edit member => written edit (List.mem_cons_of_mem _ member))
      fun other member => named other (List.mem_cons_of_mem _ member)
    have stored : memory.readNode block.start = ⟨block.size,link (fresh ++ rest)⟩ := by
      rw [Memory.readNode,show memory.readRecord block.start = _ from written _ List.mem_cons_self]
      refine Node.ofRecord_toRecord fun zero => ?_
      cases following : fresh ++ rest with
      | nil => simp [following,link] at zero
      | cons next _ =>
        have member : next ∈ block :: fresh ++ rest := by simp [following]
        have apart := named next member
        simp [following,link,apart] at zero
    have chain : Chain memory (some block.start)
        (⟨block.start,(memory.readNode block.start).size⟩ :: (fresh ++ rest)) :=
      .cons (by rwa [stored])
    rwa [stored] at chain

-- Puts a block in front of a list, as one block with the first of the list if the two touch.
def join (block : Block) : List Block → List Block
  | [] => [block]
  | next :: rest =>
    if block.stop = next.start then ⟨block.start,block.size + next.size⟩ :: rest
    else block :: next :: rest

-- The place of a block in the list: behind the blocks that start below it.
structure Gap where
  below : List Block
  above : List Block
  deriving DecidableEq, Repr

def gap (block : Block) (blocks : List Block) : Gap :=
  let starts : Block → Bool := fun other => other.start < block.start
  ⟨blocks.takeWhile starts,blocks.dropWhile starts⟩

-- A block that comes back takes in the block above it if the two touch, and the block below then
-- takes in the outcome if those two touch.
def insert (block : Block) (blocks : List Block) : List Block :=
  let place := gap block blocks
  let joined := join block place.above
  match place.below.getLast? with
  | none => joined
  | some last => place.below.dropLast ++ join last joined

-- The node of the block itself is written in either case, then the one in front of it.
def insertEdits (block : Block) (blocks : List Block) : List Edit :=
  let place := gap block blocks
  let joined := join block place.above
  let lower := match place.below.getLast? with
    | none => []
    | some last => join last joined
  nodes (joined.take 1) (joined.drop 1) ++ nodes (lower.take 1) (lower.drop 1)

-- One place in the list. Advancing reads one node; past the end it stays there.
structure Cursor where
  link : Option Address
  deriving DecidableEq, Repr

namespace Cursor

def next (cursor : Cursor) (memory : Memory) : Option Block × Cursor :=
  match cursor.link with
  | none => (none,cursor)
  | some start =>
    let node := memory.readNode start
    (some ⟨start,node.size⟩,⟨node.next⟩)

-- What the first `count` advances give.
def take (cursor : Cursor) (memory : Memory) : (count : Nat) → List (Option Block)
  | 0 => []
  | count + 1 =>
    (cursor.next memory).1 :: (cursor.next memory).2.take memory count

end Cursor

-- Advancing along a chain gives its blocks in order, and then nothing for ever.
theorem Chain.take (chain : Chain memory head blocks) (count : Nat) :
    (Cursor.mk head).take memory count =
      (blocks.map some).take count ++ List.replicate (count - blocks.length) none := by
  induction chain generalizing count with
  | nil =>
    induction count with
    | zero => rfl
    | succ count ih => simp_all [Cursor.take,Cursor.next,List.replicate_succ]
  | cons _ ih =>
    cases count with
    | zero => simp [Cursor.take]
    | succ count => simp [Cursor.take,Cursor.next,ih]

end FreeListHeap.FreeList
