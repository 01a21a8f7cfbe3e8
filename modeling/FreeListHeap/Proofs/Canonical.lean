import FreeListHeap.Proofs.Runs
import Mathlib.Data.List.Sort
import Mathlib.Data.Set.Basic

namespace FreeListHeap

variable {block one two : Block} {blocks free others taken reserved : List Block}
  {left right : Ledger} {payload address : Address} {action : Action}

instance : Std.Irrefl Block.Below := ⟨fun block below => by
  have size := block.upper_eq
  unfold Block.Below at below
  omega⟩

instance : Std.Antisymm Block.Below := ⟨fun one two below above => by
  have size := one.upper_eq
  have other := two.upper_eq
  unfold Block.Below at below above
  omega⟩

theorem Block.eq_of_bounds (lower : one.lower = two.lower) (upper : one.upper = two.upper) :
    one = two := by
  obtain ⟨start,size⟩ := one
  obtain ⟨begins,length⟩ := two
  have starts : start = begins := UInt64.toNat_inj.mp lower
  have sizes : size = length := by
    rw [Block.upper_eq,Block.upper_eq,lower] at upper
    exact UInt64.toNat_inj.mp (Nat.add_left_cancel upper)
  rw [starts,sizes]

namespace Tiles

-- Each free block finds room in a free block of any division that reserves no more.
theorem reaches (left : Tiles lower upper (free ++ taken))
    (right : Tiles lower upper (others ++ reserved)) (ordered : others.Pairwise Block.Below)
    (fewer : ∀ n, (∃ block ∈ reserved, block.Has n) → ∃ block ∈ taken, block.Has n)
    (whole : block.Whole) (member : block ∈ free) :
    ∃ other ∈ others, other.lower ≤ block.lower ∧ block.upper ≤ other.upper := by
  have bounds := left.inside block (List.mem_append_left _ member)
  have apart := (List.pairwise_append.mp left.apart).2.2 block member
  have least := whole.least
  have size := block.upper_eq
  refine right.within ordered (by omega) bounds.1 bounds.2 ?_
  intro other reserving n low high has
  obtain ⟨owner,owned,within⟩ := fewer n ⟨other,reserving,has⟩
  exact (apart owner owned).not_both ⟨low,high⟩ within

theorem free_subset (left : Tiles lower upper (free ++ taken))
    (right : Tiles lower upper (others ++ reserved))
    (shared : ∀ n, (∃ block ∈ taken, block.Has n) ↔ ∃ block ∈ reserved, block.Has n)
    (ordered : free.Pairwise Block.Below) (sorted : others.Pairwise Block.Below)
    (whole : ∀ block ∈ free, block.Whole) (solid : ∀ block ∈ others, block.Whole) :
    free ⊆ others := by
  intro block member
  obtain ⟨other,found,low,high⟩ :=
    left.reaches right sorted (fun n => (shared n).mpr) (whole block member) member
  obtain ⟨back,returned,below,above⟩ :=
    right.reaches left ordered (fun n => (shared n).mp) (solid other found) found
  -- There and back again, the block lies within a block of its own list.
  have equal : block = back := by
    by_contra differ
    have least := (whole block member).least
    have size := block.upper_eq
    rcases separate ordered member returned differ with before | behind
    · unfold Block.Below at before
      omega
    · unfold Block.Below at behind
      omega
  subst equal
  have same : block = other := Block.eq_of_bounds (by omega) (by omega)
  rwa [same]

-- What the reservations leave over can be cut into ordered blocks that do not touch in one way
-- only.
theorem free_unique (left : Tiles lower upper (free ++ taken))
    (right : Tiles lower upper (others ++ reserved))
    (shared : ∀ n, (∃ block ∈ taken, block.Has n) ↔ ∃ block ∈ reserved, block.Has n)
    (ordered : free.Pairwise Block.Below) (sorted : others.Pairwise Block.Below)
    (whole : ∀ block ∈ free, block.Whole) (solid : ∀ block ∈ others, block.Whole) :
    free = others := by
  have there := left.free_subset right shared ordered sorted whole solid
  have back := right.free_subset left (fun n => (shared n).symm) sorted ordered solid whole
  exact List.Subset.antisymm_of_pairwise ordered sorted there back

end Tiles

-- The allocations that are out, each with the header that lies in front of it in memory.
def Ledger.live (ledger : Ledger) : Set (Address × Header) :=
  {tag | ledger.Owns tag.1 ∧ ledger.state.memory.readHeader tag.1 = tag.2}

-- Two heaps of one arena with the same allocations out, whatever has led up to it and whatever
-- bytes the allocations hold.
structure Ledger.Alike (left right : Ledger) : Prop where
  arena : left.state.heap.arena = right.state.heap.arena
  live : left.live = right.live

namespace Ledger.Alike

theorem symm (alike : left.Alike right) : right.Alike left :=
  ⟨alike.arena.symm,alike.live.symm⟩

theorem header (alike : left.Alike right) (owns : left.Owns payload) :
    right.Owns payload ∧
      right.state.memory.readHeader payload = left.state.memory.readHeader payload := by
  have tagged : (payload,left.state.memory.readHeader payload) ∈ left.live := ⟨owns,rfl⟩
  rw [alike.live] at tagged
  exact tagged

theorem reservation (alike : left.Alike right) (owns : left.Owns payload) :
    right.state.reservation payload = left.state.reservation payload := by
  rw [State.reservation,State.reservation,(alike.header owns).2]

theorem covers (alike : left.Alike right) (covers : left.Covers payload address count) :
    right.Covers payload address count := by
  obtain ⟨owns,range⟩ := covers
  rw [← alike.reservation owns] at range
  exact ⟨(alike.header owns).1,range⟩

theorem covered (alike : left.Alike right)
    (covered : ∃ grant ∈ left.grants, left.Covers grant.payload address count) :
    ∃ grant ∈ right.grants, right.Covers grant.payload address count := by
  obtain ⟨grant,_,range⟩ := covered
  have there := alike.covers range
  obtain ⟨other,member,same⟩ := there.1
  rw [← same] at there
  exact ⟨other,member,there⟩

-- What a client may do hangs on nothing else.
theorem allowed (alike : left.Alike right) (allowed : left.Allowed action) :
    right.Allowed action := by
  obtain ⟨call,through⟩ := action
  cases call with
  | adopt given =>
    intro none
    rw [← alike.arena] at none
    exact allowed none
  | release payload => exact fun given some => (alike.header (allowed given some)).1
  | reallocate | store => exact alike.covers allowed
  | load => exact alike.covered allowed
  | copy => exact ⟨alike.covers allowed.1,alike.covered allowed.2⟩
  | header => exact (alike.header allowed).1
  | allocate | allocateAligned | allocateLayout | allocateZeroed | arena | advance => trivial

end Ledger.Alike

namespace Valid

theorem mem_live (valid : Valid free left) : (payload,header) ∈ left.live ↔
    ∃ grant ∈ left.grants, grant.payload = payload ∧ grant.header = header := by
  constructor
  · rintro ⟨⟨grant,member,rfl⟩,reads⟩
    exact ⟨grant,member,rfl,(valid.intact grant member).header.symm.trans reads⟩
  · rintro ⟨grant,member,rfl,rfl⟩
    exact ⟨⟨grant,member,rfl⟩,(valid.intact grant member).header⟩

theorem blocks_subset (valid : Valid free left) (other : Valid others right)
    (alike : left.Alike right) : left.grants.map Grant.block ⊆ right.grants.map Grant.block := by
  intro block member
  obtain ⟨grant,granted,rfl⟩ := List.mem_map.mp member
  have tagged := valid.mem_live.mpr ⟨grant,granted,rfl,rfl⟩
  rw [alike.live] at tagged
  obtain ⟨twin,found,payload,header⟩ := other.mem_live.mp tagged
  refine List.mem_map.mpr ⟨twin,found,?_⟩
  rw [Grant.block,Grant.block,payload,header]

-- The list of free blocks is decided by the arena and the allocations that are out.
theorem same_free (valid : Valid free left) (other : Valid others right)
    (alike : left.Alike right) : free = others := by
  have tiles := other.tiles
  rw [← alike.arena] at tiles
  refine valid.tiles.free_unique tiles ?_ valid.listed.ordered other.listed.ordered
    valid.listed.whole other.listed.whole
  have there := valid.blocks_subset other alike
  have back := other.blocks_subset valid alike.symm
  exact fun n => ⟨fun ⟨block,member,has⟩ => ⟨block,there member,has⟩,
    fun ⟨block,member,has⟩ => ⟨block,back member,has⟩⟩

theorem same_heap (valid : Valid free left) (other : Valid others right)
    (alike : left.Alike right) : left.state.heap = right.state.heap := by
  have heads : left.state.heap.head = right.state.heap.head := by
    rw [valid.chain.head_link,other.chain.head_link,valid.same_free other alike]
  have arenas := alike.arena
  obtain ⟨⟨⟨head,arena⟩,_⟩,_⟩ := left
  obtain ⟨⟨⟨_,_⟩,_⟩,_⟩ := right
  cases heads
  cases arenas
  rfl

theorem same_blocks (valid : Valid free left) (other : Valid others right)
    (alike : left.Alike right) : left.state.freeBlocks = right.state.freeBlocks ∧
      left.state.freeBytes = right.state.freeBytes := by
  have blocks : left.state.freeBlocks = right.state.freeBlocks := by
    rw [valid.freeBlocks,other.freeBlocks,valid.same_free other alike]
  refine ⟨blocks,?_⟩
  change ((left.state.freeBlocks.map (·.size)).foldl (· + ·) 0) = _
  rw [blocks]
  rfl

end Valid

end FreeListHeap
