import FreeListHeap.Heap
import FreeListHeap.Proofs.Tiling

namespace FreeListHeap

variable {block : Block} {blocks below pieces above : List Block} {arena : Span} {memory : Memory}
  {state : State} {change : Change}

-- Free blocks as a heap lists them: in whole granules, inside its arena, in ascending order, and
-- never two that touch.
structure Listed (arena : Span) (blocks : List Block) : Prop where
  whole : ∀ block ∈ blocks, block.Whole
  inside : ∀ block ∈ blocks, arena.start.toNat ≤ block.lower ∧ block.upper ≤ arena.stop.toNat
  ordered : blocks.Pairwise Block.Below

-- What lies within one block of an ordered list may take its place.
theorem ordered_replace (ordered : (below ++ block :: above).Pairwise Block.Below)
    (pieces_ordered : pieces.Pairwise Block.Below)
    (inner : ∀ piece ∈ pieces, block.lower ≤ piece.lower ∧ piece.upper ≤ block.upper) :
    (below ++ pieces ++ above).Pairwise Block.Below := by
  obtain ⟨front,back,across⟩ := List.pairwise_append.mp ordered
  obtain ⟨beyond,rest⟩ := List.pairwise_cons.mp back
  refine List.pairwise_append.mpr ⟨List.pairwise_append.mpr ⟨front,pieces_ordered,?_⟩,rest,?_⟩
  · intro other member piece inside
    have far := across other member block List.mem_cons_self
    have bounds := inner piece inside
    unfold Block.Below at far ⊢
    omega
  · intro other member later behind
    rcases List.mem_append.mp member with earlier | inside
    · exact across other earlier later (List.mem_cons_of_mem _ behind)
    · have far := beyond later behind
      have bounds := inner other inside
      unfold Block.Below at far ⊢
      omega

-- Each block takes up at least two granules of what lies behind the one before.
theorem ordered_length (whole : ∀ block ∈ blocks, block.Whole)
    (inside : ∀ block ∈ blocks, lower ≤ block.lower ∧ block.upper ≤ upper)
    (ordered : blocks.Pairwise Block.Below) : 32*blocks.length ≤ upper - lower := by
  induction blocks generalizing lower with
  | nil => simp
  | cons block rest ih =>
    obtain ⟨beyond,later⟩ := List.pairwise_cons.mp ordered
    obtain ⟨solid,others⟩ := List.forall_mem_cons.mp whole
    have bounds := inside block List.mem_cons_self
    have least := solid.least
    have size := block.upper_eq
    have counted := ih others (fun other member =>
      ⟨Nat.le_of_lt (beyond other member),(inside other (List.mem_cons_of_mem _ member)).2⟩) later
    rw [List.length_cons]
    omega

theorem Span.toNat_length (span : Span) :
    span.length.toNat = span.stop.toNat - span.start.toNat := by
  unfold Span.length
  split
  · rename_i forward
    exact UInt64.toNat_sub_of_le _ _ forward
  · rename_i backward
    rw [UInt64.le_iff_toNat_le] at backward
    change 0 = _
    omega

-- The links lead through all the blocks before the heap stops to follow them.
theorem Listed.freeBlocks (listed : Listed arena blocks)
    (chain : FreeList.Chain memory head blocks) : Heap.freeBlocks ⟨head,arena⟩ memory = blocks := by
  refine chain.follow ?_
  have counted := ordered_length listed.whole listed.inside listed.ordered
  rw [Span.toNat_length,toNat_minBlockSize,Nat.le_div_iff_mul_le (Nat.succ_pos 31)]
  change blocks.length*32 ≤ arena.stop.toNat - arena.start.toNat
  omega

theorem Block.Whole.start_granular (whole : block.Whole) : block.start % granule = 0 := by
  rw [← UInt64.toNat_inj,UInt64.toNat_mod]
  exact Nat.mod_eq_zero_of_dvd whole.aligned

theorem Block.Whole.size_granular (whole : block.Whole) : block.size % granule = 0 := by
  rw [← UInt64.toNat_inj,UInt64.toNat_mod]
  exact Nat.mod_eq_zero_of_dvd whole.granular

theorem Block.Whole.stands_alone (whole : block.Whole) : minBlockSize ≤ block.size :=
  UInt64.le_iff_toNat_le.mpr whole.least

theorem nodes_hold (whole : ∀ block ∈ blocks, block.Whole) :
    ∀ assertion ∈ blocks.flatMap Assertion.ofNode, assertion.Holds := by
  intro assertion member
  obtain ⟨block,fresh,asserted⟩ := List.mem_flatMap.mp member
  have solid := whole block fresh
  simp only [Assertion.ofNode,List.mem_cons,List.not_mem_nil,or_false] at asserted
  rcases asserted with rfl | rfl
  · exact solid.start_granular
  · exact ⟨solid.stands_alone,solid.size_granular⟩

theorem Listed.holds (listed : Listed arena blocks)
    (beyond : ∀ stop ∈ previous, ∀ block ∈ blocks, stop < block.start) :
    ∀ assertion ∈ Assertion.ofBlocks arena previous blocks, assertion.Holds := by
  induction blocks generalizing previous with
  | nil => nofun
  | cons block rest ih =>
    obtain ⟨solid,others⟩ := List.forall_mem_cons.mp listed.whole
    obtain ⟨bounds,within⟩ := List.forall_mem_cons.mp listed.inside
    obtain ⟨far,later⟩ := List.pairwise_cons.mp listed.ordered
    intro assertion member
    simp only [Assertion.ofBlocks,List.mem_append,List.mem_cons,List.not_mem_nil,or_false] at member
    rcases member with ((rfl | rfl | rfl) | behind) | ahead
    · refine ⟨UInt64.le_iff_toNat_le.mpr bounds.1,?_⟩
      rw [UInt64.le_iff_toNat_le,solid.toNat_stop]
      exact bounds.2
    · exact ⟨solid.start_granular,solid.size_granular⟩
    · exact solid.stands_alone
    · obtain ⟨stop,known,rfl⟩ := List.mem_map.mp behind
      exact beyond stop (Option.mem_toList.mp known) block List.mem_cons_self
    · refine ih ⟨others,within,later⟩ ?_ assertion ahead
      rintro stop known other member
      cases Option.some.inj known
      rw [UInt64.lt_iff_toNat_lt,solid.toNat_stop]
      exact far other member

theorem Build.failure_none (build : Build) {assertions : List Assertion}
    (hold : ∀ assertion ∈ assertions, assertion.Holds) : build.failure assertions = none := by
  cases build with
  | plain => exact Build.plain_failure _
  | checked => exact Build.checked_failure.mpr hold

-- A change whose nodes end up in memory as a list that a heap may have.
structure Change.Sound (change : Change) (arena : Span) (memory : Memory) : Prop where
  fresh : ∀ block ∈ change.fresh, block.Whole
  listed : Listed arena change.blocks
  chain : FreeList.Chain (memory.apply change.edits) (FreeList.link change.blocks) change.blocks

def State.changed (state : State) (arena : Span) (change : Change) : State :=
  ⟨⟨FreeList.link change.blocks,arena⟩,state.memory.apply change.edits⟩

theorem State.commit_eq (build : Build) (value : Value) (log : List LogLine)
    (sound : change.Sound arena state.memory) :
    state.commit build arena change value log = ⟨.ok value,state.changed arena change,log⟩ := by
  have before : build.failure (change.fresh.flatMap Assertion.ofNode) = none :=
    build.failure_none (nodes_hold sound.fresh)
  have blocks := sound.listed.freeBlocks sound.chain
  have after : build.failure (Assertion.ofBlocks arena none change.blocks) = none :=
    build.failure_none (sound.listed.holds nofun)
  simp only [State.commit,before,State.freeBlocks,blocks,after]
  rfl

theorem toNat_foldl (sizes : List Word) (first : Word)
    (fits : first.toNat + (sizes.map (·.toNat)).sum < UInt64.size) :
    (sizes.foldl (· + ·) first).toNat = first.toNat + (sizes.map (·.toNat)).sum := by
  induction sizes generalizing first with
  | nil => simp
  | cons size rest ih =>
    rw [List.map_cons,List.sum_cons] at fits
    have added : (first + size).toNat = first.toNat + size.toNat := Word.toNat_add (by omega)
    rw [List.foldl_cons,ih _ (by rw [added]; omega),added,List.map_cons,List.sum_cons]
    omega

end FreeListHeap
