import FreeListHeap.FreeList
import FreeListHeap.Proofs.Tiling

namespace FreeListHeap.FreeList

variable {block one two : Block} {blocks others : List Block}

-- A block whose list goes on above it, in reach or out of reach of its end.
structure Leads (block : Block) (blocks : List Block) : Prop where
  whole : ∀ other ∈ block :: blocks, other.Whole
  above : ∀ other ∈ blocks, block.upper ≤ other.lower
  ordered : blocks.Pairwise Block.Below

theorem merged_size (right : two.Whole) (touch : one.upper = two.lower) :
    (one.size + two.size).toNat = one.size.toNat + two.size.toNat := by
  have bounded := right.bounded
  have start := one.upper_eq
  have stop := two.upper_eq
  exact Word.toNat_add (by omega)

theorem merged_upper (right : two.Whole) (touch : one.upper = two.lower) :
    Block.upper ⟨one.start,one.size + two.size⟩ = two.upper := by
  have size := merged_size right touch
  have start := one.upper_eq
  have stop := two.upper_eq
  change one.lower + (one.size + two.size).toNat = _
  omega

theorem merged_whole (left : one.Whole) (right : two.Whole) (touch : one.upper = two.lower) :
    Block.Whole ⟨one.start,one.size + two.size⟩ := by
  have size := merged_size right touch
  have granular := left.granular
  have added := right.granular
  have least := left.least
  refine ⟨left.aligned,?_,?_,?_⟩
  · change 16 ∣ (one.size + two.size).toNat
    omega
  · change 32 ≤ (one.size + two.size).toNat
    omega
  · rw [merged_upper right touch]
    exact right.bounded

theorem touches (left : one.Whole) : one.stop = two.start ↔ one.upper = two.lower := by
  rw [← UInt64.toNat_inj,left.toNat_stop]
  rfl

-- However the two ends lie, joining keeps the start of the block in front and takes at most one
-- block off the list.
theorem join_cons (block : Block) (blocks : List Block) : ∃ head rest,
    join block blocks = head :: rest ∧ head.start = block.start ∧ rest <:+ blocks := by
  cases blocks with
  | nil => exact ⟨block,[],rfl,rfl,List.suffix_refl _⟩
  | cons next rest =>
    by_cases touch : block.stop = next.start
    · exact ⟨_,rest,if_pos touch,rfl,List.suffix_cons _ _⟩
    · exact ⟨block,next :: rest,if_neg touch,rfl,List.suffix_refl _⟩

theorem Leads.join_whole (leads : Leads block blocks) :
    ∀ other ∈ join block blocks, other.Whole := by
  cases blocks with
  | nil => exact leads.whole
  | cons next rest =>
    obtain ⟨front,later⟩ := List.forall_mem_cons.mp leads.whole
    obtain ⟨second,tail⟩ := List.forall_mem_cons.mp later
    rw [join]
    split
    · rename_i touch
      exact List.forall_mem_cons.mpr ⟨merged_whole front second ((touches front).mp touch),tail⟩
    · exact leads.whole

theorem Leads.join_ordered (leads : Leads block blocks) : (join block blocks).Pairwise Block.Below := by
  cases blocks with
  | nil => exact List.pairwise_singleton _ _
  | cons next rest =>
    obtain ⟨front,later⟩ := List.forall_mem_cons.mp leads.whole
    obtain ⟨second,_⟩ := List.forall_mem_cons.mp later
    obtain ⟨beyond,ordered⟩ := List.pairwise_cons.mp leads.ordered
    have above := leads.above next List.mem_cons_self
    rw [join]
    split
    · rename_i touch
      refine List.pairwise_cons.mpr ⟨?_,ordered⟩
      intro other member
      rw [Block.Below,merged_upper second ((touches front).mp touch)]
      exact beyond other member
    · rename_i apart
      have strict : block.upper ≠ next.lower := fun same => apart ((touches front).mpr same)
      refine List.pairwise_cons.mpr ⟨?_,leads.ordered⟩
      intro other member
      rcases List.mem_cons.mp member with rfl | member
      · unfold Block.Below
        omega
      · have far := beyond other member
        have size := next.upper_eq
        unfold Block.Below at far ⊢
        omega

theorem Leads.join_above (leads : Leads block blocks) :
    ∀ other ∈ join block blocks, block.lower ≤ other.lower := by
  have size := block.upper_eq
  cases blocks with
  | nil => simp [join]
  | cons next rest =>
    have above := leads.above
    rw [join]
    split
    · intro other member
      rcases List.mem_cons.mp member with rfl | later
      · exact Nat.le_refl _
      · have far := above other (List.mem_cons_of_mem _ later)
        omega
    · intro other member
      rcases List.mem_cons.mp member with rfl | later
      · exact Nat.le_refl _
      · have far := above other later
        omega

theorem Leads.join_tiles (leads : Leads block blocks) (solid : ∀ other ∈ others, other.Whole)
    (tiles : Tiles lower upper (block :: blocks ++ others)) :
    Tiles lower upper (join block blocks ++ others) := by
  cases blocks with
  | nil => exact tiles
  | cons next rest =>
    obtain ⟨front,later⟩ := List.forall_mem_cons.mp leads.whole
    obtain ⟨second,tail⟩ := List.forall_mem_cons.mp later
    rw [join]
    split
    · rename_i touch
      have meet := (touches front).mp touch
      refine tiles.merge meet ?_ rfl (merged_upper second meet)
      exact List.forall_mem_append.mpr ⟨tail,solid⟩
    · exact tiles

-- A block that comes back to a list of free blocks.
structure Returns (block : Block) (blocks : List Block) : Prop where
  whole : ∀ other ∈ block :: blocks, other.Whole
  apart : ∀ other ∈ blocks, block.Apart other
  ordered : blocks.Pairwise Block.Below

theorem below_subset (block : Block) (blocks : List Block) :
    (gap block blocks).below ⊆ blocks :=
  List.takeWhile_subset _

theorem gap_parts (block : Block) (blocks : List Block) :
    (gap block blocks).below ++ (gap block blocks).above = blocks :=
  List.takeWhile_append_dropWhile

namespace Returns

theorem below (returns : Returns block blocks) :
    ∀ other ∈ (gap block blocks).below, other.upper ≤ block.lower := by
  intro other member
  have starts := List.all_eq_true.mp List.all_takeWhile other member
  rw [decide_eq_true_eq,UInt64.lt_iff_toNat_lt] at starts
  change other.lower < block.lower at starts
  have size := block.upper_eq
  rcases returns.apart other ((List.takeWhile_subset _) member) with before | behind
  · omega
  · exact behind

theorem above (returns : Returns block blocks) :
    ∀ other ∈ (gap block blocks).above, block.upper ≤ other.lower := by
  have kept : (gap block blocks).above <:+ blocks := List.dropWhile_suffix _
  have ordered := returns.ordered.sublist kept.sublist
  cases parts : (gap block blocks).above with
  | nil => nofun
  | cons first rest =>
    have head := List.head?_dropWhile_not (fun other => other.start < block.start) blocks
    rw [show blocks.dropWhile _ = first :: rest from parts] at head
    rw [parts] at ordered kept
    have starts : block.start.toNat ≤ first.start.toNat := by
      simpa [UInt64.lt_iff_toNat_lt] using head
    change block.lower ≤ first.lower at starts
    have size := first.upper_eq
    have least := (returns.whole first (List.mem_cons_of_mem _ (kept.subset List.mem_cons_self))).least
    have near : block.upper ≤ first.lower := by
      rcases returns.apart first (kept.subset List.mem_cons_self) with before | behind
      · exact before
      · omega
    intro other member
    rcases List.mem_cons.mp member with rfl | later
    · exact near
    · have far := (List.pairwise_cons.mp ordered).1 other later
      unfold Block.Below at far
      omega

theorem leads (returns : Returns block blocks) : Leads block (gap block blocks).above := by
  have kept : (gap block blocks).above <:+ blocks := List.dropWhile_suffix _
  refine ⟨?_,returns.above,returns.ordered.sublist kept.sublist⟩
  intro other member
  rcases List.mem_cons.mp member with rfl | later
  · exact returns.whole _ List.mem_cons_self
  · exact returns.whole other (List.mem_cons_of_mem _ (kept.subset later))

-- What takes in the block below is the last of the blocks below, followed by what became of the
-- block and those above it.
theorem leads_last (returns : Returns block blocks)
    (last : (gap block blocks).below = kept ++ [under]) :
    Leads under (join block (gap block blocks).above) := by
  have member : under ∈ (gap block blocks).below := by
    rw [last]
    exact List.mem_append_right _ (List.mem_singleton_self _)
  have leads := returns.leads
  refine ⟨?_,?_,leads.join_ordered⟩
  · refine List.forall_mem_cons.mpr ⟨?_,leads.join_whole⟩
    exact returns.whole under (List.mem_cons_of_mem _ (below_subset block blocks member))
  · intro other joined
    exact Nat.le_trans (returns.below under member) (leads.join_above other joined)

theorem insert_first (first : (gap block blocks).below = []) :
    insert block blocks = join block (gap block blocks).above := by
  simp [insert,first]

theorem insert_behind (last : (gap block blocks).below = kept ++ [under]) :
    insert block blocks = kept ++ join under (join block (gap block blocks).above) := by
  simp [insert,last]

theorem insert_whole (returns : Returns block blocks) :
    ∀ other ∈ insert block blocks, other.Whole := by
  rcases List.eq_nil_or_concat' (gap block blocks).below with first | ⟨kept,under,last⟩
  · rw [insert_first first]
    exact returns.leads.join_whole
  · rw [insert_behind last]
    refine List.forall_mem_append.mpr ⟨?_,(returns.leads_last last).join_whole⟩
    intro other member
    refine returns.whole other (List.mem_cons_of_mem _ (below_subset block blocks ?_))
    rw [last]
    exact List.mem_append_left _ member

theorem insert_ordered (returns : Returns block blocks) :
    (insert block blocks).Pairwise Block.Below := by
  rcases List.eq_nil_or_concat' (gap block blocks).below with first | ⟨kept,under,last⟩
  · rw [insert_first first]
    exact returns.leads.join_ordered
  · have leads := returns.leads_last last
    have ordered : (kept ++ [under]).Pairwise Block.Below := by
      rw [← last]
      exact returns.ordered.sublist (List.takeWhile_sublist _)
    obtain ⟨front,_,before⟩ := List.pairwise_append.mp ordered
    rw [insert_behind last]
    refine List.pairwise_append.mpr ⟨front,leads.join_ordered,?_⟩
    intro other member joined behind
    have far := before other member under (List.mem_singleton_self _)
    have above := leads.join_above joined behind
    unfold Block.Below at far ⊢
    omega

-- No byte is lost and none is owned twice, whichever of the neighbours are taken in.
theorem insert_tiles (returns : Returns block blocks) (solid : ∀ other ∈ others, other.Whole)
    (tiles : Tiles lower upper (block :: blocks ++ others)) :
    Tiles lower upper (insert block blocks ++ others) := by
  have parts := gap_parts block blocks
  rcases List.eq_nil_or_concat' (gap block blocks).below with first | ⟨kept,under,last⟩
  · rw [first,List.nil_append] at parts
    rw [insert_first first]
    rw [← parts] at tiles
    exact returns.leads.join_tiles solid tiles
  · rw [last] at parts
    rw [insert_behind last]
    have front : ∀ other ∈ kept ++ [under], other.Whole := by
      intro other member
      refine returns.whole other (List.mem_cons_of_mem _ ?_)
      rw [← parts]
      exact List.mem_append_left _ member
    -- The block goes next to those above it, and what they become next to the one below.
    have moved : (block :: blocks ++ others).Perm
        (block :: (gap block blocks).above ++ (kept ++ [under] ++ others)) := by
      have swapped : blocks.Perm ((gap block blocks).above ++ (kept ++ [under])) :=
        (List.Perm.of_eq parts.symm).trans List.perm_append_comm
      rw [List.cons_append,List.cons_append,← List.append_assoc]
      exact (swapped.append_right others).cons block
    have upward := returns.leads.join_tiles (List.forall_mem_append.mpr ⟨front,solid⟩)
      (tiles.perm moved)
    have lowered : (join block (gap block blocks).above ++ (kept ++ [under] ++ others)).Perm
        (under :: join block (gap block blocks).above ++ (kept ++ others)) := by
      rw [List.append_assoc,List.singleton_append,← List.append_assoc]
      refine List.perm_middle.trans ?_
      rw [List.append_assoc,List.cons_append]
    have downward := (returns.leads_last last).join_tiles
      (List.forall_mem_append.mpr ⟨(List.forall_mem_append.mp front).1,solid⟩)
      (upward.perm lowered)
    refine downward.perm ?_
    rw [← List.append_assoc]
    exact List.perm_append_comm.append_right others

end Returns

end FreeListHeap.FreeList
