import FreeListHeap.Change
import FreeListHeap.Proofs.Coalescing
import FreeListHeap.Proofs.Division
import FreeListHeap.Proofs.Listing

namespace FreeListHeap

variable {block one two : Block} {memory left right : Memory} {edit : Edit} {edits : List Edit}
  {kept old fresh rest blocks below above : List Block} {address : Address}

def Block.HasRecord (block : Block) (address : Address) : Prop :=
  block.lower ≤ address.toNat ∧ address.toNat + 16 ≤ block.upper

theorem Block.Whole.hasRecord_start (whole : block.Whole) : block.HasRecord block.start := by
  have least := whole.least
  have size := block.upper_eq
  change block.lower ≤ block.lower ∧ block.lower + 16 ≤ _
  omega

theorem Record.apart_of_le {left right : Address} (order : left.toNat + 16 ≤ right.toNat)
    (fits : right.toNat + 16 ≤ UInt64.size) : Record.Apart left right :=
  ⟨Word.distance_outside fits (.inl (by omega)),Word.distance_outside (by omega) (.inr order)⟩

theorem Block.HasRecord.apart {left right : Address} (inside : one.HasRecord left)
    (within : two.HasRecord right) (solid : one.Whole) (whole : two.Whole)
    (apart : one.Apart two) : Record.Apart left right := by
  obtain ⟨low,high⟩ := inside
  obtain ⟨bottom,top⟩ := within
  have bounded := solid.bounded
  have fits := whole.bounded
  rcases apart with before | behind
  · exact Record.apart_of_le (by omega) (by omega)
  · exact (Record.apart_of_le (by omega) (by omega)).symm

theorem Memory.read_apply_clear
    (inside : ∀ edit ∈ edits, ∃ block ∈ blocks, block.HasRecord edit.address)
    (whole : ∀ block ∈ blocks, block.Whole) (clear : ∀ block ∈ blocks, ¬ block.Has address.toNat) :
    (memory.apply edits).read address = memory.read address := by
  refine read_apply_outside fun edit member => ?_
  obtain ⟨block,listed,low,high⟩ := inside edit member
  have bounded := (whole block listed).bounded
  have outside := clear block listed
  unfold Block.Has at outside
  exact Word.distance_outside (by omega) (by omega)

namespace FreeList

theorem Chain.suffix (chain : Chain memory head (kept ++ rest)) : Chain memory (link rest) rest := by
  induction kept generalizing head with
  | nil =>
    have same := chain.head_link
    rwa [same] at chain
  | cons block kept ih =>
    cases chain with
    | cons later => exact ih later

-- The blocks in front of a part of the list lead on to whatever takes its place, provided that it
-- starts where the part did.
theorem Chain.splice (chain : Chain left head (kept ++ old)) (tail : Chain right (link fresh) fresh)
    (same : kept = [] ∨ link fresh = link old)
    (agree : ∀ block ∈ kept, left.readNode block.start = right.readNode block.start) :
    Chain right (link (kept ++ fresh)) (kept ++ fresh) := by
  induction kept generalizing head with
  | nil => exact tail
  | cons block kept ih =>
    have starts : link fresh = link old := by
      rcases same with none | starts
      · cases none
      · exact starts
    cases chain with
    | @cons start _ later =>
      have front : left.readNode start = right.readNode start := agree _ List.mem_cons_self
      have behind := ih later (.inr starts) fun block member =>
        agree block (List.mem_cons_of_mem _ member)
      have next : (right.readNode start).next = link (kept ++ fresh) := by
        rw [← front,later.head_link]
        cases kept with
        | nil => exact starts.symm
        | cons => rfl
      rw [front,List.cons_append]
      rw [← next] at behind
      exact .cons behind

theorem dropLast_getLast? (blocks : List Block) :
    blocks.dropLast ++ blocks.getLast?.toList = blocks := by
  rcases List.eq_nil_or_concat' blocks with rfl | ⟨front,last,rfl⟩ <;> simp

theorem nodes_addresses (fresh rest : List Block) :
    (nodes fresh rest).map Edit.address = fresh.map Block.start := by
  induction fresh with
  | nil => rfl
  | cons block fresh ih => exact congrArg (block.start :: ·) ih

theorem nodes_inside (whole : ∀ block ∈ fresh, block.Whole) :
    ∀ edit ∈ nodes fresh rest, ∃ block ∈ fresh, block.HasRecord edit.address := by
  induction fresh with
  | nil => nofun
  | cons block fresh ih =>
    obtain ⟨solid,others⟩ := List.forall_mem_cons.mp whole
    intro edit member
    rcases List.mem_cons.mp member with rfl | later
    · exact ⟨block,List.mem_cons_self,solid.hasRecord_start⟩
    · obtain ⟨found,listed,inside⟩ := ih others edit later
      exact ⟨found,List.mem_cons_of_mem _ listed,inside⟩

theorem nodes_apart (whole : ∀ block ∈ fresh, block.Whole) (apart : fresh.Pairwise Block.Apart) :
    (nodes fresh rest).Pairwise fun one two => Record.Apart one.address two.address := by
  induction fresh with
  | nil => exact .nil
  | cons block fresh ih =>
    obtain ⟨solid,others⟩ := List.forall_mem_cons.mp whole
    obtain ⟨front,later⟩ := List.pairwise_cons.mp apart
    refine List.pairwise_cons.mpr ⟨?_,ih others later⟩
    intro edit member
    obtain ⟨found,listed,inside⟩ := nodes_inside others edit member
    exact solid.hasRecord_start.apart inside solid (others found listed) (front found listed)

-- A stretch of the list is replaced: its new nodes are in memory, and those of the blocks around
-- it are not written.
theorem Chain.relink (chain : Chain memory head (kept ++ (old ++ rest)))
    (same : kept = [] ∨ link (fresh ++ rest) = link (old ++ rest))
    (named : ∀ block ∈ fresh ++ rest, block.start ≠ 0)
    (written : ∀ edit ∈ FreeList.nodes fresh rest,
      (memory.apply edits).readRecord edit.address = edit.record)
    (spared : ∀ block ∈ kept ++ rest, ∀ edit ∈ edits, Record.Apart block.start edit.address) :
    Chain (memory.apply edits) (link (kept ++ (fresh ++ rest))) (kept ++ (fresh ++ rest)) := by
  have agree : ∀ block ∈ kept ++ rest,
      memory.readNode block.start = (memory.apply edits).readNode block.start := by
    intro block member
    rw [Memory.readNode,Memory.readNode,Memory.readRecord_apply_apart (spared block member)]
  have tail : Chain (memory.apply edits) (link rest) rest :=
    chain.suffix.suffix.congr fun block member => agree block (List.mem_append_right _ member)
  have middle := Chain.nodes tail written named
  exact chain.splice middle same fun block member => agree block (List.mem_append_left _ member)

end FreeList

variable {placement : Placement}

namespace Change

-- The nodes that handing out a payload writes: of the block below, which leads to the pieces now,
-- and of the pieces themselves.
def relinked (placement : Placement) : List Block :=
  placement.below.getLast?.toList ++ placement.pieces

theorem take_edits (placement : Placement) : (take placement).edits =
    FreeList.nodes (relinked placement) placement.above ++
      [.header placement.payload placement.header] := rfl

theorem take_addresses (placement : Placement) : (take placement).edits.map Edit.address =
    (relinked placement).map Block.start ++ [placement.headerStart] := by
  rw [take_edits,List.map_append,FreeList.nodes_addresses]
  rfl

theorem remaining_eq (placement : Placement) : placement.remaining =
    placement.below.dropLast ++ (relinked placement ++ placement.above) := by
  simp [Placement.remaining,relinked,← List.append_assoc,FreeList.dropLast_getLast?]

theorem header_inside (sound : placement.Sound) :
    placement.reservation.HasRecord (placement.payload - headerSize) := by
  have start := sound.reservation_lower
  have header := sound.toNat_headerStart
  have stop := sound.reservation_upper
  have front := sound.front
  have room := sound.room
  obtain ⟨slack,_,ends⟩ := sound.toNat_stop
  change _ ≤ placement.headerStart.toNat ∧ placement.headerStart.toNat + 16 ≤ _
  omega

-- The search has taken the block out of a list like this.
variable {arena : Span}
  (listed : Listed arena (placement.below ++ placement.block :: placement.above))

include listed

theorem take_listed (sound : placement.Sound) : Listed arena placement.remaining := by
  obtain ⟨front,later⟩ := List.forall_mem_append.mp listed.whole
  obtain ⟨_,back⟩ := List.forall_mem_cons.mp later
  obtain ⟨inside,within⟩ := List.forall_mem_append.mp listed.inside
  obtain ⟨bounds,beyond⟩ := List.forall_mem_cons.mp within
  have inner : ∀ piece ∈ placement.pieces,
      placement.block.lower ≤ piece.lower ∧ piece.upper ≤ placement.block.upper :=
    fun piece member => sound.tiles.inside piece (List.mem_cons_of_mem _ member)
  refine ⟨?_,?_,ordered_replace listed.ordered sound.pieces_ordered inner⟩
  · refine List.forall_mem_append.mpr ⟨List.forall_mem_append.mpr ⟨front,?_⟩,back⟩
    exact sound.pieces_whole
  · refine List.forall_mem_append.mpr ⟨List.forall_mem_append.mpr ⟨inside,?_⟩,beyond⟩
    intro piece member
    have narrow := inner piece member
    omega

theorem relinked_whole (sound : placement.Sound) :
    ∀ block ∈ relinked placement, block.Whole := by
  intro block member
  rcases List.mem_append.mp member with last | piece
  · refine listed.whole block (List.mem_append_left _ ?_)
    exact List.mem_of_getLast? (Option.mem_toList.mp last)
  · exact sound.pieces_whole block piece

theorem relinked_apart (sound : placement.Sound) :
    (relinked placement ++ [placement.reservation]).Pairwise Block.Apart := by
  obtain ⟨front,pieces⟩ := List.pairwise_cons.mp sound.tiles.apart
  have last : placement.below.getLast?.toList.Sublist placement.below := by
    cases under : placement.below.getLast? with
    | none => exact List.nil_sublist _
    | some under' => exact List.singleton_sublist.mpr (List.mem_of_getLast? under)
  refine List.pairwise_append.mpr ⟨?_,List.pairwise_singleton _ _,?_⟩
  · refine ((take_listed listed sound).ordered.sublist ?_).imp Block.Below.apart
    exact (last.append_right _).trans (List.sublist_append_left _ _)
  · intro block member reservation single
    rw [List.mem_singleton.mp single]
    rcases List.mem_append.mp member with under | piece
    · have across := (List.pairwise_append.mp listed.ordered).2.2
      have far := across block (last.subset under) placement.block List.mem_cons_self
      have bounds := sound.tiles.inside _ List.mem_cons_self
      unfold Block.Below at far
      exact .inl (by omega)
    · exact (front block piece).symm

theorem take_inside (sound : placement.Sound) : ∀ edit ∈ (take placement).edits,
    ∃ block ∈ relinked placement ++ [placement.reservation], block.HasRecord edit.address := by
  intro edit member
  rw [take_edits] at member
  rcases List.mem_append.mp member with node | header
  · obtain ⟨block,fresh,inside⟩ := FreeList.nodes_inside (relinked_whole listed sound) edit node
    exact ⟨block,List.mem_append_left _ fresh,inside⟩
  · rw [List.mem_singleton.mp header]
    exact ⟨_,List.mem_append_right _ (List.mem_singleton_self _),header_inside sound⟩

-- All that is written lies in blocks that were free.
theorem take_within (sound : placement.Sound) : ∀ edit ∈ (take placement).edits,
    ∃ block ∈ placement.below ++ placement.block :: placement.above,
      block.HasRecord edit.address := by
  intro edit member
  obtain ⟨part,found,low,high⟩ := take_inside listed sound edit member
  have inner : part ∈ placement.reservation :: placement.pieces →
      placement.block.HasRecord edit.address := by
    intro tile
    have bounds := sound.tiles.inside part tile
    unfold Block.HasRecord
    omega
  have central : placement.block ∈ placement.below ++ placement.block :: placement.above :=
    List.mem_append_right _ List.mem_cons_self
  rcases List.mem_append.mp found with fresh | reservation
  · rcases List.mem_append.mp fresh with under | piece
    · refine ⟨part,List.mem_append_left _ ?_,low,high⟩
      exact List.mem_of_getLast? (Option.mem_toList.mp under)
    · exact ⟨_,central,inner (List.mem_cons_of_mem _ piece)⟩
  · rw [List.mem_singleton.mp reservation] at inner
    exact ⟨_,central,inner List.mem_cons_self⟩

theorem take_apart (sound : placement.Sound) : (take placement).edits.Pairwise
    fun one two => Record.Apart one.address two.address := by
  have whole := relinked_whole listed sound
  obtain ⟨fresh,_,across⟩ := List.pairwise_append.mp (relinked_apart listed sound)
  rw [take_edits]
  refine List.pairwise_append.mpr ⟨FreeList.nodes_apart whole fresh,List.pairwise_singleton _ _,?_⟩
  intro edit node header single
  rw [List.mem_singleton.mp single]
  obtain ⟨block,member,inside⟩ := FreeList.nodes_inside whole edit node
  exact inside.apart (header_inside sound) (whole block member) sound.reservation_whole
    (across block member _ (List.mem_singleton_self _))

theorem take_header (sound : placement.Sound) (memory : Memory) :
    (memory.apply (take placement).edits).readHeader placement.payload = placement.header := by
  have stored : (memory.apply (take placement).edits).readRecord (placement.payload - headerSize) =
      placement.header.toRecord :=
    Memory.readRecord_apply (take_apart listed sound)
      (List.mem_append_right _ (List.mem_singleton_self _))
  rw [Memory.readHeader,stored]
  rfl

-- The blocks that are neither taken from nor right below are not written.
theorem take_spares (sound : placement.Sound) :
    ∀ block ∈ placement.below.dropLast ++ placement.above, ∀ edit ∈ (take placement).edits,
      Record.Apart block.start edit.address := by
  intro block member edit written
  obtain ⟨part,found,inside⟩ := take_inside listed sound edit written
  have kept : block ∈ placement.below ++ placement.above := by
    rcases List.mem_append.mp member with early | late
    · exact List.mem_append_left _ (List.dropLast_subset _ early)
    · exact List.mem_append_right _ late
  have solid : block.Whole := by
    refine (take_listed listed sound).whole block ?_
    rcases List.mem_append.mp kept with early | late
    · exact List.mem_append_left _ (List.mem_append_left _ early)
    · exact List.mem_append_right _ late
  suffices apart : block.Apart part ∧ part.Whole from
    solid.hasRecord_start.apart inside solid apart.2 apart.1
  rcases List.mem_append.mp found with fresh | reservation
  · refine ⟨?_,relinked_whole listed sound part fresh⟩
    have ordered := (take_listed listed sound).ordered
    rw [remaining_eq] at ordered
    obtain ⟨_,later,across⟩ := List.pairwise_append.mp ordered
    rcases List.mem_append.mp member with early | late
    · exact (across block early part (List.mem_append_left _ fresh)).apart
    · exact ((List.pairwise_append.mp later).2.2 part fresh block late).apart.symm
  · rw [List.mem_singleton.mp reservation]
    refine ⟨?_,sound.reservation_whole⟩
    have bounds := sound.tiles.inside _ List.mem_cons_self
    obtain ⟨_,later,across⟩ := List.pairwise_append.mp listed.ordered
    rcases List.mem_append.mp kept with early | late
    · have far := across block early placement.block List.mem_cons_self
      unfold Block.Below at far
      exact .inl (by omega)
    · have far := (List.pairwise_cons.mp later).1 block late
      unfold Block.Below at far
      exact .inr (by omega)

theorem take_chain (sound : placement.Sound) (named : ∀ block ∈ placement.remaining, block.start ≠ 0)
    (chain : FreeList.Chain memory head (placement.below ++ placement.block :: placement.above)) :
    FreeList.Chain (memory.apply (take placement).edits) (FreeList.link placement.remaining)
      placement.remaining := by
  rw [remaining_eq] at named ⊢
  have parts : placement.below ++ placement.block :: placement.above = placement.below.dropLast ++
      (placement.below.getLast?.toList ++ [placement.block] ++ placement.above) := by
    rw [List.append_assoc,← List.append_assoc,FreeList.dropLast_getLast?,List.singleton_append]
  rw [parts] at chain
  refine chain.relink ?_ (List.forall_mem_append.mp named).2 ?_ (take_spares listed sound)
  · cases last : placement.below.getLast? with
    | none => exact .inl (by simp [List.getLast?_eq_none_iff.mp last])
    | some under => exact .inr (by rw [relinked,last]; rfl)
  · intro edit member
    exact Memory.readRecord_apply (take_apart listed sound) (List.mem_append_left _ member)

end Change

namespace FreeList

theorem insertEdits_first (first : (gap block blocks).below = [])
    (joined : join block (gap block blocks).above = top :: rest) :
    insertEdits block blocks = nodes [top] rest := by
  simp [insertEdits,first,joined,nodes]

theorem insertEdits_behind (last : (gap block blocks).below = kept ++ [under])
    (joined : join block (gap block blocks).above = top :: rest)
    (lowered : join under (top :: rest) = bottom :: behind) :
    insertEdits block blocks = nodes [top] rest ++ nodes [bottom] behind := by
  simp [insertEdits,last,joined,lowered]

-- What is written is the node of the block that comes back and that of the block right below it.
theorem insertEdits_addresses (block : Block) (blocks : List Block) :
    (insertEdits block blocks).map Edit.address =
      block.start :: (gap block blocks).below.getLast?.toList.map Block.start := by
  obtain ⟨top,rest,joined,start,_⟩ := join_cons block (gap block blocks).above
  rcases List.eq_nil_or_concat' (gap block blocks).below with none | ⟨kept,under,last⟩
  · rw [insertEdits_first none joined,none]
    exact congrArg (· :: []) start
  · obtain ⟨bottom,behind,lowered,same,_⟩ := join_cons under (top :: rest)
    rw [insertEdits_behind last joined lowered,last,List.getLast?_concat,List.map_append]
    exact congrArg₂ (fun top bottom : Address => [top,bottom]) start same

namespace Returns

theorem apart_records (returns : Returns block blocks) (member : other ∈ blocks) :
    Record.Apart other.start block.start := by
  obtain ⟨solid,others⟩ := List.forall_mem_cons.mp returns.whole
  have whole := others other member
  exact whole.hasRecord_start.apart solid.hasRecord_start whole solid
    (returns.apart other member).symm

-- All that is written lies in the block that comes back or in a block that was free.
theorem within (returns : Returns block blocks) : ∀ edit ∈ insertEdits block blocks,
    ∃ other ∈ block :: blocks, other.HasRecord edit.address := by
  obtain ⟨solid,others⟩ := List.forall_mem_cons.mp returns.whole
  obtain ⟨top,rest,joined,start,_⟩ := join_cons block (gap block blocks).above
  have first : ∀ edit ∈ nodes [top] rest,
      ∃ other ∈ block :: blocks, other.HasRecord edit.address := by
    intro edit member
    rw [List.mem_singleton.mp member]
    refine ⟨block,List.mem_cons_self,?_⟩
    change block.HasRecord top.start
    rw [start]
    exact solid.hasRecord_start
  rcases List.eq_nil_or_concat' (gap block blocks).below with none | ⟨kept,under,last⟩
  · rw [insertEdits_first none joined]
    exact first
  · obtain ⟨bottom,behind,lowered,same,_⟩ := join_cons under (top :: rest)
    rw [insertEdits_behind last joined lowered]
    refine List.forall_mem_append.mpr ⟨first,?_⟩
    have member : under ∈ blocks := by
      refine below_subset block blocks ?_
      rw [last]
      exact List.mem_append_right _ (List.mem_singleton_self _)
    intro edit written
    rw [List.mem_singleton.mp written]
    refine ⟨under,List.mem_cons_of_mem _ member,?_⟩
    change under.HasRecord bottom.start
    rw [same]
    exact (others under member).hasRecord_start

-- A block that comes back changes the list at two records at most, its own and that of the block
-- below it.
theorem edits_apart (returns : Returns block blocks) (member : under ∈ blocks)
    (behind beyond : List Block) (start : top.start = block.start)
    (same : bottom.start = under.start) :
    (nodes [top] behind ++ nodes [bottom] beyond).Pairwise
      fun one two => Record.Apart one.address two.address := by
  refine List.pairwise_pair.mpr ?_
  change Record.Apart top.start bottom.start
  rw [start,same]
  exact (returns.apart_records member).symm

theorem edits_spare (returns : Returns block blocks) (parts : blocks = kept ++ under :: rest)
    (behind beyond : List Block) (start : top.start = block.start)
    (same : bottom.start = under.start) :
    ∀ other ∈ kept ++ rest, ∀ edit ∈ nodes [top] behind ++ nodes [bottom] beyond,
      Record.Apart other.start edit.address := by
  have others := (List.forall_mem_cons.mp returns.whole).2
  have ordered := returns.ordered
  rw [parts] at ordered others
  obtain ⟨_,later,before⟩ := List.pairwise_append.mp ordered
  have after := (List.pairwise_cons.mp later).1
  have member : under ∈ kept ++ under :: rest := List.mem_append_right _ List.mem_cons_self
  intro other outer edit written
  have listed : other ∈ kept ++ under :: rest :=
    List.perm_middle.mem_iff.mpr (List.mem_cons_of_mem _ outer)
  have apart : other.Apart under := by
    rcases List.mem_append.mp outer with early | late
    · exact (before other early under List.mem_cons_self).apart
    · exact (after other late).apart.symm
  rcases List.mem_append.mp written with upper | lower
  · rw [List.mem_singleton.mp upper]
    change Record.Apart other.start top.start
    rw [start]
    rw [← parts] at listed
    exact returns.apart_records listed
  · rw [List.mem_singleton.mp lower]
    change Record.Apart other.start bottom.start
    rw [same]
    exact (others other listed).hasRecord_start.apart (others under member).hasRecord_start
      (others other listed) (others under member) apart

-- The stretch of the list from the block below on, when the nodes that take its place are among
-- those written.
theorem chain_behind (returns : Returns block blocks) (chain : Chain memory head blocks)
    (parts : blocks = kept ++ under :: (old ++ rest)) (named : ∀ other ∈ blocks, other.start ≠ 0)
    (behind beyond : List Block) (start : top.start = block.start)
    (same : bottom.start = under.start) (fresh_named : ∀ other ∈ fresh, other.start ≠ 0)
    (written : nodes fresh rest ⊆ nodes [top] behind ++ nodes [bottom] beyond)
    (leads : link (fresh ++ rest) = some under.start) :
    Chain (memory.apply (nodes [top] behind ++ nodes [bottom] beyond))
      (link (kept ++ (fresh ++ rest))) (kept ++ (fresh ++ rest)) := by
  have member : under ∈ blocks := by
    rw [parts]
    exact List.mem_append_right _ List.mem_cons_self
  have apart := returns.edits_apart member behind beyond start same
  have spared := returns.edits_spare parts behind beyond start same
  subst parts
  change Chain memory head (kept ++ (under :: old ++ rest)) at chain
  refine chain.relink (.inr leads) (List.forall_mem_append.mpr ⟨fresh_named,?_⟩) ?_ ?_
  · intro other member
    refine named other (List.mem_append_right _ (List.mem_cons_of_mem _ ?_))
    exact List.mem_append_right _ member
  · intro edit member
    exact Memory.readRecord_apply apart (written member)
  · intro other member
    refine spared other ?_
    rcases List.mem_append.mp member with early | late
    · exact List.mem_append_left _ early
    · exact List.mem_append_right _ (List.mem_append_right _ late)

theorem chain_first (returns : Returns block blocks) (chain : Chain memory head blocks)
    (parts : blocks = old ++ rest) (named : ∀ other ∈ blocks, other.start ≠ 0)
    (start : top.start = block.start) (fresh : block.start ≠ 0) :
    Chain (memory.apply (nodes [top] rest)) (link (top :: rest)) (top :: rest) := by
  have named_rest : ∀ other ∈ rest, other.start ≠ 0 := by
    intro other member
    refine named other ?_
    rw [parts]
    exact List.mem_append_right _ member
  rw [parts] at chain
  change Chain _ (link ([] ++ ([top] ++ rest))) ([] ++ ([top] ++ rest))
  refine chain.relink (.inl rfl) (List.forall_mem_cons.mpr ⟨by rwa [start],named_rest⟩) ?_ ?_
  · intro edit member
    exact Memory.readRecord_apply (List.pairwise_singleton _ _) member
  · intro other member edit written
    rw [List.mem_singleton.mp written]
    change Record.Apart other.start top.start
    rw [start]
    refine returns.apart_records ?_
    rw [parts]
    exact List.mem_append_right _ member

theorem chain (returns : Returns block blocks) (named : ∀ other ∈ block :: blocks, other.start ≠ 0)
    (chain : Chain memory head blocks) :
    Chain (memory.apply (insertEdits block blocks)) (link (insert block blocks))
      (insert block blocks) := by
  obtain ⟨fresh,old⟩ := List.forall_mem_cons.mp named
  have parts := gap_parts block blocks
  obtain ⟨top,rest,joined,start,absorbed,above⟩ := join_cons block (gap block blocks).above
  rw [← above] at parts
  rcases List.eq_nil_or_concat' (gap block blocks).below with first | ⟨kept,under,last⟩
  · rw [insertEdits_first first joined,insert_first first,joined]
    rw [first] at parts
    exact returns.chain_first chain parts.symm old start fresh
  · obtain ⟨bottom,behind,lowered,same,merged,suffix⟩ := join_cons under (top :: rest)
    rw [insertEdits_behind last joined lowered,insert_behind last,joined,lowered]
    rw [last,List.append_assoc,List.singleton_append] at parts
    have named_top : top.start ≠ 0 := by rwa [start]
    have named_bottom : bottom.start ≠ 0 := by
      rw [same]
      refine old under ?_
      rw [← parts]
      exact List.mem_append_right _ List.mem_cons_self
    cases merged with
    | nil =>
      -- The block below keeps to itself, and both nodes are part of the list.
      rw [List.nil_append] at suffix
      rw [suffix]
      change Chain _ (link (kept ++ ([bottom,top] ++ rest))) (kept ++ ([bottom,top] ++ rest))
      refine returns.chain_behind chain parts.symm old rest (top :: rest) start same
        (List.forall_mem_cons.mpr ⟨named_bottom,List.forall_mem_singleton.mpr named_top⟩) ?_
        (congrArg some same)
      intro edit member
      rcases List.mem_cons.mp member with rfl | member
      · exact List.mem_append_right _ (List.mem_singleton_self _)
      · exact List.mem_append_left _ member
    | cons first merged =>
      -- The block below takes in the one that comes back, whose node is left behind.
      have tail : merged ++ behind = rest := (List.cons.inj suffix).2
      have longer : blocks = kept ++ under :: (absorbed ++ merged ++ behind) := by
        rw [← parts,← tail,List.append_assoc]
      change Chain _ (link (kept ++ ([bottom] ++ behind))) (kept ++ ([bottom] ++ behind))
      exact returns.chain_behind chain longer old rest behind start same
        (List.forall_mem_singleton.mpr named_bottom) (List.subset_append_right _ _)
        (congrArg some same)

end Returns

end FreeList

end FreeListHeap
