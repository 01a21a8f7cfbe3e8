import FreeListHeap.Proofs.Runs

namespace FreeListHeap

variable {build : Build} {size align : Word} {placement : Placement} {payload address : Address}
  {ledger : Ledger} {free rest : List Block} {block : Block} {edits : List Edit}

-- What lies between two bounds, as a block of its own if it is long enough to stand alone.
def Block.standing (low high : Nat) : List Block :=
  if 32 ≤ high - low then [⟨UInt64.ofNat low,UInt64.ofNat (high - low)⟩] else []

theorem Block.length_standing (low high : Nat) : (standing low high).length ≤ 1 := by
  unfold standing
  split
  · exact Nat.le_refl 1
  · exact Nat.zero_le 1

theorem Block.standing_eq (lower : block.lower = low) (size : block.size.toNat = high - low) :
    (if 32 ≤ block.size.toNat then [block] else []) = standing low high := by
  rw [standing,← size,← lower]
  simp [Block.lower]

namespace Placement.Sound

variable (sound : placement.Sound)

include sound

theorem front_standing : placement.front?.toList =
    Block.standing placement.block.lower (placement.payload.toNat - 16) := by
  have whole : Block.lower ⟨placement.block.start,placement.frontSize⟩ = placement.block.lower := rfl
  rw [← Block.standing_eq whole sound.toNat_frontSize]
  obtain ⟨large,kept,_⟩ | ⟨small,dropped,_⟩ := placement.front_cases
  · rw [kept,if_pos large]
    rfl
  · rw [dropped,if_neg (Nat.not_le.mpr small)]
    rfl

theorem tail_standing : placement.tail?.toList =
    Block.standing (placement.payload.toNat + placement.size.toNat) placement.block.upper := by
  have lower : Block.lower ⟨placement.payloadStop,placement.tailSize⟩ =
      placement.payload.toNat + placement.size.toNat := sound.toNat_payloadStop
  rw [← Block.standing_eq lower sound.toNat_tailSize]
  obtain ⟨large,kept,_⟩ | ⟨small,dropped,_⟩ := placement.tail_cases
  · rw [kept,if_pos large]
    rfl
  · rw [dropped,if_neg (Nat.not_le.mpr small)]
    rfl

-- The padding is all that lies in front of the header, unless that stays free.
theorem padding_eq : placement.padding.toNat =
    if 32 ≤ placement.payload.toNat - 16 - placement.block.lower then 0
    else placement.payload.toNat - 16 - placement.block.lower := by
  rw [← sound.toNat_frontSize]
  obtain ⟨large,_,none⟩ | ⟨small,_,all⟩ := placement.front_cases
  · rw [if_pos large,none]
    rfl
  · rw [if_neg (Nat.not_le.mpr small),all]

theorem stop_eq : placement.reserved.stop.toNat =
    if 32 ≤ placement.block.upper - (placement.payload.toNat + placement.size.toNat)
    then placement.payload.toNat + placement.size.toNat else placement.block.upper := by
  rw [← sound.toNat_tailSize]
  obtain ⟨large,_,stop⟩ | ⟨small,_,stop⟩ := placement.tail_cases
  · rw [if_pos large,stop,sound.toNat_payloadStop]
  · rw [if_neg (Nat.not_le.mpr small),stop,sound.block.toNat_stop]

theorem size_eq : placement.header.size.toNat =
    placement.reserved.stop.toNat - (placement.payload.toNat - 16 - placement.padding.toNat) := by
  have start := sound.reservation_lower
  rw [sound.toNat_size]
  omega

end Placement.Sound

theorem Memory.read_apply_elsewhere {memory : Memory}
    (fits : ∀ edit ∈ edits, edit.address.toNat + 16 ≤ UInt64.size)
    (outside : ∀ start ∈ edits.map Edit.address,
      address.toNat < start.toNat ∨ start.toNat + 16 ≤ address.toNat) :
    (memory.apply edits).read address = memory.read address := by
  refine read_apply_outside fun edit member => ?_
  exact Word.distance_outside (fits edit member) (outside _ (List.mem_map_of_mem member))

theorem FreeList.join_below (ordered : (block :: rest).Pairwise Block.Below)
    (whole : block.Whole) : join block rest = block :: rest := by
  cases rest with
  | nil => rfl
  | cons next rest =>
    have below := (List.pairwise_cons.mp ordered).1 next List.mem_cons_self
    exact if_neg fun touch => absurd ((touches whole).mp touch) (Nat.ne_of_lt below)

-- A payload that ends at `stop` is taken out of the one free block that it lies in. What is left
-- of the block in front of the header and behind the payload takes its place in the list if it can
-- stand alone, and is reserved otherwise. Nothing is written but the nodes that change and the
-- header.
structure Block.Divided (block : Block) (payload : Address) (stop : Nat) (below above : List Block)
    (before after : State) : Prop where
  parts : before.freeBlocks = below ++ block :: above
  holds : ∀ other ∈ before.freeBlocks, other.Has payload.toNat ↔ other = block
  room : block.lower + 16 ≤ payload.toNat ∧ stop ≤ block.upper
  blocks : after.freeBlocks = below ++ (standing block.lower (payload.toNat - 16) ++
    standing stop block.upper) ++ above
  unjoined : ∀ kept one rest, after.freeBlocks = kept ++ one :: rest →
    FreeList.join one rest = one :: rest
  count : after.freeBlocks.length + 1 = before.freeBlocks.length ∨
    after.freeBlocks.length = before.freeBlocks.length ∨
    after.freeBlocks.length = before.freeBlocks.length + 1
  padding : (after.memory.readHeader payload).padding.toNat =
    if 32 ≤ payload.toNat - 16 - block.lower then 0 else payload.toNat - 16 - block.lower
  size : (after.memory.readHeader payload).size.toNat =
    (if 32 ≤ block.upper - stop then stop else block.upper) -
      (payload.toNat - 16 - (after.memory.readHeader payload).padding.toNat)
  spares : ∀ address : Address, (∀ start ∈ (below.getLast?.toList ++
      (standing block.lower (payload.toNat - 16) ++ standing stop block.upper)).map Block.lower ++
        [payload.toNat - 16], address.toNat < start ∨ start + 16 ≤ address.toNat) →
    after.memory.read address = before.memory.read address

theorem Listed.unjoined {arena : Span} {blocks : List Block} (listed : Listed arena blocks)
    (parts : blocks = kept ++ block :: rest) : FreeList.join block rest = block :: rest := by
  obtain ⟨whole,_,ordered⟩ := listed
  rw [parts] at whole ordered
  refine FreeList.join_below (List.pairwise_append.mp ordered).2.1 (whole block ?_)
  exact List.mem_append_right _ List.mem_cons_self

theorem Listed.same_block {arena : Span} {blocks : List Block} (listed : Listed arena blocks)
    (left : one ∈ blocks) (right : two ∈ blocks) (has : one.Has n) (also : two.Has n) : one = two := by
  by_contra differ
  rcases Tiles.separate listed.ordered left right differ with below | above
  · exact below.apart.not_both has also
  · exact above.apart.not_both also has

namespace Placement.Sound

variable (sound : placement.Sound) {arena : Span}
  (listed : Listed arena (placement.below ++ placement.block :: placement.above))

include sound

theorem pieces_standing : placement.pieces =
    Block.standing placement.block.lower (placement.payload.toNat - 16) ++
      Block.standing (placement.payload.toNat + placement.size.toNat) placement.block.upper := by
  rw [pieces,sound.front_standing,sound.tail_standing]

theorem count : placement.pieces.length ≤ 2 := by
  rw [sound.pieces_standing,List.length_append]
  exact Nat.add_le_add (Block.length_standing _ _) (Block.length_standing _ _)

include listed

theorem edits_elsewhere {memory : Memory} (outside : ∀ start ∈
      (placement.below.getLast?.toList ++ placement.pieces).map Block.lower ++
        [placement.payload.toNat - 16], address.toNat < start ∨ start + 16 ≤ address.toNat) :
    (memory.apply (Change.take placement).edits).read address = memory.read address := by
  refine Memory.read_apply_elsewhere ?_ ?_
  · intro edit member
    obtain ⟨block,inside,_,high⟩ := Change.take_within listed sound edit member
    have bounded := (listed.whole block inside).bounded
    omega
  · intro start member
    rw [Change.take_addresses] at member
    refine outside start.toNat ?_
    rcases List.mem_append.mp member with node | header
    · obtain ⟨block,fresh,rfl⟩ := List.mem_map.mp node
      exact List.mem_append_left _ (List.mem_map_of_mem fresh)
    · rw [List.mem_singleton.mp header,sound.toNat_headerStart]
      exact List.mem_append_right _ (List.mem_singleton_self _)

end Placement.Sound

namespace Valid

-- The placement behind a payload that is handed out.
theorem placed (valid : Valid free ledger)
    (hands : (ledger.state.allocateAligned build size align).result = .ok (some payload)) :
    ∃ request placement, build.Considers size align ∧ Request.ofBytes? size align = some request ∧
      Placement.find? request free = some placement ∧ placement.payload = payload ∧
      ledger.state.allocateAligned build size align = ⟨.ok (some payload),
        ledger.state.changed ledger.state.heap.arena (.take placement),[]⟩ := by
  have allocates := valid.allocates build size align
  generalize ledger.state.allocateAligned build size align = outcome at allocates hands
  cases allocates with
  | nothing | insists | overflow | noFit => cases hands
  | @placed request placement considers rounds found =>
    cases Option.some.inj (Except.ok.inj hands)
    exact ⟨request,placement,considers,rounds,found,rfl,rfl⟩

-- A request that is not met leaves everything as it is.
theorem refused (valid : Valid free ledger)
    (nothing : (ledger.state.allocateAligned build size align).result = .ok none) :
    ∃ log, ledger.state.allocateAligned build size align = ⟨.ok none,ledger.state,log⟩ := by
  rcases valid.allocateAligned build size align with
    ⟨result,log,outcome,_⟩ | ⟨_,_,_,outcome,_⟩
  · rw [outcome] at nothing
    exact ⟨log,nothing ▸ outcome⟩
  · rw [outcome] at nothing
    cases nothing

theorem divided (valid : Valid free ledger) (found : Placement.find? request free = some placement)
    (asked : request.Whole) : placement.block.Divided placement.payload
      (placement.payload.toNat + placement.size.toNat) placement.below placement.above ledger.state
      (ledger.state.changed ledger.state.heap.arena (.take placement)) := by
  have sound := valid.placement_sound found asked
  have change := valid.take_change found asked
  have before := valid.freeBlocks
  have listed := valid.listed
  have after : (ledger.state.changed ledger.state.heap.arena (.take placement)).freeBlocks =
      placement.remaining := change.listed.freeBlocks change.chain
  have member := Placement.find?_mem found
  obtain ⟨rfl,_⟩ := Placement.find?_some found
  have header : (ledger.state.changed ledger.state.heap.arena (.take placement)).memory.readHeader
      placement.payload = placement.header := Change.take_header listed sound ledger.state.memory
  have front := sound.front
  have room := sound.room
  have back := sound.back
  refine ⟨before,?_,⟨front,back⟩,?_,?_,?_,?_,?_,?_⟩
  · intro other inside
    rw [before] at inside
    have has : placement.block.Has placement.payload.toNat := ⟨by omega,by omega⟩
    refine ⟨fun also => listed.same_block inside member also has,?_⟩
    rintro rfl
    exact has
  · rw [after,Placement.remaining,sound.pieces_standing]
  · intro kept one rest parts
    exact change.listed.unjoined (after.symm.trans parts)
  · have pieces := sound.count
    rw [after,before,Placement.remaining]
    simp only [List.length_append,List.length_cons]
    omega
  · rw [header]
    exact sound.padding_eq
  · rw [header,← sound.stop_eq]
    exact sound.size_eq
  · intro address outside
    rw [← sound.pieces_standing] at outside
    exact sound.edits_elsewhere listed outside

end Valid

-- All that handing out a payload changes, whichever block of the list it comes from.
theorem Reached.block_divided (reached : Reached build ledger)
    (hands : (ledger.state.allocateAligned build size align).result = .ok (some payload)) :
    ∃ (block : Block) (below above : List Block), block.Divided payload
      (payload.toNat + Word.rounded size.toNat 16) below above ledger.state
      (ledger.state.allocateAligned build size align).state := by
  obtain ⟨request,placement,considers,rounds,found,rfl,outcome⟩ := reached.valid.placed hands
  have fits := (Placement.find?_some found).2.2.1
  refine ⟨placement.block,placement.below,placement.above,?_⟩
  rw [outcome,← (Request.ofBytes?_some.mp rounds).1,← fits]
  exact reached.valid.divided found (considers.whole rounds)

-- A large alignment leaves a block on either side of the payload.
theorem exercised_division :
    let ledger := Ledger.exercised.after .plain ⟨.release (some 0x10060),0⟩
    ∃ below above, Block.Divided ⟨0x10010,112⟩ 0x10040 0x10050 below above ledger.state
      (ledger.state.allocateAligned .plain 16 64).state := by
  intro ledger
  have reached : Reached .plain ledger := Reached.exercised.step (by decide +kernel)
  have hands : (ledger.state.allocateAligned .plain 16 64).result = .ok (some 0x10040) := by
    decide +kernel
  have blocks : ledger.state.freeBlocks = [⟨0x10010,112⟩,⟨0x100c0,64⟩] := by decide +kernel
  obtain ⟨block,below,above,divided⟩ := Reached.block_divided reached hands
  have member : ⟨0x10010,112⟩ ∈ ledger.state.freeBlocks := by
    rw [blocks]
    exact List.mem_cons_self
  have same : ⟨0x10010,112⟩ = block := (divided.holds _ member).mp ⟨by decide,by decide⟩
  subst same
  exact ⟨below,above,divided⟩

end FreeListHeap
