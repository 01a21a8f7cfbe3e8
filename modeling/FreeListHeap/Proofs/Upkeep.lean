import FreeListHeap.Proofs.Ledger
import FreeListHeap.Proofs.Relinking

namespace FreeListHeap

variable {grant : Grant} {ledger : Ledger} {memory left right : Memory}
  {free : List Block} {front back : List Grant} {placement : Placement} {request : Request}
  {arena : Span} {address : Address} {bytes : List UInt8} {block : Block}
  {blocks : List Block}

-- How an allocation lies in what it owns: at most one granule of padding, the header, room for
-- what was asked for in whole granules, and at most one granule behind.
structure Grant.Sound (grant : Grant) : Prop where
  whole : grant.block.Whole
  padding : grant.header.padding.toNat = 0 ∨ grant.header.padding.toNat = 16
  start : grant.block.lower + grant.header.padding.toNat + 16 = grant.payload.toNat
  stop : ∃ slack, (slack = 0 ∨ slack = 16) ∧
    grant.block.upper = grant.payload.toNat + Word.rounded grant.size.toNat 16 + slack

-- What the ledger says of an allocation is what memory holds.
structure Grant.Intact (grant : Grant) (memory : Memory) : Prop where
  header : memory.readHeader grant.payload = grant.header
  inside : ∀ address byte, grant.contents address = some byte →
    grant.payload.toNat ≤ address.toNat ∧ address.toNat < grant.block.upper
  stored : ∀ address byte, grant.contents address = some byte → memory.read address = byte

def Placement.handed (placement : Placement) (size align : Word) : Grant :=
  {payload := placement.payload, size, align, header := placement.header}

-- A heap that manages nothing yet, or one that manages whole granules.
def Span.Managed (arena : Span) : Prop :=
  arena = ⟨0,0⟩ ∨ arena.start ≠ 0 ∧ 16 ∣ arena.start.toNat ∧ 16 ∣ arena.stop.toNat ∧
    arena.start.toNat + 32 ≤ arena.stop.toNat

-- The invariant of every run: the free blocks are those that the nodes in memory tell, they and
-- the allocations share out the arena, and nothing that the ledger remembers has been written over.
structure Valid (free : List Block) (ledger : Ledger) : Prop where
  arena : ledger.state.heap.arena.Managed
  chain : FreeList.Chain ledger.state.memory ledger.state.heap.head free
  listed : Listed ledger.state.heap.arena free
  sound : ∀ grant ∈ ledger.grants, grant.Sound
  tiles : Tiles ledger.state.heap.arena.start.toNat ledger.state.heap.arena.stop.toNat
    (free ++ ledger.grants.map Grant.block)
  intact : ∀ grant ∈ ledger.grants, grant.Intact ledger.state.memory

theorem Memory.readRecord_agree {start : Address} (fits : start.toNat + 16 ≤ UInt64.size)
    (agree : ∀ address : Address, start.toNat ≤ address.toNat → address.toNat < start.toNat + 16 →
      left.read address = right.read address) : left.readRecord start = right.readRecord start := by
  refine readRecord_congr fun i inside => ?_
  have place : (start + UInt64.ofNat i).toNat = start.toNat + i := Word.toNat_offset (by omega)
  exact agree _ (by omega) (by omega)

theorem Block.Whole.readNode_congr (whole : block.Whole)
    (agree : ∀ address : Address, block.Has address.toNat →
      left.read address = right.read address) :
    left.readNode block.start = right.readNode block.start := by
  obtain ⟨_,fits⟩ := whole.hasRecord_start
  have bounded := whole.bounded
  refine congrArg Node.ofRecord (Memory.readRecord_agree (by omega) fun address low high => ?_)
  exact agree address ⟨low,Nat.lt_of_lt_of_le high fits⟩

-- No block starts at address zero.
theorem Span.Managed.named (managed : arena.Managed) (whole : block.Whole)
    (inside : arena.start.toNat ≤ block.lower ∧ block.upper ≤ arena.stop.toNat) :
    block.start ≠ 0 := by
  intro zero
  have least := whole.least
  have size := block.upper_eq
  have start : block.lower = 0 := congrArg UInt64.toNat zero
  rcases managed with rfl | ⟨nonzero,_⟩
  · have nothing : block.upper ≤ 0 := inside.2
    omega
  · exact nonzero (UInt64.toNat_inj.mp (by change _ = 0; omega))

namespace Grant

theorem Sound.toNat_header (sound : grant.Sound) :
    (grant.payload - headerSize).toNat + 16 = grant.payload.toNat := by
  have start := sound.start
  rw [Word.toNat_sub (by rw [toNat_headerSize]; omega),toNat_headerSize]
  omega

theorem Sound.readHeader_congr (sound : grant.Sound) (agree : ∀ address : Address,
    grant.block.Has address.toNat → address.toNat < grant.payload.toNat →
      left.read address = right.read address) :
    left.readHeader grant.payload = right.readHeader grant.payload := by
  have header := sound.toNat_header
  have start := sound.start
  have bounded := sound.whole.bounded
  obtain ⟨slack,_,stop⟩ := sound.stop
  refine congrArg Header.ofRecord (Memory.readRecord_agree (by omega) fun address low high => ?_)
  refine agree address ?_ (by omega)
  unfold Block.Has
  omega

theorem Sound.has (sound : grant.Sound) (inside : grant.payload.toNat ≤ n ∧ n < grant.block.upper) :
    grant.block.Has n := by
  have start := sound.start
  unfold Block.Has
  omega

theorem Sound.room (sound : grant.Sound) :
    grant.payload.toNat + grant.size.toNat ≤ grant.block.upper := by
  obtain ⟨_,_,stop⟩ := sound.stop
  have rounds : grant.size.toNat ≤ Word.rounded grant.size.toNat 16 :=
    Word.le_rounded _ (Nat.succ_pos 15)
  omega

-- Only the bytes that an allocation owns matter to it.
theorem Intact.congr (intact : grant.Intact left) (sound : grant.Sound)
    (agree : ∀ address : Address, grant.block.Has address.toNat →
      right.read address = left.read address) : grant.Intact right := by
  refine ⟨?_,intact.inside,?_⟩
  · rw [← intact.header]
    exact sound.readHeader_congr fun address has _ => agree address has
  · intro address byte known
    rw [agree address (sound.has (intact.inside address byte known))]
    exact intact.stored address byte known

-- Bytes stored through an allocation stay within what it owns behind its header.
theorem Sound.store_outside (sound : grant.Sound) (inside : ∀ i < bytes.length,
      grant.payload.toNat ≤ address.toNat + i ∧ address.toNat + i < grant.block.upper)
    (outside : other.toNat < grant.payload.toNat ∨ grant.block.upper ≤ other.toNat) :
    (memory.writeBytes address bytes).read other = memory.read other := by
  have bounded := sound.whole.bounded
  rcases Nat.eq_zero_or_pos bytes.length with none | some
  · rw [List.length_eq_zero_iff.mp none]
    rfl
  · have first := inside 0 some
    have last := inside (bytes.length - 1) (by omega)
    refine Memory.read_writeBytes_outside (by omega) (Word.distance_outside (by omega) ?_)
    omega

theorem Sound.store_clear (sound : grant.Sound) (inside : ∀ i < bytes.length,
      grant.payload.toNat ≤ address.toNat + i ∧ address.toNat + i < grant.block.upper)
    (clear : ¬ grant.block.Has other.toNat) :
    (memory.writeBytes address bytes).read other = memory.read other := by
  have start := sound.start
  refine sound.store_outside inside ?_
  unfold Block.Has at clear
  omega

theorem Sound.store (sound : grant.Sound) (address : Address) (bytes : List UInt8) :
    (grant.store address bytes).Sound :=
  ⟨sound.whole,sound.padding,sound.start,sound.stop⟩

theorem Intact.store (intact : grant.Intact memory) (sound : grant.Sound)
    (inside : ∀ i < bytes.length,
      grant.payload.toNat ≤ address.toNat + i ∧ address.toNat + i < grant.block.upper) :
    (grant.store address bytes).Intact (memory.writeBytes address bytes) := by
  have bounded := sound.whole.bounded
  refine ⟨?_,?_,?_⟩
  · refine (sound.readHeader_congr fun other _ front => ?_).trans intact.header
    exact sound.store_outside inside (.inl front)
  · intro other byte known
    rcases Option.or_eq_some_iff.mp known with fresh | ⟨_,old⟩
    · obtain ⟨within,_⟩ := List.getElem?_eq_some_iff.mp fresh
      have bounds := inside _ within
      have place : (address + (other - address)).toNat =
          address.toNat + (other - address).toNat := Word.toNat_add (by omega)
      rw [show address + (other - address) = other by grind] at place
      rwa [place]
    · exact intact.inside other byte old
  · intro other byte known
    have fits : bytes.length ≤ UInt64.size := by
      by_contra exceeds
      have last := inside (bytes.length - 1) (by omega)
      omega
    rw [Memory.read_writeBytes _ _ _ fits]
    rcases Option.or_eq_some_iff.mp known with fresh | ⟨beyond,old⟩
    · rw [fresh,Option.getD_some]
    · rw [beyond,Option.getD_none]
      exact intact.stored other byte old

end Grant

theorem Ledger.singled (parts : ledger.grants = front ++ grant :: back) : grant ∈ ledger.grants := by
  rw [parts]
  exact List.mem_append_right _ List.mem_cons_self

theorem Ledger.kept (parts : ledger.grants = front ++ grant :: back)
    (member : other ∈ front ++ back) : other ∈ ledger.grants := by
  rw [parts]
  exact List.perm_middle.mem_iff.mpr (List.mem_cons_of_mem _ member)

theorem Ledger.stored_blocks (ledger : Ledger) (through address : Address) (bytes : List UInt8) :
    (ledger.stored through address bytes).map Grant.block = ledger.grants.map Grant.block := by
  rw [stored,List.map_map]
  refine List.map_congr_left fun grant _ => ?_
  rw [Function.comp_apply]
  split <;> rfl

theorem Placement.Sound.handed {size : Word} (sound : placement.Sound) (align : Word)
    (rounds : Word.rounded size.toNat 16 = placement.size.toNat) :
    (placement.handed size align).Sound := by
  obtain ⟨slack,small,stop⟩ := sound.toNat_stop
  refine ⟨sound.reservation_whole,sound.toNat_padding,sound.reservation_lower,slack,small,?_⟩
  change placement.reservation.upper = placement.payload.toNat + Word.rounded size.toNat 16 + slack
  rw [sound.reservation_upper,stop,rounds]

namespace Valid

theorem freeBlocks (valid : Valid free ledger) : ledger.state.freeBlocks = free :=
  valid.listed.freeBlocks valid.chain

theorem reservation (valid : Valid free ledger) (member : grant ∈ ledger.grants) :
    ledger.state.reservation grant.payload = grant.block := by
  rw [State.reservation,(valid.intact grant member).header]
  rfl

theorem whole (valid : Valid free ledger) :
    ∀ block ∈ free ++ ledger.grants.map Grant.block, block.Whole := by
  refine List.forall_mem_append.mpr ⟨valid.listed.whole,?_⟩
  intro block member
  obtain ⟨grant,granted,rfl⟩ := List.mem_map.mp member
  exact (valid.sound grant granted).whole

theorem inside (valid : Valid free ledger) (member : grant ∈ ledger.grants) :
    ledger.state.heap.arena.start.toNat ≤ grant.block.lower ∧
      grant.block.upper ≤ ledger.state.heap.arena.stop.toNat :=
  valid.tiles.inside _ (List.mem_append_right _ (List.mem_map_of_mem member))

theorem named (valid : Valid free ledger) :
    ∀ block ∈ free ++ ledger.grants.map Grant.block, block.start ≠ 0 := by
  intro block member
  exact valid.arena.named (valid.whole block member) (valid.tiles.inside block member)

theorem grants_apart (valid : Valid free ledger) :
    ledger.grants.Pairwise fun one two => one.block.Apart two.block :=
  List.pairwise_map.mp (List.pairwise_append.mp valid.tiles.apart).2.1

theorem apart (valid : Valid free ledger) (member : grant ∈ ledger.grants) :
    ∀ block ∈ free, block.Apart grant.block :=
  fun block listed => (List.pairwise_append.mp valid.tiles.apart).2.2 block listed _
    (List.mem_map_of_mem member)

section Take

variable (valid : Valid free ledger) (found : Placement.find? request free = some placement)
  (asked : request.Whole)

include valid found asked

theorem placement_sound : placement.Sound :=
  Placement.find?_sound found valid.listed.whole asked

theorem take_change :
    (Change.take placement).Sound ledger.state.heap.arena ledger.state.memory := by
  have sound := valid.placement_sound found asked
  obtain ⟨rfl,_⟩ := Placement.find?_some found
  have listed := Change.take_listed valid.listed sound
  refine ⟨?_,listed,Change.take_chain valid.listed sound ?_ valid.chain⟩
  · intro block member
    exact (sound.tail_piece (Option.mem_toList.mp member)).2.2
  · intro block member
    exact valid.arena.named (listed.whole block member) (listed.inside block member)

theorem take_spares (member : grant ∈ ledger.grants) (address : Address)
    (has : grant.block.Has address.toNat) :
    (ledger.state.changed ledger.state.heap.arena (.take placement)).memory.read address =
      ledger.state.memory.read address := by
  have sound := valid.placement_sound found asked
  have apart := valid.apart member
  obtain ⟨rfl,_⟩ := Placement.find?_some found
  refine Memory.read_apply_clear (Change.take_within valid.listed sound) valid.listed.whole ?_
  intro block listed
  exact (apart block listed).symm.not_both has

-- The new allocation takes what it reserves from one free block, and nothing from any other
-- allocation.
theorem take (size align : Word) (rounds : Word.rounded size.toNat 16 = placement.size.toNat) :
    Valid placement.remaining
      ⟨ledger.state.changed ledger.state.heap.arena (.take placement),
        placement.handed size align :: ledger.grants⟩ := by
  have sound := valid.placement_sound found asked
  have change := valid.take_change found asked
  have fresh := sound.handed align rounds
  refine ⟨valid.arena,change.chain,change.listed,?_,?_,?_⟩
  · exact List.forall_mem_cons.mpr ⟨fresh,valid.sound⟩
  · have tiles := valid.tiles
    obtain ⟨rfl,_⟩ := Placement.find?_some found
    have divided := (tiles.perm (List.perm_middle.append_right _)).split sound.tiles
    have regrouped : (placement.pieces ++ (placement.below ++ placement.above ++
        ledger.grants.map Grant.block)).Perm
        (placement.remaining ++ ledger.grants.map Grant.block) := by
      simp only [Placement.remaining,List.append_assoc]
      exact List.perm_append_comm_assoc _ _ _
    exact divided.perm ((regrouped.cons _).trans List.perm_middle.symm)
  · have spares := fun grant (member : grant ∈ ledger.grants) => valid.take_spares found asked member
    obtain ⟨rfl,_⟩ := Placement.find?_some found
    refine List.forall_mem_cons.mpr ⟨⟨?_,?_,?_⟩,?_⟩
    · exact Change.take_header valid.listed sound ledger.state.memory
    · intro address byte known
      cases known
    · intro address byte known
      cases known
    · intro grant member
      refine (valid.intact grant member).congr (valid.sound grant member) ?_
      intro address has
      exact spares grant member address has

end Take

section Give

variable (valid : Valid free ledger) (parts : ledger.grants = front ++ grant :: back)

include valid parts

theorem returns : FreeList.Returns grant.block free := by
  have granted := Ledger.singled parts
  refine ⟨List.forall_mem_cons.mpr ⟨(valid.sound grant granted).whole,valid.listed.whole⟩,?_,?_⟩
  · intro other listed
    exact (valid.apart granted other listed).symm
  · exact valid.listed.ordered

theorem give_tiles : Tiles ledger.state.heap.arena.start.toNat ledger.state.heap.arena.stop.toNat
    (FreeList.insert grant.block free ++ (front ++ back).map Grant.block) := by
  have whole := valid.whole
  have tiles := valid.tiles
  have moved : (free ++ (front ++ grant :: back).map Grant.block).Perm
      (grant.block :: free ++ (front ++ back).map Grant.block) := by
    rw [List.map_append,List.map_cons,List.map_append]
    exact (List.perm_middle.append_left free).trans List.perm_middle
  rw [parts] at tiles whole
  refine (valid.returns parts).insert_tiles ?_ (tiles.perm moved)
  intro block member
  have others := moved.mem_iff (a := block)
  exact whole block (others.mpr (List.mem_append_right _ member))

theorem give_change : (Change.give grant.block free).Sound ledger.state.heap.arena
    ledger.state.memory := by
  have returns := valid.returns parts
  obtain ⟨solid,_⟩ := List.forall_mem_cons.mp returns.whole
  refine ⟨List.forall_mem_singleton.mpr solid,⟨returns.insert_whole,?_,returns.insert_ordered⟩,?_⟩
  · intro block member
    exact (valid.give_tiles parts).inside block (List.mem_append_left _ member)
  · refine returns.chain (List.forall_mem_cons.mpr ⟨?_,?_⟩) valid.chain
    · exact valid.named _ (List.mem_append_right _ (List.mem_map_of_mem (Ledger.singled parts)))
    · intro block member
      exact valid.named block (List.mem_append_left _ member)

theorem give_spares (member : other ∈ front ++ back) (address : Address)
    (has : other.block.Has address.toNat) :
    (ledger.state.changed ledger.state.heap.arena (.give grant.block free)).memory.read address =
      ledger.state.memory.read address := by
  have returns := valid.returns parts
  have grants := valid.grants_apart
  have granted := Ledger.kept parts member
  rw [parts,List.pairwise_middle Block.Apart.symm] at grants
  refine Memory.read_apply_clear returns.within returns.whole ?_
  refine List.forall_mem_cons.mpr ⟨?_,?_⟩
  · exact ((List.pairwise_cons.mp grants).1 other member).symm.not_both has
  · intro block listed
    exact (valid.apart granted block listed).symm.not_both has

-- The block of an allocation that is given back is free again, and no other allocation notices.
theorem give : Valid (FreeList.insert grant.block free)
    ⟨ledger.state.changed ledger.state.heap.arena (.give grant.block free),front ++ back⟩ := by
  have change := valid.give_change parts
  refine ⟨valid.arena,change.chain,change.listed,?_,valid.give_tiles parts,?_⟩
  · intro other member
    exact valid.sound other (Ledger.kept parts member)
  · intro other member
    have granted := Ledger.kept parts member
    refine (valid.intact other granted).congr (valid.sound other granted) fun address has => ?_
    exact valid.give_spares parts member address has

end Give

section Store

variable (valid : Valid free ledger)

include valid

theorem apart_of_payload (left : one ∈ ledger.grants) (right : two ∈ ledger.grants)
    (differ : one.payload ≠ two.payload) : one.block.Apart two.block := by
  have : Std.Symm fun one two : Grant => one.block.Apart two.block := ⟨fun _ _ => Block.Apart.symm⟩
  refine valid.grants_apart.forall left right ?_
  rintro rfl
  exact differ rfl

-- A store changes what its own allocation holds, and nothing else.
theorem store (covers : ledger.Covers through address bytes.length) :
    Valid free ⟨⟨ledger.state.heap,ledger.state.memory.writeBytes address bytes⟩,
      ledger.stored through address bytes⟩ := by
  obtain ⟨⟨owner,owned,rfl⟩,range⟩ := covers
  have clear : ∀ other : Address, ¬ owner.block.Has other.toNat →
      (ledger.state.memory.writeBytes address bytes).read other = ledger.state.memory.read other := by
    rw [valid.reservation owned] at range
    exact fun _ => (valid.sound owner owned).store_clear range
  refine ⟨valid.arena,valid.chain.congr ?_,valid.listed,?_,?_,?_⟩
  · intro block listed
    refine (valid.listed.whole block listed).readNode_congr fun other has => ?_
    exact (clear other ((valid.apart owned block listed).not_both has)).symm
  · intro grant member
    obtain ⟨prior,granted,rfl⟩ := List.mem_map.mp member
    split
    · exact (valid.sound prior granted).store _ _
    · exact valid.sound prior granted
  · rw [Ledger.stored_blocks]
    exact valid.tiles
  · intro grant member
    obtain ⟨prior,granted,rfl⟩ := List.mem_map.mp member
    have sound := valid.sound prior granted
    split
    · rename_i same
      rw [← same,valid.reservation granted] at range
      exact (valid.intact prior granted).store sound range
    · rename_i differ
      refine (valid.intact prior granted).congr sound fun other has => ?_
      exact clear other ((valid.apart_of_payload granted owned differ).not_both has)

end Store

end Valid

end FreeListHeap
