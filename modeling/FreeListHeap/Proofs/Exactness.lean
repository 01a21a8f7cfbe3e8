import FreeListHeap.Proofs.Integrity
import FreeListHeap.Proofs.Neighbours

namespace FreeListHeap

variable {build : Build} {ledger : Ledger} {free blocks : List Block} {block : Block} {arena given : Span}
  {placement : Placement} {request : Request} {grant : Grant} {payload : Address}

-- Sums and differences of words wrap around. Here each of those that a heap computes without a test
-- is said to be the number that it would be if words had no end.
def Block.StopExact (block : Block) : Prop :=
  block.stop.toNat = block.start.toNat + block.size.toNat

-- A record that lies in the arena, on a boundary between granules.
def Span.Places (arena : Span) (address : Address) : Prop :=
  16 ∣ address.toNat ∧ arena.start.toNat ≤ address.toNat ∧ address.toNat + 16 ≤ arena.stop.toNat

-- Of a payload that is taken out of a free block.
structure Placement.Exact (placement : Placement) : Prop where
  block : placement.block.StopExact
  headerStart : placement.headerStart.toNat + headerSize.toNat = placement.payload.toNat
  payloadStop : placement.payloadStop.toNat = placement.payload.toNat + placement.size.toNat
  tail : placement.payloadStop.toNat + placement.tailSize.toNat = placement.block.stop.toNat
  front : placement.block.start.toNat + placement.frontSize.toNat = placement.headerStart.toNat
  start : placement.reserved.start.toNat + placement.padding.toNat = placement.headerStart.toNat
  size : placement.reserved.start.toNat + placement.header.size.toNat =
    placement.reserved.stop.toNat
  remaining : ∀ block ∈ placement.remaining, block.StopExact

-- Of a block that is put in front of a list.
structure FreeList.JoinExact (block : Block) (blocks : List Block) : Prop where
  stop : block.StopExact
  size : ∀ next ∈ blocks.head?, block.stop = next.start →
    (block.size + next.size).toNat = block.size.toNat + next.size.toNat

-- Of an allocation that comes back to a list: from its payload to its header, from there to the
-- start of what it reserves, and then the two joins.
structure State.ReturnExact (state : State) (payload : Address) : Prop where
  headerStart : (payload - headerSize).toNat + headerSize.toNat = payload.toNat
  start : (state.reservation payload).start.toNat +
    (state.memory.readHeader payload).padding.toNat = (payload - headerSize).toNat
  above : FreeList.JoinExact (state.reservation payload)
    (FreeList.gap (state.reservation payload) state.freeBlocks).above
  below : ∀ under ∈ (FreeList.gap (state.reservation payload) state.freeBlocks).below.getLast?,
    FreeList.JoinExact under (FreeList.join (state.reservation payload)
      (FreeList.gap (state.reservation payload) state.freeBlocks).above)

-- An operation writes these records and no other byte, each of them into the arena that the heap then
-- has.
structure Outcome.Records (outcome : Outcome Value) (before : State) (edits : List Edit) : Prop where
  memory : outcome.state.memory = before.memory.apply edits
  places : ∀ edit ∈ edits, outcome.state.heap.arena.Places edit.address

-- Of a request: of every payload that the search can come to, and of what is then written.
structure State.RequestExact (build : Build) (state : State) (size align : Word) : Prop where
  found : ∀ request placement, size ≠ 0 → align ≠ 0 → Request.ofBytes? size align = some request →
    Placement.find? request state.freeBlocks = some placement → placement.Exact ∧
      ∀ edit ∈ (Change.take placement).edits, state.heap.arena.Places edit.address
  met : ∀ payload, (state.allocateAligned build size align).result = .ok (some payload) →
    ∃ request placement, Request.ofBytes? size align = some request ∧
      Placement.find? request state.freeBlocks = some placement ∧ placement.payload = payload ∧
      placement.Exact ∧
      (state.allocateAligned build size align).Records state (Change.take placement).edits
  unmet : (∀ payload, (state.allocateAligned build size align).result ≠ .ok (some payload)) →
    (state.allocateAligned build size align).Records state []

-- Of giving back an allocation: its header is read, and these nodes are written.
structure State.ReleaseExact (build : Build) (state : State) (payload : Address) : Prop
    extends state.ReturnExact payload where
  header : state.heap.arena.Places (payload - headerSize)
  records : (state.release build (some payload)).Records state
    (Change.give (state.reservation payload) state.freeBlocks).edits

-- Of taking over a range of addresses.
structure State.AdoptExact (build : Build) (state : State) (given : Span) : Prop where
  met : (state.adopt build given).result = .ok (.ok ()) → ∃ arena, given.arena? = .ok arena ∧
    (state.adopt build given).state.heap.arena = arena ∧
    (state.adopt build given).Records state (Change.single ⟨arena.start,arena.length⟩).edits
  unmet : (state.adopt build given).result ≠ .ok (.ok ()) →
    (state.adopt build given).Records state []

-- An action writes no byte outside of the arena that there is afterwards, and what it comes to does
-- not depend on any byte outside of the arena that there was before.
structure Ledger.ActsInside (build : Build) (ledger : Ledger) (action : Action) : Prop where
  writes : ∀ address : Address,
    ¬ (ledger.after build action).state.heap.arena.Has address.toNat →
      (ledger.after build action).state.memory.read address = ledger.state.memory.read address
  reads : ∀ memory, Memory.AgreeOn (ledger.state.heap.arena.Has ·.toNat) ledger.state.memory memory →
    (ledger.state.perform build action.call).SameInside ledger.state.heap.arena
      (State.perform build ⟨ledger.state.heap,memory⟩ action.call)

theorem Block.Whole.stop_exact (whole : block.Whole) : block.StopExact :=
  whole.toNat_stop

theorem Block.Whole.places (whole : block.Whole)
    (inside : arena.start.toNat ≤ block.lower ∧ block.upper ≤ arena.stop.toNat) :
    arena.Places block.start := by
  have least := whole.least
  have size := block.upper_eq
  refine ⟨whole.aligned,inside.1,?_⟩
  change block.lower + 16 ≤ _
  omega

theorem Placement.Sound.exact (sound : placement.Sound)
    (whole : ∀ block ∈ placement.remaining, block.Whole) : placement.Exact := by
  have front := sound.front
  have back := sound.back
  have header := sound.toNat_headerStart
  have stop := sound.toNat_payloadStop
  have first := sound.toNat_frontSize
  have last := sound.toNat_tailSize
  have ends := sound.block.toNat_stop
  have start := sound.reservation_lower
  have reaches := sound.reservation_upper
  refine ⟨sound.block.stop_exact,?_,stop,by omega,?_,?_,reaches,?_⟩
  · rw [header,toNat_headerSize]
    omega
  · change placement.block.lower + _ = _
    omega
  · change placement.reservation.lower + _ = _
    omega
  · intro block member
    exact (whole block member).stop_exact

theorem FreeList.Leads.join_exact (leads : Leads block blocks) : JoinExact block blocks := by
  have whole := leads.whole block List.mem_cons_self
  refine ⟨whole.stop_exact,fun next first touch => ?_⟩
  have member : next ∈ blocks := List.mem_of_mem_head? first
  exact merged_size (leads.whole next (List.mem_cons_of_mem _ member)) ((touches whole).mp touch)

namespace Valid

theorem places (valid : Valid free ledger) (member : block ∈ free) :
    ledger.state.heap.arena.Places block.start :=
  (valid.listed.whole block member).places (valid.listed.inside block member)

theorem take_exact (valid : Valid free ledger) (found : Placement.find? request free = some placement)
    (asked : request.Whole) : placement.Exact ∧
      ∀ edit ∈ (Change.take placement).edits, ledger.state.heap.arena.Places edit.address := by
  have sound := valid.placement_sound found asked
  have listed := (valid.take_change found asked).listed
  obtain ⟨low,high⟩ := valid.listed.inside _ (Placement.find?_mem found)
  refine ⟨sound.exact listed.whole,?_⟩
  obtain ⟨rfl,_⟩ := Placement.find?_some found
  intro edit member
  have addressed := List.mem_map_of_mem (f := Edit.address) member
  rw [Change.take_addresses] at addressed
  rcases List.mem_append.mp addressed with node | header
  · obtain ⟨block,fresh,same⟩ := List.mem_map.mp node
    rw [← same]
    have kept : block ∈ placement.remaining := by
      rw [Change.remaining_eq]
      exact List.mem_append_right _ (List.mem_append_left _ fresh)
    exact (listed.whole block kept).places (listed.inside block kept)
  · have start := sound.toNat_headerStart
    have payload := sound.payload
    have front := sound.front
    have back := sound.back
    rw [List.mem_singleton.mp header]
    exact ⟨by omega,by omega,by omega⟩

-- A request that is met has written the records of what it has found. Any other has written nothing.
theorem request_exact (valid : Valid free ledger) (build : Build) (size align : Word) :
    ledger.state.RequestExact build size align := by
  have found : ∀ request placement, size ≠ 0 → align ≠ 0 →
      Request.ofBytes? size align = some request →
      Placement.find? request ledger.state.freeBlocks = some placement → placement.Exact ∧
        ∀ edit ∈ (Change.take placement).edits, ledger.state.heap.arena.Places edit.address := by
    intro request placement sized aligned rounds found
    rw [valid.freeBlocks] at found
    exact valid.take_exact found (Request.ofBytes?_whole rounds sized aligned)
  have allocates := valid.allocates build size align
  refine ⟨found,?_,?_⟩
  · generalize ledger.state.allocateAligned build size align = outcome at allocates
    rintro payload met
    cases allocates with
    | nothing | insists | overflow | noFit => cases met
    | @placed request placement considers rounds search =>
      cases met
      rw [← valid.freeBlocks] at search
      obtain ⟨exact,places⟩ := found _ _ considers.sized considers.aligned rounds search
      exact ⟨request,placement,rounds,search,rfl,exact,rfl,places⟩
  · generalize ledger.state.allocateAligned build size align = outcome at allocates
    intro unmet
    cases allocates with
    | nothing | insists | overflow | noFit => exact ⟨rfl,nofun⟩
    | placed => exact absurd rfl (unmet _)

theorem give_places (valid : Valid free ledger) (member : grant ∈ ledger.grants) :
    ∀ edit ∈ (Change.give grant.block free).edits, ledger.state.heap.arena.Places edit.address := by
  intro edit written
  have addressed := List.mem_map_of_mem (f := Edit.address) written
  change _ ∈ (FreeList.insertEdits grant.block free).map Edit.address at addressed
  rw [FreeList.insertEdits_addresses] at addressed
  rcases List.mem_cons.mp addressed with own | lower
  · rw [own]
    exact (valid.sound grant member).whole.places (valid.inside member)
  · obtain ⟨under,last,same⟩ := List.mem_map.mp lower
    rw [← same]
    refine valid.places (FreeList.below_subset grant.block free ?_)
    exact List.mem_of_getLast? (Option.mem_toList.mp last)

theorem release_exact (valid : Valid free ledger) (build : Build) (member : grant ∈ ledger.grants) :
    ledger.state.ReleaseExact build grant.payload := by
  obtain ⟨front,back,parts⟩ := List.append_of_mem member
  have returns := valid.returns parts
  have sound := valid.sound grant member
  have header := sound.toNat_header
  have start := sound.start
  have inside := valid.inside member
  obtain ⟨slack,_,stop⟩ := sound.stop
  refine ⟨⟨header,?_,?_,?_⟩,?_,?_⟩
  · rw [valid.reservation member,(valid.intact grant member).header]
    change grant.block.lower + _ = _
    omega
  · rw [valid.reservation member,valid.freeBlocks]
    exact returns.leads.join_exact
  · rw [valid.reservation member,valid.freeBlocks]
    intro under last
    obtain ⟨kept,ending⟩ := List.getLast?_eq_some_iff.mp last
    exact (returns.leads_last ending).join_exact
  · have aligned := sound.whole.aligned
    have padding := sound.padding
    exact ⟨by omega,by omega,by omega⟩
  · rw [valid.release_eq build member,valid.reservation member,valid.freeBlocks]
    exact ⟨rfl,valid.give_places member⟩

theorem sums_exact (valid : Valid free ledger) (n : Nat) :
    (((free.take n).map Block.size).foldl (· + ·) 0).toNat =
      ((free.take n).map (·.size.toNat)).sum := by
  have total := valid.total
  have limit : ledger.state.heap.arena.length.toNat < UInt64.size := UInt64.toNat_lt _
  have parts : ((free.take n).map (·.size.toNat)).sum + ((free.drop n).map (·.size.toNat)).sum =
      (free.map (·.size.toNat)).sum := by
    rw [← List.sum_append,← List.map_append,List.take_append_drop]
  have sizes : (((free.take n).map (·.size)).map (·.toNat)).sum =
      ((free.take n).map (·.size.toNat)).sum := by
    rw [List.map_map]
    rfl
  rw [toNat_foldl _ _ (by rw [sizes]; change 0 + _ < _; omega),sizes]
  exact Nat.zero_add _

end Valid

theorem Span.adopt_exact (taken : given.arena? = .ok arena) :
    Block.StopExact ⟨arena.start,arena.length⟩ ∧
      ∀ edit ∈ (Change.single ⟨arena.start,arena.length⟩).edits, arena.Places edit.address := by
  obtain ⟨start,stop,large⟩ := Span.arena?_ok taken
  obtain ⟨whole,tiles⟩ := arena.undivided start stop large
  refine ⟨whole.stop_exact,fun edit member => ?_⟩
  rw [List.mem_singleton.mp member]
  exact whole.places (tiles.inside _ List.mem_cons_self)

namespace Valid

theorem adopt_exact (valid : Valid free ledger) (build : Build)
    (allowed : ledger.state.heap.arena.isEmpty → given.Exists) :
    ledger.state.AdoptExact build given := by
  rcases valid.adopt build allowed with ⟨error,outcome⟩ | ⟨arena,_,_,vacant,taken,_⟩
  · refine ⟨fun met => ?_,fun _ => ?_⟩
    · rw [outcome] at met
      cases met
    · rw [outcome]
      exact ⟨rfl,nofun⟩
  · have nonzero : arena.start ≠ 0 := allowed vacant arena (by rw [taken]; rfl)
    have outcome := adopt_single build vacant taken nonzero
    refine ⟨fun _ => ⟨arena,taken,?_⟩,fun unmet => ?_⟩
    · rw [outcome]
      exact ⟨rfl,rfl,(Span.adopt_exact taken).2⟩
    · rw [outcome] at unmet
      exact absurd rfl unmet

theorem acts_inside (valid : Valid free ledger) (build : Build) (allowed : ledger.Allowed action) :
    ledger.ActsInside build action := by
  refine ⟨fun address => valid.after_outside build allowed,fun memory agree => ?_⟩
  let other : Ledger := ⟨⟨ledger.state.heap,memory⟩,ledger.grants⟩
  have twin : Valid free other := valid.congr fun address has => (agree address has).symm
  have alike : ledger.Alike other := ⟨rfl,by rw [valid.live_eq,twin.live_eq]⟩
  exact valid.same_inside twin alike build allowed agree

end Valid

-- Whatever a client asks for, no address or size that the heap computes on the way has wrapped
-- around, and no node or header is read or written but at a boundary of the arena's granules: on
-- the way along the list, in a sum of its sizes, when a payload is handed out, when one comes back,
-- and when an arena is taken over. No byte outside of the arena has a part in any of this.
theorem Reached.never_wraps (reached : Reached build ledger) :
    (∀ block ∈ ledger.state.freeBlocks,
      block.StopExact ∧ ledger.state.heap.arena.Places block.start) ∧
    ledger.state.freeBytes.toNat = (ledger.state.freeBlocks.map (·.size.toNat)).sum ∧
    (∀ n, (((ledger.state.freeBlocks.take n).map Block.size).foldl (· + ·) 0).toNat =
      ((ledger.state.freeBlocks.take n).map (·.size.toNat)).sum) ∧
    (∀ size align, ledger.state.RequestExact build size align) ∧
    (∀ payload, ledger.Owns payload → ledger.state.ReleaseExact build payload) ∧
    (∀ given arena : Span, given.arena? = .ok arena →
      Block.StopExact ⟨arena.start,arena.length⟩ ∧
        ∀ edit ∈ (Change.single ⟨arena.start,arena.length⟩).edits, arena.Places edit.address) ∧
    (∀ given : Span, (ledger.state.heap.arena.isEmpty → given.Exists) →
      ledger.state.AdoptExact build given) ∧
    ∀ action, ledger.Allowed action → ledger.ActsInside build action := by
  have valid := reached.valid
  refine ⟨?_,valid.toNat_freeBytes,valid.sums_exact,valid.request_exact build,?_,fun _ _ => Span.adopt_exact,
    fun _ => valid.adopt_exact build,fun _ => valid.acts_inside build⟩
  · intro block member
    exact ⟨(valid.listed.whole block member).stop_exact,valid.places member⟩
  · rintro payload ⟨grant,member,rfl⟩
    exact valid.release_exact build member

-- At the very end of the address space. A request leaves one free block in front of it and one
-- behind, and an allocation comes back together with the granule of padding in front of it.
theorem exercised_exact :
    let given : Span := ⟨0xffffffffffffff01,0xffffffffffffffff⟩
    let ledger := Ledger.run .plain {} [⟨.adopt given,0⟩,⟨.allocate 24,0⟩,⟨.allocateAligned 20 32,0⟩]
    let placement : Placement := ⟨[],⟨0xffffffffffffff80,112⟩,[],0xffffffffffffffc0,16⟩
    ledger.state.heap.arena.Places 0xffffffffffffff80 ∧
    Placement.find? ⟨16,64⟩ ledger.state.freeBlocks = some placement ∧ placement.Exact ∧
    (ledger.state.allocateAligned .plain 10 64).Records ledger.state
      [.node 0xffffffffffffff80 ⟨48,some 0xffffffffffffffd0⟩,.node 0xffffffffffffffd0 ⟨32,none⟩,
        .header 0xffffffffffffffc0 ⟨32,0⟩] ∧
    ledger.state.ReleaseExact .plain 0xffffffffffffff60 ∧
    (ledger.state.release .plain (some 0xffffffffffffff60)).Records ledger.state
      [.node 0xffffffffffffff40 ⟨176,none⟩] ∧
    (State.adopt .plain {} given).Records {} [.node 0xffffffffffffff10 ⟨224,none⟩] ∧
    (ledger.after .plain ⟨.release (some 0xffffffffffffff60),0⟩).state.memory.read
      0xfffffffffffffff0 = ledger.state.memory.read 0xfffffffffffffff0 := by
  intro given ledger placement
  have reached : Reached .plain ledger := (Reached.start {}).run (by decide +kernel)
  obtain ⟨nodes,_,_,requests,releases,_,_,inside⟩ := Reached.never_wraps reached
  obtain ⟨_,_,_,_,_,_,adoptions,_⟩ := Reached.never_wraps (Reached.start {} : Reached .plain _)
  have listed : ⟨0xffffffffffffff80,112⟩ ∈ ledger.state.freeBlocks := by decide +kernel
  have found : Placement.find? ⟨16,64⟩ ledger.state.freeBlocks = some placement := by decide +kernel
  have rounds : Request.ofBytes? 10 64 = some ⟨16,64⟩ := by decide
  obtain ⟨_,_,rounded,search,_,exact,taken⟩ := (requests 10 64).met 0xffffffffffffffc0 (by decide +kernel)
  cases rounds.symm.trans rounded
  cases found.symm.trans search
  have pieces : (Change.take placement).edits = [.node 0xffffffffffffff80 ⟨48,some 0xffffffffffffffd0⟩,
      .node 0xffffffffffffffd0 ⟨32,none⟩,.header 0xffffffffffffffc0 ⟨32,0⟩] := by decide
  rw [pieces] at taken
  have owns : ledger.Owns 0xffffffffffffff60 := by decide +kernel
  have released := (releases _ owns).records
  have merged : (Change.give (ledger.state.reservation 0xffffffffffffff60)
      ledger.state.freeBlocks).edits = [.node 0xffffffffffffff40 ⟨176,none⟩] := by decide +kernel
  rw [merged] at released
  obtain ⟨arena,trimmed,_,adopted⟩ := (adoptions given (by decide)).met (by decide +kernel)
  cases (by decide : given.arena? = .ok ⟨0xffffffffffffff10,0xfffffffffffffff0⟩).symm.trans trimmed
  let action : Action := ⟨.release (some 0xffffffffffffff60),0⟩
  have stop : (ledger.after .plain action).state.heap.arena.stop = 0xfffffffffffffff0 := by
    decide +kernel
  refine ⟨(nodes _ listed).2,found,exact,taken,releases _ owns,released,adopted,
    (inside action (by decide +kernel)).writes _ ?_⟩
  rintro ⟨_,below⟩
  rw [stop] at below
  exact absurd below (Nat.lt_irrefl _)

end FreeListHeap
