import FreeListHeap.Proofs.Runs

namespace FreeListHeap

variable {build : Build} {ledger : Ledger} {grant : Grant} {free : List Block}
  {action : Action} {actions : List Action}

theorem Grant.Sound.size_eq (sound : grant.Sound) : ∃ tail, (tail = 0 ∨ tail = 16) ∧
    grant.header.size.toNat =
      grant.header.padding.toNat + 16 + Word.rounded grant.size.toNat 16 + tail := by
  have start := sound.start
  obtain ⟨tail,small,stop⟩ := sound.stop
  have upper : grant.block.upper = grant.block.lower + grant.header.size.toNat := rfl
  exact ⟨tail,small,by omega⟩

namespace Valid

theorem reservations (valid : Valid free ledger) :
    ledger.grants.map (ledger.state.reservation ·.payload) = ledger.grants.map Grant.block :=
  List.map_congr_left fun _ member => valid.reservation member

-- Every byte of the arena is counted once, as free or as reserved.
theorem total (valid : Valid free ledger) :
    (free.map (·.size.toNat)).sum + (ledger.grants.map (·.header.size.toNat)).sum =
      ledger.state.heap.arena.length.toNat := by
  have total := valid.tiles.total
  rw [List.map_append,List.sum_append,List.map_map] at total
  rw [Span.toNat_length]
  exact total

theorem toNat_freeBytes (valid : Valid free ledger) :
    ledger.state.freeBytes.toNat = (free.map (·.size.toNat)).sum := by
  have total := valid.total
  have limit : ledger.state.heap.arena.length.toNat < UInt64.size := UInt64.toNat_lt _
  have sizes : ((free.map (·.size)).map (·.toNat)).sum = (free.map (·.size.toNat)).sum := by
    rw [List.map_map]
    rfl
  have summed := toNat_foldl (free.map (·.size)) 0 (by
    rw [sizes]
    change 0 + _ < _
    omega)
  rw [sizes] at summed
  have listed : ledger.state.heap.freeBlocks ledger.state.memory = free := valid.freeBlocks
  rw [State.freeBytes,Heap.freeBytes,listed,summed]
  exact Nat.zero_add _

end Valid

-- The free blocks and the allocations share out the arena, whatever has been done to it. A header
-- accounts for the padding, itself, the payload in whole granules, and what lies behind.
theorem Reached.arena_tiled (reached : Reached build ledger) :
    Tiles ledger.state.heap.arena.start.toNat ledger.state.heap.arena.stop.toNat
        (ledger.state.freeBlocks ++ ledger.grants.map (ledger.state.reservation ·.payload)) ∧
      ledger.state.freeBytes.toNat + (ledger.grants.map fun grant =>
        (ledger.state.memory.readHeader grant.payload).size.toNat).sum =
          ledger.state.heap.arena.length.toNat ∧
      ∀ grant ∈ ledger.grants,
        ((ledger.state.memory.readHeader grant.payload).padding.toNat = 0 ∨
          (ledger.state.memory.readHeader grant.payload).padding.toNat = 16) ∧
        ∃ tail, (tail = 0 ∨ tail = 16) ∧
          (ledger.state.memory.readHeader grant.payload).size.toNat =
            (ledger.state.memory.readHeader grant.payload).padding.toNat + 16 +
              Word.rounded grant.size.toNat 16 + tail := by
  have valid := reached.valid
  have headers : (ledger.grants.map fun grant =>
      (ledger.state.memory.readHeader grant.payload).size.toNat) =
      ledger.grants.map (·.header.size.toNat) :=
    List.map_congr_left fun grant member => by rw [(valid.intact grant member).header]
  refine ⟨?_,?_,?_⟩
  · rw [valid.reservations]
    exact valid.tiles
  · rw [headers,valid.toNat_freeBytes]
    exact valid.total
  · intro grant member
    have sound := valid.sound grant member
    rw [(valid.intact grant member).header]
    exact ⟨sound.padding,sound.size_eq⟩

theorem exercised_tiles : Tiles 0x10010 0x10100
      [⟨0x10010,48⟩,⟨0x100c0,64⟩,⟨0x10080,64⟩,⟨0x10040,64⟩] ∧
    Ledger.exercised.state.freeBytes.toNat + 128 = 0xf0 := by
  obtain ⟨tiles,total,_⟩ := Reached.arena_tiled Reached.exercised
  have arena : Ledger.exercised.state.heap.arena = ⟨0x10010,0x10100⟩ := by decide +kernel
  have blocks : Ledger.exercised.state.freeBlocks ++
      Ledger.exercised.grants.map (Ledger.exercised.state.reservation ·.payload) =
        [⟨0x10010,48⟩,⟨0x100c0,64⟩,⟨0x10080,64⟩,⟨0x10040,64⟩] := by decide +kernel
  have reserved : (Ledger.exercised.grants.map fun grant =>
      (Ledger.exercised.state.memory.readHeader grant.payload).size.toNat).sum = 128 := by
    decide +kernel
  rw [arena,blocks] at tiles
  rw [arena,reserved] at total
  exact ⟨tiles,total⟩

-- The padding alone is not the size of a reservation.
theorem size_exceeds_padding : ¬ ∀ build ledger, Reached build ledger → ∀ grant ∈ ledger.grants,
    (ledger.state.memory.readHeader grant.payload).size =
      (ledger.state.memory.readHeader grant.payload).padding := by
  intro equal
  exact absurd (equal .plain Ledger.exercised Reached.exercised) (by decide +kernel)

-- The links in memory are a finite list of whole blocks that lie in the arena in ascending order
-- and never touch. To follow them comes to an end, however far one is ready to go, and advancing
-- along them gives each block once.
theorem Reached.links_end (reached : Reached build ledger) :
    FreeList.Chain ledger.state.memory ledger.state.heap.head ledger.state.freeBlocks ∧
      (∀ block ∈ ledger.state.freeBlocks, 16 ∣ block.start.toNat ∧ 16 ∣ block.size.toNat ∧
        32 ≤ block.size.toNat ∧ ledger.state.heap.arena.start.toNat ≤ block.lower ∧
        block.upper ≤ ledger.state.heap.arena.stop.toNat) ∧
      ledger.state.freeBlocks.Pairwise (fun one two => one.upper < two.lower) ∧
      (ledger.state.freeBlocks.map (·.start)).Nodup ∧
      (∀ fuel, ledger.state.freeBlocks.length ≤ fuel →
        FreeList.follow ledger.state.memory fuel ledger.state.heap.head = ledger.state.freeBlocks) ∧
      ∀ count, ledger.state.heap.cursor.take ledger.state.memory count =
        (ledger.state.freeBlocks.map some).take count ++
          List.replicate (count - ledger.state.freeBlocks.length) none := by
  obtain ⟨arena,chain,⟨whole,inside,ordered⟩,_⟩ := reached.valid
  refine ⟨chain,?_,ordered,?_,fun fuel => chain.follow,chain.take⟩
  · intro block member
    have solid := whole block member
    exact ⟨solid.aligned,solid.granular,solid.least,inside block member⟩
  · refine List.pairwise_map.mpr (ordered.imp fun {one two} below same => ?_)
    have size := one.upper_eq
    have starts : one.lower = two.lower := congrArg UInt64.toNat same
    unfold Block.Below at below
    omega

theorem exercised_links : Ledger.exercised.state.freeBlocks = [⟨0x10010,48⟩,⟨0x100c0,64⟩] ∧
    Ledger.exercised.state.heap.cursor.take Ledger.exercised.state.memory 4 =
      [some ⟨0x10010,48⟩,some ⟨0x100c0,64⟩,none,none] := by
  have blocks : Ledger.exercised.state.freeBlocks = [⟨0x10010,48⟩,⟨0x100c0,64⟩] := by decide +kernel
  obtain ⟨_,_,_,_,_,advances⟩ := Reached.links_end Reached.exercised
  refine ⟨blocks,?_⟩
  rw [advances 4,blocks]
  rfl

-- Whether an action leaves an allocation and its bytes to themselves.
def Action.Spares (action : Action) (payload : Address) : Prop :=
  match action.call with
  | .release given => given ≠ some payload
  | .reallocate old _ _ => old ≠ payload
  | .store _ _ | .copy _ _ _ => action.through ≠ payload
  | _ => True

instance : (action : Action) → (payload : Address) → Decidable (action.Spares payload)
  | ⟨.release given,_⟩,payload => inferInstanceAs (Decidable (given ≠ some payload))
  | ⟨.reallocate old _ _,_⟩,payload => inferInstanceAs (Decidable (old ≠ payload))
  | ⟨.store _ _,through⟩,payload | ⟨.copy _ _ _,through⟩,payload =>
    inferInstanceAs (Decidable (through ≠ payload))
  | ⟨.adopt _,_⟩,_ | ⟨.allocate _,_⟩,_ | ⟨.allocateAligned _ _,_⟩,_ | ⟨.allocateLayout _,_⟩,_
  | ⟨.allocateZeroed _,_⟩,_ | ⟨.load _ _,_⟩,_ | ⟨.header _,_⟩,_ | ⟨.arena,_⟩,_
  | ⟨.advance _,_⟩,_ => isTrue trivial

namespace Ledger

theorem mem_stored (member : grant ∈ ledger.grants) (differ : through ≠ grant.payload) :
    grant ∈ ledger.stored through address bytes :=
  List.mem_map.mpr ⟨grant,member,if_neg differ.symm⟩

theorem settle_spares (member : grant ∈ ledger.grants) (spared : action.Spares grant.payload)
    (answer : Answer) : grant ∈ ledger.settle build action answer := by
  obtain ⟨call,through⟩ := action
  unfold settle
  split
  case h_5 same =>
    cases same
    exact List.mem_cons_of_mem _ (mem_withdrawn member spared)
  case h_6 same =>
    cases same
    exact mem_withdrawn member fun equal => spared (congrArg some equal)
  case h_7 same | h_8 same =>
    cases same
    exact mem_stored member spared
  case h_9 => exact member
  all_goals exact List.mem_cons_of_mem _ member

theorem after_spares (member : grant ∈ ledger.grants) (spared : action.Spares grant.payload) :
    grant ∈ (ledger.after build action).grants := by
  unfold after
  dsimp only
  split
  · exact settle_spares member spared _
  · exact member

theorem run_spares (spared : ∀ action ∈ actions, action.Spares grant.payload)
    (member : grant ∈ ledger.grants) : grant ∈ (ledger.run build actions).grants := by
  induction actions generalizing ledger with
  | nil => exact member
  | cons action rest ih =>
    obtain ⟨first,later⟩ := List.forall_mem_cons.mp spared
    exact ih later (after_spares member first)

end Ledger

-- What is intact has the bytes that were stored last.
theorem Grant.Intact.readBytes_store (intact : (grant.store address bytes).Intact memory)
    (bounded : address.toNat + bytes.length ≤ UInt64.size) :
    memory.readBytes address bytes.length = bytes := by
  refine List.ext_getElem (by simp) fun i inside within => ?_
  rw [Memory.getElem_readBytes]
  refine intact.stored _ _ ?_
  change Option.or bytes[(address + UInt64.ofNat i - address).toNat]? _ = _
  rw [Word.distance_offset _ (by omega)]
  simp [within]

-- Bytes that were stored are read back after any run that leaves the allocation to itself.
theorem Reached.read_stored (reached : Reached build ledger) (member : grant ∈ ledger.grants)
    (covers : ledger.Covers grant.payload address bytes.length)
    (permitted : Ledger.Permitted build
      (ledger.after build ⟨.store address bytes,grant.payload⟩) actions)
    (spared : ∀ action ∈ actions, action.Spares grant.payload) :
    ((ledger.after build ⟨.store address bytes,grant.payload⟩).run build
      actions).state.memory.readBytes address bytes.length = bytes := by
  have next : Reached build (ledger.after build ⟨.store address bytes,grant.payload⟩) :=
    reached.step covers
  have stored : grant.store address bytes ∈
      (ledger.after build ⟨.store address bytes,grant.payload⟩).grants :=
    List.mem_map.mpr ⟨grant,member,if_pos rfl⟩
  have left : ∀ action ∈ actions, action.Spares (grant.store address bytes).payload := spared
  refine ((next.run permitted).valid.intact _ (Ledger.run_spares left stored)).readBytes_store ?_
  have limit : address.toNat < UInt64.size := address.toNat_lt
  rcases Nat.eq_zero_or_pos bytes.length with none | some
  · omega
  · have bounds := covers.2 (bytes.length - 1) (by omega)
    have bounded := (reached.valid.sound grant member).whole.bounded
    rw [reached.valid.reservation member] at bounds
    omega

-- What was stored through an allocation is there to be read, and so is its header, for as long as
-- it is neither given back nor stored through again.
theorem Reached.contents_kept (reached : Reached build ledger) (member : grant ∈ ledger.grants)
    (permitted : Ledger.Permitted build ledger actions)
    (spared : ∀ action ∈ actions, action.Spares grant.payload) :
    grant ∈ (ledger.run build actions).grants ∧
      (∀ address byte, grant.contents address = some byte →
        (ledger.run build actions).state.memory.read address = byte) ∧
      (ledger.run build actions).state.memory.readHeader grant.payload = grant.header := by
  have kept : grant ∈ (ledger.run build actions).grants := Ledger.run_spares spared member
  have intact := (reached.run permitted).valid.intact grant kept
  exact ⟨kept,intact.stored,intact.header⟩

theorem exercised_contents : (Ledger.exercised.run .plain
    [⟨.allocate 30,0⟩,⟨.release (some 0x10090),0⟩]).state.memory.read 0x10071 = 2 := by
  have last : Ledger.exercised.grants.getLast (by decide +kernel) ∈ Ledger.exercised.grants :=
    List.getLast_mem _
  have permitted : Ledger.Permitted .plain Ledger.exercised
      [⟨.allocate 30,0⟩,⟨.release (some 0x10090),0⟩] := by decide +kernel
  obtain ⟨_,contents,_⟩ := Reached.contents_kept Reached.exercised last permitted
    (by decide +kernel)
  exact contents 0x10071 2 (by decide +kernel)

end FreeListHeap
