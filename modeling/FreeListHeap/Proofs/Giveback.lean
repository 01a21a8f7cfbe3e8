import FreeListHeap.Proofs.Handout
import FreeListHeap.Proofs.Integrity

namespace FreeListHeap

variable {build : Build} {ledger : Ledger} {free blocks : List Block} {block : Block} {grant : Grant}
  {front back : List Grant} {address : Address}

-- A block comes back between the blocks that start below it and the others. It takes in the last of
-- the former exactly if that one ends where it starts, and the first of the latter exactly if that
-- one starts where it ends.
structure Block.Rejoins (block : Block) (below above kept rest : List Block) (merged : Block) :
    Prop where
  starts : ∀ other ∈ below, other.lower < block.lower
  follows : ∀ other ∈ above, block.lower ≤ other.lower
  lower : (∃ under, below = kept ++ [under] ∧ under.upper = block.lower ∧
      merged.lower = under.lower) ∨
    (∀ under ∈ below.getLast?, under.upper ≠ block.lower) ∧ kept = below ∧
      merged.lower = block.lower
  upper : (∃ next, above = next :: rest ∧ next.lower = block.upper ∧ merged.upper = next.upper) ∨
    (∀ next ∈ above.head?, next.lower ≠ block.upper) ∧ rest = above ∧ merged.upper = block.upper

-- All that a block changes when it comes back. Nothing is written but the granule that it starts
-- with and the node of the last block below it.
structure Block.Returned (block : Block) (below above kept rest : List Block) (merged : Block)
    (before after : State) : Prop where
  parts : before.freeBlocks = below ++ above
  rejoins : block.Rejoins below above kept rest merged
  blocks : after.freeBlocks = kept ++ merged :: rest
  bytes : after.freeBytes.toNat = before.freeBytes.toNat + block.size.toNat
  arena : after.heap.arena = before.heap.arena
  spares : ∀ address : Address, (∀ start ∈ block.lower :: below.getLast?.toList.map Block.lower,
      address.toNat < start ∨ start + 16 ≤ address.toNat) →
    after.memory.read address = before.memory.read address

namespace FreeList

theorem Leads.join_cases (leads : Leads block blocks) : ∃ top rest,
    join block blocks = top :: rest ∧ top.lower = block.lower ∧
      ((∃ next, blocks = next :: rest ∧ next.lower = block.upper ∧ top.upper = next.upper) ∨
        (∀ next ∈ blocks.head?, next.lower ≠ block.upper) ∧ rest = blocks ∧ top = block) := by
  cases blocks with
  | nil => exact ⟨block,[],rfl,rfl,.inr ⟨nofun,rfl,rfl⟩⟩
  | cons next rest =>
    obtain ⟨front,later⟩ := List.forall_mem_cons.mp leads.whole
    have second := later next List.mem_cons_self
    by_cases touch : block.stop = next.start
    · have meet := (touches front).mp touch
      exact ⟨_,rest,if_pos touch,rfl,.inl ⟨next,rfl,meet.symm,merged_upper second meet⟩⟩
    · refine ⟨block,next :: rest,if_neg touch,rfl,.inr ⟨?_,rfl,rfl⟩⟩
      rintro _ ⟨⟩ same
      exact touch ((touches front).mpr same.symm)

namespace Returns

theorem gap_sides (returns : Returns block blocks) :
    (∀ other ∈ (gap block blocks).below, other.lower < block.lower) ∧
      ∀ other ∈ (gap block blocks).above, block.lower ≤ other.lower := by
  constructor
  · intro other member
    have listed := below_subset block blocks member
    have least := (returns.whole other (List.mem_cons_of_mem _ listed)).least
    have size := other.upper_eq
    have stop := returns.below other member
    omega
  · intro other member
    have size := block.upper_eq
    have start := returns.above other member
    omega

-- The block is joined to those above it first, and what comes of that to the one below.
theorem insert_rejoins (returns : Returns block blocks) : ∃ kept rest merged,
    insert block blocks = kept ++ merged :: rest ∧
      block.Rejoins (gap block blocks).below (gap block blocks).above kept rest merged := by
  obtain ⟨starts,follows⟩ := returns.gap_sides
  obtain ⟨top,rest,joined,start,joins⟩ := returns.leads.join_cases
  have upper : (∃ next, (gap block blocks).above = next :: rest ∧ next.lower = block.upper ∧
        top.upper = next.upper) ∨
      (∀ next ∈ (gap block blocks).above.head?, next.lower ≠ block.upper) ∧
        rest = (gap block blocks).above ∧ top.upper = block.upper := by
    rcases joins with touching | ⟨apart,all,rfl⟩
    · exact .inl touching
    · exact .inr ⟨apart,all,rfl⟩
  rcases List.eq_nil_or_concat' (gap block blocks).below with first | ⟨kept,under,last⟩
  · refine ⟨[],rest,top,(insert_first first).trans joined,starts,follows,?_,upper⟩
    rw [first]
    exact .inr ⟨nofun,rfl,start⟩
  · have leads := returns.leads_last last
    rw [joined] at leads
    obtain ⟨bottom,behind,lowered,low,⟨other,parts,meets,ends⟩ | ⟨apart,all,same⟩⟩ := leads.join_cases
    · obtain ⟨rfl,rfl⟩ := List.cons.inj parts
      refine ⟨kept,rest,bottom,?_,starts,follows,.inl ⟨under,last,?_,low⟩,?_⟩
      · rw [insert_behind last,joined,lowered]
      · rw [← meets,start]
      · rwa [ends]
    · refine ⟨kept ++ [under],rest,top,?_,starts,follows,.inr ⟨?_,last.symm,start⟩,upper⟩
      · rw [insert_behind last,joined,lowered,all,same,List.append_assoc]
        rfl
      · rw [last,List.getLast?_concat]
        rintro _ ⟨⟩ meets
        exact apart top rfl (start.trans meets.symm)

end Returns

end FreeList

namespace Valid

variable (valid : Valid free ledger) (parts : ledger.grants = front ++ grant :: back)

include valid parts

-- Free and reserved bytes add up to the arena before and after.
theorem give_bytes : (ledger.state.changed ledger.state.heap.arena
      (.give grant.block free)).freeBytes.toNat =
    ledger.state.freeBytes.toNat + grant.block.size.toNat := by
  have before := valid.total
  have given := valid.give parts
  have after := given.total
  rw [parts] at before
  simp only [List.map_append,List.map_cons,List.sum_append,List.sum_cons] at before after
  rw [given.toNat_freeBytes,valid.toNat_freeBytes]
  change _ = _ + grant.header.size.toNat
  change _ = ledger.state.heap.arena.length.toNat at after
  omega

theorem give_elsewhere (outside : ∀ start ∈ grant.block.lower ::
      (FreeList.gap grant.block free).below.getLast?.toList.map Block.lower,
        address.toNat < start ∨ start + 16 ≤ address.toNat) :
    (ledger.state.changed ledger.state.heap.arena (.give grant.block free)).memory.read address =
      ledger.state.memory.read address := by
  have returns := valid.returns parts
  refine Memory.read_apply_elsewhere ?_ ?_
  · intro edit member
    obtain ⟨other,inside,_,high⟩ := returns.within edit member
    have bounded := (returns.whole other inside).bounded
    omega
  · intro start member
    change start ∈ (FreeList.insertEdits grant.block free).map Edit.address at member
    rw [FreeList.insertEdits_addresses] at member
    refine outside start.toNat ?_
    rcases List.mem_cons.mp member with rfl | lower
    · exact List.mem_cons_self
    · obtain ⟨under,last,rfl⟩ := List.mem_map.mp lower
      exact List.mem_cons_of_mem _ (List.mem_map_of_mem last)

theorem returned : ∃ below above kept rest merged, grant.block.Returned below above kept rest merged
    ledger.state (ledger.state.changed ledger.state.heap.arena (.give grant.block free)) := by
  have returns := valid.returns parts
  obtain ⟨kept,rest,merged,inserted,rejoins⟩ := returns.insert_rejoins
  refine ⟨_,_,kept,rest,merged,?_,rejoins,?_,valid.give_bytes parts,rfl,?_⟩
  · rw [valid.freeBlocks]
    exact (FreeList.gap_parts grant.block free).symm
  · rw [← inserted]
    exact (valid.give parts).freeBlocks
  · exact fun _ => valid.give_elsewhere parts

end Valid

-- All that giving back an allocation changes, wherever in the list it comes to lie. To give back
-- nothing changes nothing.
theorem Reached.block_returned (reached : Reached build ledger) :
    (∀ payload, ledger.Owns payload → ∃ after,
      ledger.state.release build (some payload) = ⟨.ok (),after,[]⟩ ∧
      ∃ below above kept rest merged, (ledger.state.reservation payload).Returned below above kept
        rest merged ledger.state after) ∧
      ∀ state : State, state.release build none = ⟨.ok (),state,[]⟩ := by
  refine ⟨?_,fun _ => rfl⟩
  rintro _ ⟨grant,member,rfl⟩
  obtain ⟨front,back,parts⟩ := List.append_of_mem member
  refine ⟨_,reached.valid.release_eq build member,?_⟩
  rw [reached.valid.reservation member]
  exact reached.valid.returned parts

-- A block that touches free ones on both sides.
theorem exercised_return :
    let ledger := Ledger.exercised.after .plain ⟨.release (some 0x10060),0⟩
    ∃ after below above kept rest merged, Block.Returned ⟨0x10080,64⟩ below above kept rest merged
      ledger.state after ∧ kept ++ merged :: rest = [⟨0x10010,240⟩] := by
  intro ledger
  have reached : Reached .plain ledger := Reached.exercised.step (by decide +kernel)
  have owns : ledger.Owns 0x10090 := by decide +kernel
  obtain ⟨after,outcome,below,above,kept,rest,merged,returned⟩ :=
    (Reached.block_returned reached).1 0x10090 owns
  have reserved : ledger.state.reservation 0x10090 = ⟨0x10080,64⟩ := by decide +kernel
  have blocks : (ledger.state.release .plain (some 0x10090)).state.freeBlocks = [⟨0x10010,240⟩] := by
    decide +kernel
  rw [reserved] at returned
  rw [outcome] at blocks
  exact ⟨after,below,above,kept,rest,merged,returned,returned.blocks.symm.trans blocks⟩

end FreeListHeap
