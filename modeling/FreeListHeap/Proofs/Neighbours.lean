import FreeListHeap.Proofs.Lockstep

namespace FreeListHeap

variable {build : Build} {ledger other shared alone : Ledger} {free others : List Block} {action : Action}
  {given arena : Span} {own foreign : Nat → Prop} {memory : Memory}
  {payload address : Address}

-- What the range hands over as an arena lies inside the range.
theorem Span.arena?_inside (taken : given.arena? = .ok arena) (has : arena.Has n) : given.Has n := by
  obtain ⟨start,stop⟩ := (Span.arena?_trims taken).1.inside
  rw [UInt64.le_iff_toNat_le] at start stop
  exact ⟨Nat.le_trans start has.1,Nat.lt_of_lt_of_le has.2 stop⟩

-- What a call hands over to a heap.
def Call.Gives (call : Call) (n : Nat) : Prop :=
  match call with
  | .adopt given => given.Has n
  | _ => False

-- Two outcomes that do not differ in anything but in bytes outside of the arena.
structure Outcome.SameInside (arena : Span) (one two : Outcome Value) : Prop where
  result : one.result = two.result
  heap : one.state.heap = two.state.heap
  log : one.log = two.log
  agree : Memory.AgreeOn (arena.Has ·.toNat) one.state.memory two.state.memory

namespace Valid

-- Nothing outside of its arena matters to a heap.
theorem congr (valid : Valid free ledger) (agree : ∀ address : Address,
    ledger.state.heap.arena.Has address.toNat →
      memory.read address = ledger.state.memory.read address) :
    Valid free ⟨⟨ledger.state.heap,memory⟩,ledger.grants⟩ := by
  have within : ∀ block ∈ free ++ ledger.grants.map Grant.block, ∀ address : Address,
      block.Has address.toNat → memory.read address = ledger.state.memory.read address := by
    intro block member address has
    have bounds := valid.tiles.inside block member
    exact agree address ⟨Nat.le_trans bounds.1 has.1,Nat.lt_of_lt_of_le has.2 bounds.2⟩
  refine ⟨valid.arena,valid.chain.congr ?_,valid.listed,valid.sound,valid.tiles,?_⟩
  · intro block member
    refine ((valid.listed.whole block member).readNode_congr ?_).symm
    exact within block (List.mem_append_left _ member)
  · intro grant member
    refine (valid.intact grant member).congr (valid.sound grant member) ?_
    exact within _ (List.mem_append_right _ (List.mem_map_of_mem member))

-- An action touches no byte outside of the arena.
theorem after_outside (valid : Valid free ledger) (build : Build) (allowed : ledger.Allowed action)
    (outside : ¬ (ledger.after build action).state.heap.arena.Has address.toNat) :
    (ledger.after build action).state.memory.read address = ledger.state.memory.read address := by
  rcases valid.stays_or_follows build allowed with stays | ⟨plan,planned,follows⟩
  · rw [stays]
  · rw [follows.state] at outside ⊢
    refine Memory.read_carryOut_outside fun store member writes => outside ?_
    exact planned.holds store member address (.inl writes)

theorem after_inside (valid : Valid free ledger) (build : Build) (allowed : ledger.Allowed action)
    (inside : ∀ n, ledger.state.heap.arena.Has n → own n)
    (gives : ∀ n, action.call.Gives n → own n) :
    ∀ n, (ledger.after build action).state.heap.arena.Has n → own n := by
  rcases valid.stays_or_follows build allowed with stays | ⟨plan,planned,follows⟩
  · rwa [stays]
  · rw [follows.state]
    rcases planned.arena with same | ⟨_,given,call,taken⟩
    · rwa [same]
    · rw [call] at gives
      exact fun n has => gives n (Span.arena?_inside taken has)

-- Bytes of an allocation are loaded alike from memories that hold the same in the arena.
theorem same_bytes (valid : Valid free ledger) (covers : ledger.Covers payload address count)
    (agree : ∀ address : Address, ledger.state.heap.arena.Has address.toNat →
      ledger.state.memory.read address = memory.read address) :
    ledger.state.memory.readBytes address count = memory.readBytes address count := by
  refine Memory.readBytes_congr fun i inside => agree _ (valid.covers_inside covers ?_)
  have limit : i < UInt64.size := by
    obtain ⟨⟨owner,owned,rfl⟩,range⟩ := covers
    have bounds := range i inside
    rw [valid.reservation owned] at bounds
    have bounded := (valid.sound owner owned).whole.bounded
    omega
  rwa [Word.distance_offset _ limit]

-- An action comes to the same over any two memories that hold the same bytes in the arena.
theorem same_inside (valid : Valid free ledger) (twin : Valid others other)
    (alike : ledger.Alike other) (build : Build) (allowed : ledger.Allowed action)
    (agree : Memory.AgreeOn (ledger.state.heap.arena.Has ·.toNat) ledger.state.memory
      other.state.memory) :
    (ledger.state.perform build action.call).SameInside ledger.state.heap.arena
      (other.state.perform build action.call) := by
  have heap := valid.same_heap twin alike
  cases valid.same_free twin alike
  rcases valid.planned_cases build allowed with ⟨rfl,misaligned⟩ | ⟨_,_,loads⟩ | ⟨plan,planned⟩
  · obtain ⟨size,align,call,there⟩ := ledger.state.perform_misaligned misaligned
    obtain ⟨_,_,same,here⟩ := other.state.perform_misaligned misaligned
    cases call.symm.trans same
    rw [there,here]
    exact ⟨rfl,heap,rfl,agree⟩
  · obtain ⟨call,through⟩ := action
    cases loads
    obtain ⟨grant,_,covers⟩ := allowed
    have bytes := valid.same_bytes covers agree
    exact ⟨congrArg (fun bytes => Except.ok (Answer.bytes bytes)) bytes,heap,rfl,agree⟩
  · rw [(planned.follows ledger valid ⟨rfl,rfl⟩).performs,(planned.follows other twin alike).performs]
    refine ⟨rfl,rfl,rfl,?_⟩
    rcases planned.arena with same | ⟨vacant,_⟩
    · refine agree.carryOut fun store member address reads => ?_
      rw [← same]
      exact planned.holds store member address (.inr reads)
    · intro address has
      have backward := Span.isEmpty_iff.mp vacant
      exact absurd (Nat.lt_of_le_of_lt has.1 has.2) (Nat.not_lt.mpr backward)

end Valid

-- A heap in a memory that others write to, and the same heap alone in a memory. The two memories
-- differ at most where the others write, and that is not where the arena is.
structure Ledger.Mirrors (own foreign : Nat → Prop) (shared alone : Ledger) : Prop where
  valid : ∃ free, Valid free shared
  lone : ∃ free, Valid free alone
  alike : shared.Alike alone
  agree : Memory.AgreeOn (¬ foreign ·.toNat) shared.state.memory alone.state.memory
  inside : ∀ n, shared.state.heap.arena.Has n → own n

namespace Ledger.Mirrors

variable (mirrors : shared.Mirrors own foreign alone) (apart : ∀ n, own n → ¬ foreign n)

include mirrors apart

-- What the others write.
theorem beside (same : ∀ address : Address, ¬ foreign address.toNat →
      memory.read address = shared.state.memory.read address) :
    Mirrors own foreign ⟨⟨shared.state.heap,memory⟩,shared.grants⟩ alone := by
  obtain ⟨⟨free,valid⟩,lone,alike,agree,inside⟩ := mirrors
  have later : Valid free ⟨⟨shared.state.heap,memory⟩,shared.grants⟩ :=
    valid.congr fun address has => same address (apart _ (inside _ has))
  refine ⟨⟨free,later⟩,lone,⟨alike.arena,?_⟩,?_,inside⟩
  · rw [← alike.live,later.live_eq,valid.live_eq]
  · exact fun address clear => (same address clear).trans (agree address clear)

variable (build : Build) (allowed : shared.Allowed action)

include allowed

theorem same_outcome : (shared.state.perform build action.call).SameInside
    shared.state.heap.arena (alone.state.perform build action.call) := by
  obtain ⟨⟨_,valid⟩,⟨_,lone⟩,alike,agree,inside⟩ := mirrors
  refine valid.same_inside lone alike build allowed fun address has => ?_
  exact agree address (apart _ (inside _ has))

theorem same_report : shared.report build action = alone.report build action := by
  obtain ⟨results,_,logs,_⟩ := mirrors.same_outcome apart build allowed
  obtain ⟨⟨_,valid⟩,⟨_,lone⟩,alike,_,_⟩ := mirrors
  have permits := alike.allowed allowed
  have later := (valid.tally build lone alike (.same action) allowed).alike
  obtain ⟨_,next⟩ := valid.after build allowed
  obtain ⟨_,follower⟩ := lone.after build permits
  obtain ⟨blocks,bytes⟩ := next.same_blocks follower later
  rw [after_state,after_state] at blocks bytes
  simp only [report,Outcome.report,Session.report,results,logs,blocks,bytes]

theorem after (gives : ∀ n, action.call.Gives n → own n) :
    Mirrors own foreign (shared.after build action) (alone.after build action) := by
  obtain ⟨⟨free,valid⟩,⟨_,lone⟩,alike,agree,inside⟩ := mirrors
  have permits := alike.allowed allowed
  have within := valid.after_inside build allowed inside gives
  refine ⟨valid.after build allowed,lone.after build permits,
    (valid.tally build lone alike (.same action) allowed).alike,?_,within⟩
  cases valid.same_free lone alike
  rcases valid.planned_cases build allowed with ⟨rfl,misaligned⟩ | ⟨_,_,loads⟩ | ⟨plan,planned⟩
  · rwa [shared.after_misaligned misaligned,alone.after_misaligned misaligned]
  · obtain ⟨call,through⟩ := action
    cases loads
    exact agree
  · have follows := planned.follows shared valid ⟨rfl,rfl⟩
    rw [follows.state] at within ⊢
    rw [(planned.follows alone lone alike).state]
    refine agree.carryOut fun store member address reads => apart _ (within _ ?_)
    exact planned.holds store member address (.inr reads)

end Ledger.Mirrors

end FreeListHeap
