import FreeListHeap.Proofs.Builds
import FreeListHeap.Proofs.Monotone

namespace FreeListHeap

variable {build : Build} {ledger : Ledger} {free later : List Block} {grant fresh : Grant}
  {state : State} {payload old : Address} {size align : Word} {layout : Layout} {count : Nat}

-- All that moving an allocation changes. The new one is handed out while the old one is still
-- there, which brings the heap to `handed`, and the old one goes once its bytes are carried over.
structure Ledger.Moves (build : Build) (ledger after : Ledger) (handed : State)
    (old moved : Address) (count : Nat) : Prop where
  apart : (after.state.reservation moved).Apart (ledger.state.reservation old)
  carried : after.state.memory.readBytes moved count = ledger.state.memory.readBytes old count
  kept : ∀ payload, ledger.Owns payload → payload ≠ old →
    after.state.memory.readHeader payload = ledger.state.memory.readHeader payload ∧
      ∀ address : Address, (ledger.state.reservation payload).Has address.toNat →
        after.state.memory.read address = ledger.state.memory.read address
  gone : ¬ after.Owns old
  out : ∀ payload, after.Owns payload ↔ payload = moved ∨ ledger.Owns payload ∧ payload ≠ old
  reserved : handed.reservation old = ledger.state.reservation old
  released : (handed.release build (some old)).result = .ok ()
  blocks : after.state.freeBlocks = (handed.release build (some old)).state.freeBlocks

namespace Valid

theorem withdrawn_parts (valid : Valid free ledger) (member : grant ∈ ledger.grants) :
    ∃ front back, ledger.grants = front ++ grant :: back ∧
      ledger.withdrawn grant.payload = front ++ back := by
  obtain ⟨front,back,parts⟩ := List.append_of_mem member
  have distinct := valid.distinct
  rw [parts] at distinct
  have before := (List.pairwise_append.mp distinct).2.2
  refine ⟨front,back,parts,?_⟩
  rw [Ledger.withdrawn,parts,List.eraseP_append_right]
  · exact congrArg _ (List.eraseP_cons_of_pos (decide_eq_true rfl))
  · intro other member same
    exact before other member grant List.mem_cons_self (of_decide_eq_true same)

theorem owns_withdrawn (valid : Valid free ledger) :
    (Ledger.mk state (fresh :: ledger.withdrawn old)).Owns payload ↔
      payload = fresh.payload ∨ ledger.Owns payload ∧ payload ≠ old := by
  constructor
  · rintro ⟨other,out,rfl⟩
    rcases List.mem_cons.mp out with rfl | kept
    · exact .inl rfl
    · obtain ⟨granted,another⟩ := valid.mem_withdrawn_iff.mp kept
      exact .inr ⟨⟨other,granted,rfl⟩,another⟩
  · rintro (rfl | ⟨⟨other,granted,rfl⟩,another⟩)
    · exact ⟨fresh,List.mem_cons_self,rfl⟩
    · have kept := valid.mem_withdrawn_iff.mpr ⟨granted,another⟩
      exact ⟨other,List.mem_cons_of_mem _ kept,rfl⟩

section Move

-- The old allocation is `grant`, and `fresh` was just handed out for it to move to.
variable (valid : Valid free ledger) (taken : Valid later ⟨state,fresh :: ledger.grants⟩)
  (untouched : ∀ other ∈ ledger.grants, ∀ address : Address, other.block.Has address.toNat →
    state.memory.read address = ledger.state.memory.read address)
  (room : count ≤ fresh.size.toNat) (covers : ledger.Covers grant.payload grant.payload count)

include valid taken untouched room covers

-- The bytes are carried into the new allocation, and so past every other.
theorem carried_spares (granted : other ∈ ledger.grants) (has : other.block.Has address.toNat) :
    (state.memory.forward fresh.payload grant.payload count).read address =
      ledger.state.memory.read address := by
  have first : fresh ∈ fresh :: ledger.grants := List.mem_cons_self
  have range := (taken.covers first room).2
  rw [taken.reservation first,← Memory.length_readBytes ledger.state.memory grant.payload count]
    at range
  have apart := (List.pairwise_cons.mp taken.grants_apart).1 other granted
  rw [taken.carried covers valid untouched]
  refine ((taken.sound fresh first).store_clear range (apart.symm.not_both has)).trans ?_
  exact untouched other granted address has

-- What is left when the old allocation goes, by the free blocks and the bytes of the others.
theorem moved (build : Build) (member : grant ∈ ledger.grants) : ∃ final : State,
    State.release build ⟨state.heap,state.memory.forward fresh.payload grant.payload count⟩
        (some grant.payload) = ⟨.ok (),final,[]⟩ ∧
      Valid (state.release build (some grant.payload)).state.freeBlocks ⟨final,fresh.store
        fresh.payload (ledger.state.memory.readBytes grant.payload count) ::
          ledger.withdrawn grant.payload⟩ ∧
      ∀ other ∈ ledger.withdrawn grant.payload, ∀ address : Address,
        other.block.Has address.toNat →
          final.memory.read address = ledger.state.memory.read address := by
  obtain ⟨front,back,parts,rest⟩ := valid.withdrawn_parts member
  have still : ∀ first : Grant, grant ∈ first :: ledger.grants :=
    fun _ => List.mem_cons_of_mem _ member
  have split : ∀ first : Grant, first :: ledger.grants = (first :: front) ++ grant :: back :=
    fun first => congrArg _ parts
  have moved := taken.filled valid covers room untouched
  refine ⟨_,moved.release_eq build (still _),?_,?_⟩
  · rw [taken.release_eq build (still _)]
    have given := (taken.give (split fresh)).freeBlocks
    have final := moved.give (split _)
    rw [List.cons_append,← rest,← given] at final
    exact final
  · intro other kept address has
    have others : other ∈ front ++ back := by rwa [← rest]
    refine (moved.give_spares (split _) (List.mem_cons_of_mem _ others) address has).trans ?_
    exact valid.carried_spares taken untouched room covers (List.mem_of_mem_eraseP kept) has

theorem moves (build : Build) (member : grant ∈ ledger.grants) : ∃ final : State,
    State.release build ⟨state.heap,state.memory.forward fresh.payload grant.payload count⟩
        (some grant.payload) = ⟨.ok (),final,[]⟩ ∧
      ledger.Moves build ⟨final,fresh.store fresh.payload
        (ledger.state.memory.readBytes grant.payload count) :: ledger.withdrawn grant.payload⟩
          state grant.payload fresh.payload count := by
  obtain ⟨final,released,settled,spares⟩ := valid.moved taken untouched room covers build member
  have first : fresh ∈ fresh :: ledger.grants := List.mem_cons_self
  have still : grant ∈ fresh :: ledger.grants := List.mem_cons_of_mem _ member
  have reserved := settled.reservation List.mem_cons_self
  have apart := (List.pairwise_cons.mp taken.grants_apart).1 grant member
  have differ := (List.pairwise_cons.mp taken.distinct).1 grant member
  have old := valid.reservation member
  refine ⟨final,released,?_,?_,?_,?_,fun _ => valid.owns_withdrawn,?_,?_,settled.freeBlocks⟩
  · rw [old]
    exact reserved ▸ apart
  · have limit := (taken.sound fresh first).room
    have bounded := (taken.sound fresh first).whole.bounded
    have stored := (settled.intact _ List.mem_cons_self).readBytes_store (by
      rw [Memory.length_readBytes]
      omega)
    rwa [Memory.length_readBytes] at stored
  · rintro _ ⟨other,granted,rfl⟩ another
    have same := spares other (valid.mem_withdrawn_iff.mpr ⟨granted,another⟩)
    rw [valid.reservation granted]
    exact ⟨(valid.sound other granted).readHeader_congr fun address has _ => same address has,same⟩
  · intro out
    rcases valid.owns_withdrawn.mp out with same | ⟨_,another⟩
    · exact differ same.symm
    · exact another rfl
  · exact (taken.reservation still).trans old.symm
  · rw [taken.release_eq build still]

end Move

-- Nothing is to be had for no bytes at all, or from no free block.
theorem yields_needs (valid : Valid free ledger) (yields : ledger.Yields build size align payload) :
    size ≠ 0 ∧ free ≠ [] := by
  obtain ⟨request,placement,considers,_,found,_⟩ := valid.placed yields
  refine ⟨considers.sized,?_⟩
  rintro rfl
  cases found

theorem allocateLayout_ok (valid : Valid free ledger) (build : Build) (layout : Layout) :
    ∃ answer, (ledger.state.allocateAligned build layout.size layout.align).result = .ok answer := by
  have plain := valid.allocateLayout_plain build layout
  rw [Layout.allocate,Layout.allocate] at plain
  rw [plain]
  exact ledger.state.allocateAligned_ok layout.size layout.align

theorem reallocate_stays (valid : Valid free ledger) (old : Address) (through : Address)
    (nowhere : (ledger.state.allocateAligned build layout.size layout.align).result = .ok none) :
    (layout.reallocate build ledger.state old size).result = .ok none ∧
      (layout.reallocate build ledger.state old size).state = ledger.state ∧
      ledger.after build ⟨.reallocate old size layout,through⟩ = ledger := by
  obtain ⟨log,outcome⟩ := valid.refused nowhere
  have stays : layout.reallocate build ledger.state old size = ⟨.ok none,ledger.state,log⟩ := by
    simp only [Layout.reallocate,Layout.allocate,outcome]
  refine ⟨by rw [stays],by rw [stays],?_⟩
  refine Ledger.after_refused (congrArg (Outcome.map .payload) stays) ?_ rfl
  intro payload met
  cases met

theorem reallocate_moves (valid : Valid free ledger) (member : grant ∈ ledger.grants)
    (through : Address) (yields : ledger.Yields build layout.size layout.align payload) :
    (layout.reallocate build ledger.state grant.payload grant.size).result = .ok (some payload) ∧
      ledger.Moves build
        (ledger.after build ⟨.reallocate grant.payload grant.size layout,through⟩)
        (ledger.state.allocateAligned build layout.size layout.align).state grant.payload payload
        (min grant.size layout.size).toNat := by
  unfold Ledger.Yields at yields
  rcases valid.allocateAligned build layout.size layout.align with
    ⟨result,_,outcome,refusal⟩ | ⟨moved,_,state,outcome,taken,untouched⟩
  · rw [outcome] at yields
    exact absurd yields (refusal payload)
  · rw [outcome] at yields
    cases yields
    have covers := valid.covers member (Nat.le_refl _)
    obtain ⟨final,released,moves⟩ := valid.moves taken untouched
      (min_toNat grant.size layout.size).2 (covers_min covers layout.size) build member
    change State.release build ⟨_,state.memory.forward payload _ _⟩ _ = _ at released
    have moved : layout.reallocate build ledger.state grant.payload grant.size =
        ⟨.ok (some payload),final,[]⟩ := by
      simp only [Layout.reallocate,Layout.allocate,outcome,released]
      rfl
    refine ⟨by rw [moved],?_⟩
    simp only [Ledger.after,State.perform,moved,outcome]
    exact moves

end Valid

-- An allocation moves to where a request for the new layout is met while the old one is still
-- there. If none is met, nothing happens at all.
theorem Reached.moves_or_stays (reached : Reached build ledger) (member : grant ∈ ledger.grants)
    (layout : Layout) (through : Address) : ∃ answer,
      (ledger.state.allocateAligned build layout.size layout.align).result = .ok answer ∧
      (layout.reallocate build ledger.state grant.payload grant.size).result = .ok answer ∧
      (layout.size = 0 ∨ ledger.state.freeBlocks = [] → answer = none) ∧
      (answer = none →
        (layout.reallocate build ledger.state grant.payload grant.size).state = ledger.state ∧
          ledger.after build ⟨.reallocate grant.payload grant.size layout,through⟩ = ledger) ∧
      ∀ moved ∈ answer, ledger.Moves build
        (ledger.after build ⟨.reallocate grant.payload grant.size layout,through⟩)
        (ledger.state.allocateAligned build layout.size layout.align).state grant.payload moved
        (min grant.size layout.size).toNat := by
  have valid := reached.valid
  obtain ⟨answer,told⟩ := valid.allocateLayout_ok build layout
  refine ⟨answer,told,?_⟩
  cases answer with
  | none =>
    obtain ⟨refused,stays⟩ := valid.reallocate_stays grant.payload through told
    exact ⟨refused,fun _ => rfl,fun _ => stays,nofun⟩
  | some moved =>
    obtain ⟨met,moves⟩ := valid.reallocate_moves member through told
    obtain ⟨sized,somewhere⟩ := valid.yields_needs told
    refine ⟨met,?_,nofun,?_⟩
    · rintro (nothing | nowhere)
      · exact absurd nothing sized
      · exact absurd nowhere somewhere
    · rintro _ ⟨⟩
      exact moves

-- A shorter allocation moves to a lower block, and leaves its own behind.
theorem exercised_move :
    let layout : Layout := ⟨10,32,by decide +kernel,by decide⟩
    let after := Ledger.exercised.after .plain ⟨.reallocate 0x10060 20 layout,0⟩
    Ledger.exercised.Moves .plain after (Ledger.exercised.state.allocateAligned .plain 10 32).state
      0x10060 0x10020 10 ∧ after.state.freeBlocks = [⟨0x10040,64⟩,⟨0x100c0,64⟩] := by
  intro layout after
  have out : Held.mk 0x10060 20 32 ∈ Ledger.exercised.grants.map Grant.toHeld := by decide +kernel
  obtain ⟨grant,member,held⟩ := List.mem_map.mp out
  obtain ⟨answer,told,_,_,_,moves⟩ := Reached.moves_or_stays Reached.exercised member layout 0
  have placed : (Ledger.exercised.state.allocateAligned .plain 10 32).result =
      .ok (some 0x10020) := by decide +kernel
  have same : answer = some 0x10020 := Except.ok.inj (told.symm.trans placed)
  rw [held] at moves
  exact ⟨moves 0x10020 same,by decide +kernel⟩

end FreeListHeap
