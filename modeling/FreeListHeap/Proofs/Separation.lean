import FreeListHeap.Proofs.Growth
import FreeListHeap.Proofs.PathIndependence
import Mathlib.Data.List.TakeWhile

namespace FreeListHeap

variable {build : Build} {ledger : Ledger} {free blocks rest : List Block} {one two : Block}
  {memory : Memory} {head : Option Address}

namespace FreeList

-- A walk along the links in memory, which goes on for as long as it passes the blocks that it comes
-- to. It counts the nodes that it looks at.
inductive Walks (memory : Memory) (passes : Block → Bool) : Option Address → Nat → Prop where
  | ended : Walks memory passes none 0
  | stopped (meets : ¬ passes ⟨start,(memory.readNode start).size⟩) :
      Walks memory passes (some start) 1
  | passed (going : passes ⟨start,(memory.readNode start).size⟩)
      (further : Walks memory passes (memory.readNode start).next count) :
      Walks memory passes (some start) (count + 1)

-- Along a chain there is one such walk: it looks at the blocks that it passes and at the next one,
-- if there is a next one.
theorem Chain.walks_iff (chain : Chain memory head blocks) : Walks memory passes head count ↔
    count = min blocks.length ((blocks.takeWhile passes).length + 1) := by
  induction chain generalizing count with
  | nil =>
    constructor
    · rintro ⟨⟩
      rfl
    · rintro rfl
      exact .ended
  | @cons start rest _ ih =>
    by_cases going : passes ⟨start,(memory.readNode start).size⟩
    · rw [List.takeWhile_cons_of_pos going,List.length_cons,List.length_cons,
        Nat.add_min_add_right]
      constructor
      · rintro (_ | ⟨meets⟩ | ⟨_,further⟩)
        · exact absurd going meets
        · rw [ih.mp further]
      · rintro rfl
        exact .passed going (ih.mpr rfl)
    · rw [List.takeWhile_cons_of_neg going,List.length_cons,List.length_nil,
        Nat.min_eq_right (Nat.succ_le_succ (Nat.zero_le _))]
      constructor
      · rintro (_ | ⟨meets⟩ | ⟨passed,_⟩)
        · rfl
        · exact absurd passed going
      · rintro rfl
        exact .stopped going

end FreeList

theorem Placement.passed_below {placement : Placement} {request : Request}
    (found : find? request blocks = some placement) :
    blocks.takeWhile (fun block => (block.payload? request).isNone) = placement.below := by
  obtain ⟨rfl,fits,_,refused⟩ := find?_some found
  rw [List.takeWhile_append_of_pos fun block below => by rw [refused block below]; rfl,
    List.takeWhile_cons_of_neg (by rw [fits]; exact Bool.false_ne_true),List.append_nil]

-- Whatever a walk along the links of a heap looks for, it ends within so many nodes. The search for
-- a place that a request fits in is such a walk, and so is the way to where a block belongs.
structure State.WalksWithin (state : State) (bound : Nat) : Prop where
  every : ∀ passes, ∃ visited ≤ bound, ∀ count,
    FreeList.Walks state.memory passes state.heap.head count ↔ count = visited
  found : ∀ request placement, Placement.find? request state.freeBlocks = some placement →
    FreeList.Walks state.memory (fun block => (block.payload? request).isNone) state.heap.head
      (placement.below.length + 1)
  vain : ∀ request, Placement.find? request state.freeBlocks = none →
    FreeList.Walks state.memory (fun block => (block.payload? request).isNone) state.heap.head
      state.freeBlocks.length
  place : ∀ block, FreeList.Walks state.memory (fun other => other.start < block.start)
    state.heap.head
      (min state.freeBlocks.length ((FreeList.gap block state.freeBlocks).below.length + 1))

theorem FreeList.Chain.walks_within {state : State}
    (chain : Chain state.memory state.heap.head state.freeBlocks)
    (short : state.freeBlocks.length ≤ bound) : state.WalksWithin bound := by
  refine ⟨?_,?_,?_,?_⟩
  · intro passes
    exact ⟨_,Nat.le_trans (Nat.min_le_left _ _) short,fun _ => chain.walks_iff⟩
  · intro request placement found
    refine chain.walks_iff.mpr ?_
    rw [Placement.passed_below found,(Placement.find?_some found).1,List.length_append,
      List.length_cons]
    omega
  · intro request nowhere
    refine chain.walks_iff.mpr ?_
    have all : state.freeBlocks.takeWhile (fun block => (block.payload? request).isNone) =
        state.freeBlocks := by
      refine List.takeWhile_eq_self_iff.mpr fun block member => ?_
      rw [Placement.find?_none.mp nowhere block member]
      rfl
    rw [all]
    omega
  · exact fun block => chain.walks_iff.mpr rfl

namespace Ledger

-- An allocation lies between two blocks with all that it reserves.
def Separates (ledger : Ledger) (one two : Block) : Prop :=
  ∃ payload, ledger.Owns payload ∧ one.upper ≤ (ledger.state.reservation payload).lower ∧
    (ledger.state.reservation payload).upper ≤ two.lower

-- How many allocations lie behind a block.
def behind (ledger : Ledger) (block : Block) : Nat :=
  ledger.grants.countP fun grant => block.upper ≤ (ledger.state.reservation grant.payload).lower

-- The allocation between the two is behind the one and not behind the other.
theorem behind_lt (separates : ledger.Separates one two) (whole : two.Whole) :
    ledger.behind two < ledger.behind one := by
  obtain ⟨_,⟨grant,member,rfl⟩,after,before⟩ := separates
  have least := whole.least
  have size := two.upper_eq
  have extent := (ledger.state.reservation grant.payload).upper_eq
  have fewer : ∀ grants : List Grant,
      grants.countP (fun grant => two.upper ≤ (ledger.state.reservation grant.payload).lower) ≤
        grants.countP fun grant => one.upper ≤ (ledger.state.reservation grant.payload).lower := by
    intro grants
    refine List.countP_mono_left fun other _ beyond => ?_
    rw [decide_eq_true_eq] at beyond ⊢
    omega
  obtain ⟨front,back,parts⟩ := List.append_of_mem member
  rw [behind,behind,parts,List.countP_append,List.countP_append,
    List.countP_cons_of_neg (by rw [decide_eq_true_eq]; omega),
    List.countP_cons_of_pos (by rwa [decide_eq_true_eq])]
  have left := fewer front
  have right := fewer back
  omega

-- By induction on the list: every block has more allocations behind it than the next one has.
theorem length_le_behind (separated : (one :: rest).Pairwise ledger.Separates)
    (whole : ∀ block ∈ rest, block.Whole) : rest.length ≤ ledger.behind one := by
  induction rest generalizing one with
  | nil => exact Nat.zero_le _
  | cons next rest ih =>
    obtain ⟨first,later⟩ := List.pairwise_cons.mp separated
    obtain ⟨solid,others⟩ := List.forall_mem_cons.mp whole
    have fewer := behind_lt (first next List.mem_cons_self) solid
    have shorter := ih later others
    rw [List.length_cons]
    omega

end Ledger

namespace Valid

-- The address where a free block ends is reserved, if another free block comes after it. What
-- reserves it overlaps with neither of the two.
theorem separated (valid : Valid free ledger) : free.Pairwise ledger.Separates := by
  refine valid.listed.ordered.imp_of_mem fun {one two} left right below => ?_
  have bounds := valid.listed.inside one left
  have limits := valid.listed.inside two right
  have size := one.upper_eq
  have extent := two.upper_eq
  unfold Block.Below at below
  obtain ⟨payload,owns,has⟩ := valid.reserved_beside left (n := one.upper) (by omega) (by omega)
    (.inr rfl)
  refine ⟨payload,owns,?_⟩
  obtain ⟨grant,member,rfl⟩ := owns
  rw [valid.reservation member] at has ⊢
  have before := valid.apart member one left
  have behind := valid.apart member two right
  unfold Block.Has at has
  unfold Block.Apart at before behind
  omega

theorem length_free (valid : Valid free ledger) : free.length ≤ ledger.grants.length + 1 := by
  have separated := valid.separated
  have whole := valid.listed.whole
  cases free with
  | nil => exact Nat.zero_le _
  | cons one rest =>
    have shorter := Ledger.length_le_behind separated fun block member =>
      whole block (List.mem_cons_of_mem _ member)
    exact Nat.succ_le_succ (Nat.le_trans shorter List.countP_le_length)

end Valid

-- There is at most one free block more than there are allocations out, so that no walk along the
-- links looks at more nodes than that. Between any two free blocks lies an allocation, and with
-- none out the arena is one block.
theorem Reached.blocks_separated (reached : Reached build ledger) :
    (ledger.grants.map (·.payload)).Nodup ∧
      ledger.state.freeBlocks.length ≤ ledger.grants.length + 1 ∧
      ledger.state.WalksWithin (ledger.grants.length + 1) ∧
      ledger.state.freeBlocks.Pairwise ledger.Separates ∧
      (¬ ledger.state.heap.arena.isEmpty → (∀ payload, ¬ ledger.Owns payload) →
        ledger.state.freeBlocks =
          [⟨ledger.state.heap.arena.start,ledger.state.heap.arena.length⟩]) := by
  have valid := reached.valid
  refine ⟨List.pairwise_map.mpr valid.distinct,valid.length_free,
    valid.chain.walks_within valid.length_free,valid.separated,?_⟩
  exact fun managing nobody => (valid.vacated build managing nobody).1

-- One allocation between two free blocks, so that there cannot be more of these. A walk that passes
-- both ends behind the second.
theorem exercised_separation :
    let ledger := Ledger.exercised.after .plain ⟨.release (some 0x10090),0⟩
    ledger.state.freeBlocks = [⟨0x10010,48⟩,⟨0x10080,128⟩] ∧ ledger.grants.length + 1 = 2 ∧
      ledger.Separates ⟨0x10010,48⟩ ⟨0x10080,128⟩ ∧
      FreeList.Walks ledger.state.memory (fun other => other.start < 0x10100)
        ledger.state.heap.head 2 := by
  intro ledger
  have reached : Reached .plain ledger := Reached.exercised.step (by decide +kernel)
  have blocks : ledger.state.freeBlocks = [⟨0x10010,48⟩,⟨0x10080,128⟩] := by decide +kernel
  obtain ⟨_,_,walks,separated,_⟩ := Reached.blocks_separated reached
  have place := walks.place ⟨0x10100,0⟩
  rw [blocks] at separated place
  exact ⟨blocks,by decide +kernel,List.rel_of_pairwise_cons separated List.mem_cons_self,place⟩

end FreeListHeap
