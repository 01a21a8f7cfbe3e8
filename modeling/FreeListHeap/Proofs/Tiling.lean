import FreeListHeap.Proofs.Extent
import Mathlib.Algebra.GroupWithZero.Nat
import Mathlib.Data.List.Pairwise
import Mathlib.Order.Interval.Finset.Nat

namespace FreeListHeap

instance : Std.Symm Block.Apart := ⟨fun _ _ => Block.Apart.symm⟩

-- Blocks that share out a range of addresses: every address of the range lies in one of them, and
-- in no other.
structure Tiles (lower upper : Nat) (blocks : List Block) : Prop where
  inside : ∀ block ∈ blocks, lower ≤ block.lower ∧ block.upper ≤ upper
  apart : blocks.Pairwise Block.Apart
  covers : ∀ n, lower ≤ n → n < upper → ∃ block ∈ blocks, block.Has n

namespace Tiles

variable {blocks free taken : List Block}

theorem nil (bound : Nat) : Tiles bound bound [] := by
  refine ⟨nofun,.nil,?_⟩
  intro n low high
  omega

theorem cons {block : Block} (tiles : Tiles middle upper blocks) (start : block.lower = lower)
    (stop : block.upper = middle) (fits : middle ≤ upper) : Tiles lower upper (block :: blocks) := by
  have size := block.upper_eq
  refine ⟨?_,List.pairwise_cons.mpr ⟨?_,tiles.apart⟩,?_⟩
  · intro other member
    rcases List.mem_cons.mp member with rfl | later
    · omega
    · have bounds := tiles.inside other later
      omega
  · intro other later
    have bounds := tiles.inside other later
    exact .inl (by omega)
  · intro n low high
    by_cases near : n < middle
    · exact ⟨block,List.mem_cons_self,by unfold Block.Has; omega⟩
    · obtain ⟨other,later,has⟩ := tiles.covers n (by omega) high
      exact ⟨other,List.mem_cons_of_mem _ later,has⟩

theorem perm (tiles : Tiles lower upper blocks) (same : blocks.Perm others) :
    Tiles lower upper others := by
  refine ⟨?_,tiles.apart.perm same Block.Apart.symm,?_⟩
  · intro block member
    exact tiles.inside block (same.mem_iff.mpr member)
  · intro n low high
    obtain ⟨block,member,has⟩ := tiles.covers n low high
    exact ⟨block,same.mem_iff.mp member,has⟩

theorem split (tiles : Tiles lower upper (block :: rest))
    (parts : Tiles block.lower block.upper pieces) : Tiles lower upper (pieces ++ rest) := by
  have bounds := tiles.inside block List.mem_cons_self
  obtain ⟨front,later⟩ := List.pairwise_cons.mp tiles.apart
  refine ⟨?_,List.pairwise_append.mpr ⟨parts.apart,later,?_⟩,?_⟩
  · intro piece member
    rcases List.mem_append.mp member with inner | outer
    · have narrow := parts.inside piece inner
      omega
    · exact tiles.inside piece (List.mem_cons_of_mem _ outer)
  · intro piece inner other outer
    have narrow := parts.inside piece inner
    rcases front other outer with before | behind
    · exact .inl (by omega)
    · exact .inr (by omega)
  · intro n low high
    obtain ⟨found,member,has⟩ := tiles.covers n low high
    rcases List.mem_cons.mp member with rfl | outer
    · obtain ⟨piece,inner,within⟩ := parts.covers n has.1 has.2
      exact ⟨piece,List.mem_append_left _ inner,within⟩
    · exact ⟨found,List.mem_append_right _ outer,has⟩

-- Two tiles that touch become one. Blocks without a byte have to be ruled out, for one of them
-- could lie where the two touch.
theorem merge (tiles : Tiles lower upper (one :: two :: rest)) (touch : one.upper = two.lower)
    (solid : ∀ block ∈ rest, block.Whole) (start : joined.lower = one.lower)
    (stop : joined.upper = two.upper) : Tiles lower upper (joined :: rest) := by
  have left := tiles.inside one List.mem_cons_self
  have right := tiles.inside two (List.mem_cons_of_mem _ List.mem_cons_self)
  obtain ⟨first,later⟩ := List.pairwise_cons.mp tiles.apart
  obtain ⟨second,last⟩ := List.pairwise_cons.mp later
  refine ⟨?_,List.pairwise_cons.mpr ⟨?_,last⟩,?_⟩
  · intro block member
    rcases List.mem_cons.mp member with rfl | outer
    · omega
    · exact tiles.inside block (List.mem_cons_of_mem _ (List.mem_cons_of_mem _ outer))
  · intro other outer
    have least := (solid other outer).least
    have size := other.upper_eq
    rcases first other (List.mem_cons_of_mem _ outer) with beyond | behind
    · rcases second other outer with before | between
      · exact .inl (by omega)
      · omega
    · exact .inr (by omega)
  · intro n low high
    obtain ⟨found,member,has⟩ := tiles.covers n low high
    have near : one.Has n ∨ two.Has n → joined.Has n := by
      have one' := one.upper_eq
      have two' := two.upper_eq
      unfold Block.Has
      omega
    rcases List.mem_cons.mp member with rfl | member
    · exact ⟨joined,List.mem_cons_self,near (.inl has)⟩
    · rcases List.mem_cons.mp member with rfl | outer
      · exact ⟨joined,List.mem_cons_self,near (.inr has)⟩
      · exact ⟨found,List.mem_cons_of_mem _ outer,has⟩

theorem card_covered (apart : blocks.Pairwise Block.Apart) (range : Finset Nat)
    (exactly : ∀ n, n ∈ range ↔ ∃ block ∈ blocks, block.Has n) :
    range.card = (blocks.map (·.size.toNat)).sum := by
  induction blocks generalizing range with
  | nil =>
    have none : range = ∅ := Finset.eq_empty_of_forall_notMem fun n member => by
      simpa using (exactly n).mp member
    simp [none]
  | cons block rest ih =>
    obtain ⟨front,later⟩ := List.pairwise_cons.mp apart
    have part : Finset.Ico block.lower block.upper ⊆ range := by
      intro n member
      exact (exactly n).mpr ⟨block,List.mem_cons_self,Finset.mem_Ico.mp member⟩
    have others := ih later (range \ Finset.Ico block.lower block.upper) (by
      intro n
      rw [Finset.mem_sdiff,exactly n,Finset.mem_Ico]
      constructor
      · rintro ⟨⟨found,member,has⟩,outside⟩
        rcases List.mem_cons.mp member with rfl | outer
        · exact absurd has outside
        · exact ⟨found,outer,has⟩
      · rintro ⟨found,outer,has⟩
        refine ⟨⟨found,List.mem_cons_of_mem _ outer,has⟩,?_⟩
        exact (front found outer).symm.not_both has)
    have size := block.upper_eq
    rw [← Finset.card_sdiff_add_card_eq_card part,others,Nat.card_Ico,List.map_cons,List.sum_cons]
    omega

-- No address is counted twice and none is left out.
theorem total (tiles : Tiles lower upper blocks) :
    (blocks.map (·.size.toNat)).sum = upper - lower := by
  rw [← Nat.card_Ico]
  refine (card_covered tiles.apart _ ?_).symm
  intro n
  rw [Finset.mem_Ico]
  constructor
  · rintro ⟨low,high⟩
    exact tiles.covers n low high
  · rintro ⟨block,member,has⟩
    have bounds := tiles.inside block member
    exact ⟨Nat.le_trans bounds.1 has.1,Nat.lt_of_lt_of_le has.2 bounds.2⟩

theorem separate (ordered : free.Pairwise Block.Below) (left : one ∈ free) (right : two ∈ free)
    (differ : one ≠ two) : one.Below two ∨ two.Below one := by
  have either : free.Pairwise fun one two => one.Below two ∨ two.Below one := ordered.imp .inl
  have : Std.Symm fun one two : Block => one.Below two ∨ two.Below one := ⟨fun _ _ => Or.symm⟩
  exact either.forall left right differ

-- Whatever meets none of the reserved tiles lies within a single one of the others, provided that
-- no two of these touch.
theorem within (tiles : Tiles lower upper (free ++ taken)) (ordered : free.Pairwise Block.Below)
    (some : start < stop) (low : lower ≤ start) (high : stop ≤ upper)
    (clear : ∀ block ∈ taken, ∀ n, start ≤ n → n < stop → ¬ block.Has n) :
    ∃ block ∈ free, block.lower ≤ start ∧ stop ≤ block.upper := by
  have unreserved : ∀ n, start ≤ n → n < stop → ∃ block ∈ free, block.Has n := by
    intro n after before
    obtain ⟨block,member,has⟩ := tiles.covers n (by omega) (by omega)
    rcases List.mem_append.mp member with inner | outer
    · exact ⟨block,inner,has⟩
    · exact absurd has (clear block outer n after before)
  obtain ⟨block,member,has⟩ := unreserved start (Nat.le_refl _) some
  refine ⟨block,member,has.1,?_⟩
  by_contra short
  obtain ⟨next,follows,reaches⟩ := unreserved block.upper (Nat.le_of_lt has.2) (by omega)
  have differ : block ≠ next := by
    rintro rfl
    exact Nat.lt_irrefl _ reaches.2
  obtain ⟨starts,stops⟩ := reaches
  obtain ⟨begins,ends⟩ := has
  rcases separate ordered member follows differ with below | above
  · unfold Block.Below at below
    omega
  · unfold Block.Below at above
    omega

end Tiles

end FreeListHeap
