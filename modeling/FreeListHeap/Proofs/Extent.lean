import FreeListHeap.Block

namespace FreeListHeap

namespace Word

theorem toNat_add {left right : Word} (fits : left.toNat + right.toNat < UInt64.size) :
    (left + right).toNat = left.toNat + right.toNat := by
  rw [UInt64.toNat_add]
  exact Nat.mod_eq_of_lt fits

theorem toNat_sub {left right : Word} (above : right.toNat ≤ left.toNat) :
    (left - right).toNat = left.toNat - right.toNat :=
  UInt64.toNat_sub_of_le _ _ (UInt64.le_iff_toNat_le.mpr above)

theorem toNat_offset {address : Address} {i : Nat} (fits : address.toNat + i < UInt64.size) :
    (address + UInt64.ofNat i).toNat = address.toNat + i := by
  have small : (UInt64.ofNat i).toNat = i :=
    Nat.mod_eq_of_lt (Nat.lt_of_le_of_lt (Nat.le_add_left _ _) fits)
  rw [toNat_add (by rwa [small]),small]

-- An address that lies between two bounds without wrapping is at no small distance from either.
theorem distance_outside {address other : Address} {count : Nat}
    (fits : address.toNat + count ≤ UInt64.size)
    (outside : other.toNat < address.toNat ∨ address.toNat + count ≤ other.toNat) :
    count ≤ (other - address).toNat := by
  have bounded : other.toNat < UInt64.size := other.toNat_lt
  rw [UInt64.toNat_sub]
  change count ≤ (UInt64.size - address.toNat + other.toNat) % UInt64.size
  rcases outside with before | behind
  · rw [Nat.mod_eq_of_lt (by omega)]
    omega
  · have wrapped : UInt64.size - address.toNat + other.toNat =
        other.toNat - address.toNat + UInt64.size := by omega
    rw [wrapped,Nat.add_mod_right,Nat.mod_eq_of_lt (by omega)]
    omega

end Word

theorem toNat_granule : granule.toNat = 16 := rfl
theorem toNat_headerSize : headerSize.toNat = 16 := rfl
theorem toNat_minBlockSize : minBlockSize.toNat = 32 := rfl

theorem Span.isEmpty_iff {span : Span} : span.isEmpty ↔ span.stop.toNat ≤ span.start.toNat := by
  rw [isEmpty,decide_eq_true_iff,UInt64.le_iff_toNat_le]

namespace Block

-- A block as a set of addresses. These bounds are counted without end, so that a block which
-- reaches over the last address is not taken for one that goes on at zero.
def lower (block : Block) : Nat :=
  block.start.toNat

def upper (block : Block) : Nat :=
  block.start.toNat + block.size.toNat

def Has (block : Block) (n : Nat) : Prop :=
  block.lower ≤ n ∧ n < block.upper

def Apart (one two : Block) : Prop :=
  one.upper ≤ two.lower ∨ two.upper ≤ one.lower

-- One block ends strictly below the other, so that they do not even touch.
def Below (one two : Block) : Prop :=
  one.upper < two.lower

-- What free blocks and reservations have in common.
structure Whole (block : Block) : Prop where
  aligned : 16 ∣ block.lower
  granular : 16 ∣ block.size.toNat
  least : 32 ≤ block.size.toNat
  bounded : block.upper < UInt64.size

theorem upper_eq (block : Block) : block.upper = block.lower + block.size.toNat := rfl

theorem Apart.symm (apart : Apart one two) : Apart two one :=
  Or.symm apart

theorem Apart.not_both (apart : Apart one two) (left : one.Has n) : ¬ two.Has n := by
  rcases apart with before | behind
  · intro right
    have low := left.2
    have high := right.1
    omega
  · intro right
    have low := right.2
    have high := left.1
    omega

theorem Below.apart (below : Below one two) : Apart one two :=
  .inl (Nat.le_of_lt below)

theorem Whole.toNat_stop (whole : Whole block) : block.stop.toNat = block.upper :=
  Word.toNat_add whole.bounded

end Block

end FreeListHeap
