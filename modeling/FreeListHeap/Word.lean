namespace FreeListHeap

-- Addresses and byte counts are 64-bit words. Plain sums and differences wrap, while `Word.add?`
-- and `Word.roundUp?` compute without bound and refuse a result that no word can hold.
abbrev Word := UInt64
abbrev Address := Word

namespace Word

def ofNat? (n : Nat) : Option Word :=
  if n < UInt64.size then some (UInt64.ofNat n) else none

def add? (left right : Word) : Option Word :=
  ofNat? (left.toNat + right.toNat)

-- The least multiple of `unit` that is not below `n`.
def rounded (n unit : Nat) : Nat :=
  (n + unit - 1) / unit * unit

def roundUp? (word unit : Word) : Option Word :=
  ofNat? (rounded word.toNat unit.toNat)

-- The greatest multiple of `unit` that is not above `word`.
def roundDown (word unit : Word) : Word :=
  word / unit * unit

def decimal (word : Word) : String :=
  String.ofList (Nat.toDigits 10 word.toNat)

-- Lower case, no leading zeros, and `0x0` for zero.
def hex (word : Word) : String :=
  "0x" ++ String.ofList (Nat.toDigits 16 word.toNat)

theorem ofNat?_some {n : Nat} {word : Word} : ofNat? n = some word ↔ word.toNat = n := by
  unfold ofNat?
  split
  · rename_i fits
    rw [Option.some.injEq,← UInt64.toNat_inj,UInt64.toNat_ofNat']
    rw [Nat.mod_eq_of_lt fits]
    exact eq_comm
  · rename_i exceeds
    refine ⟨nofun,fun same => ?_⟩
    exact absurd (same ▸ word.toNat_lt) exceeds

theorem ofNat?_none {n : Nat} : ofNat? n = none ↔ UInt64.size ≤ n := by
  unfold ofNat?
  split <;> simp <;> omega

theorem add?_some {left right sum : Word} :
    add? left right = some sum ↔ sum.toNat = left.toNat + right.toNat :=
  ofNat?_some

theorem dvd_rounded (n unit : Nat) : unit ∣ rounded n unit :=
  ⟨_,Nat.mul_comm _ _⟩

theorem le_rounded (n : Nat) {unit : Nat} (positive : 0 < unit) : n ≤ rounded n unit := by
  have split := Nat.div_add_mod (n + unit - 1) unit
  have small := Nat.mod_lt (n + unit - 1) positive
  rw [Nat.mul_comm] at split
  unfold rounded
  omega

theorem rounded_le {n unit m : Nat} (positive : 0 < unit) (multiple : unit ∣ m) (above : n ≤ m) :
    rounded n unit ≤ m := by
  obtain ⟨k,rfl⟩ := multiple
  rw [rounded,Nat.mul_comm]
  refine Nat.mul_le_mul_left _ (Nat.le_of_lt_succ ((Nat.div_lt_iff_lt_mul positive).mpr ?_))
  rw [Nat.succ_mul,Nat.mul_comm]
  omega

theorem rounded_multiple {n unit : Nat} (positive : 0 < unit) (multiple : unit ∣ n) :
    rounded n unit = n :=
  Nat.le_antisymm (rounded_le positive multiple (Nat.le_refl n)) (le_rounded n positive)

theorem roundUp?_some {word unit up : Word} :
    roundUp? word unit = some up ↔ up.toNat = rounded word.toNat unit.toNat :=
  ofNat?_some

theorem roundUp?_none {word unit : Word} :
    roundUp? word unit = none ↔ UInt64.size ≤ rounded word.toNat unit.toNat :=
  ofNat?_none

theorem toNat_roundDown (word unit : Word) :
    (roundDown word unit).toNat = word.toNat / unit.toNat * unit.toNat := by
  rw [roundDown,UInt64.toNat_mul,UInt64.toNat_div]
  exact Nat.mod_eq_of_lt (Nat.lt_of_le_of_lt (Nat.div_mul_le_self _ _) word.toNat_lt)

-- Distances from one address up to another are taken modulo the number of addresses.
theorem sub_succ (left right : Word) : left - (right + 1) = left - right - 1 := by
  rw [UInt64.sub_eq_iff_eq_add]
  grind

theorem distance_offset (address : Address) {i : Nat} (bounded : i < UInt64.size) :
    (address + UInt64.ofNat i - address).toNat = i := by
  rw [UInt64.add_comm,UInt64.add_sub_cancel,UInt64.toNat_ofNat']
  exact Nat.mod_eq_of_lt bounded

theorem distance_next {address other : Address} (apart : address ≠ other) :
    (other - address).toNat = (other - (address + 1)).toNat + 1 := by
  have positive : 1 ≤ (other - address).toNat := by
    refine Nat.one_le_iff_ne_zero.mpr fun zero => apart ?_
    have none : other - address = 0 := UInt64.toNat_inj.mp zero
    rw [UInt64.sub_eq_iff_eq_add,UInt64.zero_add] at none
    exact none.symm
  have one : 1 ≤ other - address := by
    rw [UInt64.le_iff_toNat_le,UInt64.toNat_one]
    exact positive
  rw [sub_succ,UInt64.toNat_sub_of_le _ _ one,UInt64.toNat_one]
  exact (Nat.sub_add_cancel positive).symm

theorem distance_behind (address : Address) :
    (address - (address + 1)).toNat + 1 = UInt64.size := by
  rw [sub_succ,UInt64.sub_self]
  rfl

end Word

end FreeListHeap
