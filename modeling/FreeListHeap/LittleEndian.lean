namespace FreeListHeap.LittleEndian

-- The `count` low bytes of a number, the lowest first.
def encode : (count : Nat) → (n : Nat) → List UInt8
  | 0,_ => []
  | count + 1,n => UInt8.ofNat n :: encode count (n / 256)

def decode : List UInt8 → Nat
  | [] => 0
  | byte :: rest => byte.toNat + 256 * decode rest

-- How many numbers there are that `count` bytes can hold.
def capacity : (count : Nat) → Nat
  | 0 => 1
  | count + 1 => 256 * capacity count

theorem length_encode (count n : Nat) : (encode count n).length = count := by
  induction count generalizing n with
  | zero => rfl
  | succ count ih => simp [encode,ih]

theorem decode_encode (fits : n < capacity count) : decode (encode count n) = n := by
  induction count generalizing n with
  | zero => exact (Nat.lt_one_iff.mp fits).symm
  | succ count ih =>
    have rest : n / 256 < capacity count := Nat.div_lt_of_lt_mul fits
    simp only [encode,decode,ih rest,UInt8.toNat_ofNat']
    omega

end FreeListHeap.LittleEndian
