import FreeListHeap.Memory
import FreeListHeap.Proofs.Extent

namespace FreeListHeap.Memory

variable {target source : Address}

theorem writeBytes_append (memory : Memory) (address : Address) (front back : List UInt8) :
    memory.writeBytes address (front ++ back) =
      (memory.writeBytes address front).writeBytes (address + UInt64.ofNat front.length) back := by
  induction front generalizing memory address with
  | nil => exact congrArg (memory.writeBytes · back) (UInt64.add_zero address).symm
  | cons byte front ih =>
    have shift : address + 1 + UInt64.ofNat front.length =
        address + UInt64.ofNat (front.length + 1) := by
      rw [Nat.add_comm,UInt64.ofNat_add,UInt64.add_assoc]
      rfl
    rw [List.cons_append,writeBytes,ih,shift]
    rfl

theorem forward_succ (memory : Memory) (target source : Address) (count : Nat) :
    memory.forward target source (count + 1) = (memory.forward target source count).write
      (target + UInt64.ofNat count)
      ((memory.forward target source count).read (source + UInt64.ofNat count)) := by
  induction count generalizing memory target source with
  | zero =>
    change memory.write target (memory.read source) =
      memory.write (target + 0) (memory.read (source + 0))
    rw [UInt64.add_zero,UInt64.add_zero]
  | succ count ih =>
    have shift : ∀ address : Address, address + 1 + UInt64.ofNat count =
        address + UInt64.ofNat (count + 1) := by
      intro address
      rw [Nat.add_comm,UInt64.ofNat_add,UInt64.add_assoc]
      rfl
    rw [forward,ih,shift,shift]
    rfl

-- What a forward copy stores. A target inside the source repeats the bytes in front of it again
-- and again; any other gets the bytes of the source one for one.
def carried (memory : Memory) (target source : Address) (count : Nat) : List UInt8 :=
  (List.range count).map fun i => memory.read (source + UInt64.ofNat (i % (target - source).toNat))

@[simp] theorem length_carried (memory : Memory) (target source : Address) (count : Nat) :
    (memory.carried target source count).length = count := by
  simp [carried]

theorem getElem?_carried (memory : Memory) (target source : Address) (inside : i < count) :
    (memory.carried target source count)[i]? =
      some (memory.read (source + UInt64.ofNat (i % (target - source).toNat))) := by
  rw [carried,List.getElem?_map,List.getElem?_range inside,Option.map_some]

-- By induction on the bytes copied so far: the next one comes from a byte of the source that is
-- as it was, or from one that this copy stored as many bytes ago as the two ranges are apart.
theorem forward_eq (memory : Memory) (target source : Address) (bounded : count ≤ UInt64.size) :
    memory.forward target source count =
      memory.writeBytes target (memory.carried target source count) := by
  induction count with
  | zero => rfl
  | succ count ih =>
    have stored := ih (by omega)
    have next : (memory.forward target source count).read (source + UInt64.ofNat count) =
        memory.read (source + UInt64.ofNat (count % (target - source).toNat)) := by
      have small : (UInt64.ofNat count).toNat = count := Nat.mod_eq_of_lt bounded
      have place : source + UInt64.ofNat count - target = UInt64.ofNat count - (target - source) := by
        grind
      rw [stored,read_writeBytes _ _ _ (by rw [length_carried]; omega),place]
      by_cases reached : (target - source).toNat ≤ count
      · rw [Word.toNat_sub (by rwa [small]),small]
        rcases Nat.eq_zero_or_pos (target - source).toNat with same | ahead
        · rw [same,Nat.mod_zero,List.getElem?_eq_none (by rw [length_carried]; omega)]
          rfl
        · rw [getElem?_carried _ _ _ (by omega),← Nat.mod_eq_sub_mod reached]
          rfl
      · have far : count ≤ (UInt64.ofNat count - (target - source)).toNat := by
          have limit := (target - source).toNat_lt
          rw [UInt64.toNat_sub,small]
          omega
        rw [List.getElem?_eq_none (by rwa [length_carried]),Nat.mod_eq_of_lt (by omega)]
        rfl
    rw [forward_succ,next,stored,carried,carried,List.range_succ,List.map_append,
      writeBytes_append,List.length_map,List.length_range]
    rfl

-- If the target does not lie inside the source, the bytes are those that the source held before.
theorem forward_apart (memory : Memory) (bounded : count ≤ UInt64.size)
    (apart : count ≤ (target - source).toNat) :
    memory.forward target source count = memory.writeBytes target (memory.readBytes source count) := by
  rw [forward_eq memory target source bounded]
  refine congrArg _ (List.map_congr_left fun i inside => ?_)
  rw [Nat.mod_eq_of_lt (Nat.lt_of_lt_of_le (List.mem_range.mp inside) apart)]

-- All that copying a range of bytes does. A target that begins inside the source, above its first
-- byte, gets the bytes in front of it over and over. Any other gets the source as it was, also one
-- that begins below the source and reaches into it.
structure Copied (before after : Memory) (target source : Address) (count : Nat) : Prop where
  outside : ∀ address : Address,
    address.toNat < target.toNat ∨ target.toNat + count ≤ address.toNat →
      after.read address = before.read address
  moved : target.toNat ≤ source.toNat ∨ source.toNat + count ≤ target.toNat → ∀ i < count,
    after.read (target + UInt64.ofNat i) = before.read (source + UInt64.ofNat i)
  repeated : source.toNat < target.toNat → target.toNat < source.toNat + count → ∀ i < count,
    after.read (target + UInt64.ofNat i) =
      before.read (source + UInt64.ofNat (i % (target.toNat - source.toNat)))

theorem read_forward_inside (memory : Memory) (target source : Address)
    (bounded : count ≤ UInt64.size) (inside : i < count) :
    (memory.forward target source count).read (target + UInt64.ofNat i) =
      memory.read (source + UInt64.ofNat (i % (target - source).toNat)) := by
  rw [forward_eq memory target source bounded,read_writeBytes _ _ _ (by rwa [length_carried]),
    Word.distance_offset target (Nat.lt_of_lt_of_le inside bounded),getElem?_carried _ _ _ inside]
  rfl

theorem read_forward_outside (memory : Memory) (source : Address)
    (fits : target.toNat + count ≤ UInt64.size)
    (outside : address.toNat < target.toNat ∨ target.toNat + count ≤ address.toNat) :
    (memory.forward target source count).read address = memory.read address := by
  have bounded : count ≤ UInt64.size := by omega
  rw [forward_eq memory target source bounded]
  refine read_writeBytes_outside (by rwa [length_carried]) ?_
  rw [length_carried]
  exact Word.distance_outside fits outside

-- Copies any range of bytes to any other, whether or not the two overlap.
theorem copy_moves_or_repeats (memory : Memory) (target source : Address) (size : Word)
    (room : target.toNat + size.toNat ≤ UInt64.size)
    (given : source.toNat + size.toNat ≤ UInt64.size) :
    (memory.copy target source size).1 = target ∧
      memory.Copied (memory.copy target source size).2 target source size.toNat := by
  have bounded : size.toNat ≤ UInt64.size := by omega
  refine ⟨rfl,?_,?_,?_⟩
  · exact fun _ => read_forward_outside memory source room
  · intro clear i inside
    have apart : i % (target - source).toNat = i := by
      by_cases same : target = source
      · rw [same,UInt64.sub_self]
        exact Nat.mod_zero i
      · have differ : target.toNat ≠ source.toNat := mt UInt64.toNat_inj.mp same
        have far : size.toNat ≤ (target - source).toNat := Word.distance_outside given (by omega)
        exact Nat.mod_eq_of_lt (Nat.lt_of_lt_of_le inside far)
    refine (read_forward_inside memory target source bounded inside).trans ?_
    rw [apart]
  · intro above within i inside
    refine (read_forward_inside memory target source bounded inside).trans ?_
    rw [Word.toNat_sub (Nat.le_of_lt above)]

-- Five bytes that are moved down by two, and the same five repeated above by two.
theorem exercised_copy :
    let memory := ({} : Memory).writeBytes 0x10000 [1,2,3,4,5,6,7]
    (∀ i < 5, (memory.copy 0x10000 0x10002 5).2.read (0x10000 + UInt64.ofNat i) =
      memory.read (0x10002 + UInt64.ofNat i)) ∧
    (∀ i < 5, (memory.copy 0x10002 0x10000 5).2.read (0x10002 + UInt64.ofNat i) =
      memory.read (0x10000 + UInt64.ofNat (i % 2))) ∧
    (memory.copy 0x10002 0x10000 5).2.read 0x10001 = memory.read 0x10001 := by
  intro memory
  obtain ⟨_,down⟩ := copy_moves_or_repeats memory 0x10000 0x10002 5 (by decide) (by decide)
  obtain ⟨_,up⟩ := copy_moves_or_repeats memory 0x10002 0x10000 5 (by decide) (by decide)
  exact ⟨down.moved (by decide),up.repeated (by decide) (by decide),up.outside 0x10001 (by decide)⟩

end FreeListHeap.Memory
