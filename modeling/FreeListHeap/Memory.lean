import FreeListHeap.LittleEndian
import FreeListHeap.Word
import Std.Data.TreeMap

namespace FreeListHeap

-- One byte at every address; a byte that was never written is zero. Only `Memory.read` looks
-- inside, so two memories are told apart by their bytes alone.
structure Memory where
  bytes : Std.TreeMap Address UInt8 := ∅

namespace Memory

def read (memory : Memory) (address : Address) : UInt8 :=
  memory.bytes.getD address 0

def write (memory : Memory) (address : Address) (byte : UInt8) : Memory :=
  ⟨memory.bytes.insert address byte⟩

def readBytes (memory : Memory) (address : Address) (count : Nat) : List UInt8 :=
  (List.range count).map fun i => memory.read (address + UInt64.ofNat i)

-- Stores the bytes one after the other, at ascending addresses.
def writeBytes (memory : Memory) (address : Address) : List UInt8 → Memory
  | [] => memory
  | byte :: rest => (memory.write address byte).writeBytes (address + 1) rest

def fill (memory : Memory) (address : Address) (count : Nat) (byte : UInt8) : Memory :=
  memory.writeBytes address (List.replicate count byte)

-- Words are stored with their low byte first. Proofs read and write words by the lemmas below.
@[irreducible] def readWord (memory : Memory) (address : Address) : Word :=
  UInt64.ofNat (LittleEndian.decode (memory.readBytes address 8))

@[irreducible] def writeWord (memory : Memory) (address : Address) (word : Word) : Memory :=
  memory.writeBytes address (LittleEndian.encode 8 word.toNat)

-- Copies byte by byte from the lowest address upwards, so a target inside the source reads bytes
-- that this very copy has stored.
def forward (memory : Memory) (target source : Address) : (count : Nat) → Memory
  | 0 => memory
  | count + 1 =>
    (memory.write target (memory.read source)).forward (target + 1) (source + 1) count

-- The forward copy, which hands back the address it copied to.
def copy (memory : Memory) (target source : Address) (size : Word) : Address × Memory :=
  (target,memory.forward target source size.toNat)

@[simp] theorem read_empty (address : Address) : ({} : Memory).read address = 0 := by
  simp [read]

theorem read_write (memory : Memory) (address : Address) (byte : UInt8) (other : Address) :
    (memory.write address byte).read other =
      if address = other then byte else memory.read other := by
  simp [read,write,Std.TreeMap.getD_insert]

@[simp] theorem length_readBytes (memory : Memory) (address : Address) (count : Nat) :
    (memory.readBytes address count).length = count := by
  simp [readBytes]

theorem getElem_readBytes (memory : Memory) (address : Address) (count i : Nat)
    (inside : i < (memory.readBytes address count).length) :
    (memory.readBytes address count)[i] = memory.read (address + UInt64.ofNat i) := by
  simp [readBytes]

-- An address is written exactly when its distance from the first one is within the count.
theorem read_writeBytes (memory : Memory) (address : Address) (bytes : List UInt8)
    (bounded : bytes.length ≤ UInt64.size) (other : Address) :
    (memory.writeBytes address bytes).read other =
      bytes[(other - address).toNat]?.getD (memory.read other) := by
  induction bytes generalizing memory address with
  | nil => simp [writeBytes]
  | cons byte rest ih =>
    rw [List.length_cons] at bounded
    rw [writeBytes,ih _ _ (Nat.le_of_succ_le bounded)]
    by_cases same : address = other
    · subst same
      have far : rest.length ≤ (address - (address + 1)).toNat := by
        have behind := Word.distance_behind address
        omega
      have near : (address - address).toNat = 0 := by rw [UInt64.sub_self]; rfl
      rw [near,List.getElem?_eq_none far,Option.getD_none,read_write,if_pos rfl]
      rfl
    · rw [Word.distance_next same,read_write,if_neg same]
      rfl

theorem read_writeBytes_outside {memory : Memory} {address : Address} {bytes : List UInt8}
    {other : Address} (bounded : bytes.length ≤ UInt64.size)
    (outside : bytes.length ≤ (other - address).toNat) :
    (memory.writeBytes address bytes).read other = memory.read other := by
  rw [read_writeBytes _ _ _ bounded,List.getElem?_eq_none outside,Option.getD_none]

theorem readBytes_writeBytes (memory : Memory) (address : Address) (bytes : List UInt8)
    (bounded : bytes.length ≤ UInt64.size) :
    (memory.writeBytes address bytes).readBytes address bytes.length = bytes := by
  refine List.ext_getElem (by simp) fun i _ inside => ?_
  rw [getElem_readBytes,read_writeBytes _ _ _ bounded]
  rw [Word.distance_offset _ (Nat.lt_of_lt_of_le inside bounded),List.getElem?_eq_getElem inside,
    Option.getD_some]

theorem readBytes_congr {left right : Memory} {address : Address} {count : Nat}
    (agree : ∀ i < count, left.read (address + UInt64.ofNat i) =
      right.read (address + UInt64.ofNat i)) :
    left.readBytes address count = right.readBytes address count := by
  refine List.map_congr_left fun i member => agree i (List.mem_range.mp member)

theorem readWord_writeWord (memory : Memory) (address : Address) (word : Word) :
    (memory.writeWord address word).readWord address = word := by
  have stored := readBytes_writeBytes memory address (LittleEndian.encode 8 word.toNat)
    (by rw [LittleEndian.length_encode]; decide)
  rw [LittleEndian.length_encode] at stored
  rw [readWord,writeWord,stored,LittleEndian.decode_encode word.toNat_lt]
  exact UInt64.ofNat_toNat

theorem read_writeWord_outside {memory : Memory} {address other : Address} {word : Word}
    (outside : 8 ≤ (other - address).toNat) :
    (memory.writeWord address word).read other = memory.read other := by
  rw [writeWord]
  refine read_writeBytes_outside ?_ ?_ <;> rw [LittleEndian.length_encode]
  · decide
  · exact outside

theorem readWord_congr {left right : Memory} {address : Address}
    (agree : ∀ i < 8, left.read (address + UInt64.ofNat i) =
      right.read (address + UInt64.ofNat i)) :
    left.readWord address = right.readWord address := by
  rw [readWord,readWord,readBytes_congr agree]

end Memory

end FreeListHeap
