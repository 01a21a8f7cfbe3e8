import FreeListHeap.Block
import FreeListHeap.Memory

namespace FreeListHeap

-- The bookkeeping of a heap lives in the memory that it manages, in records of two words that
-- fill one granule. Nothing in memory tells the kinds apart: what lies at an address is a node
-- or a header because of how the address was reached.
structure Record where
  low : Word
  high : Word
  deriving DecidableEq, Repr

-- Two records overlap in no byte.
def Record.Apart (left right : Address) : Prop :=
  16 ≤ (left - right).toNat ∧ 16 ≤ (right - left).toNat

theorem Record.Apart.symm (apart : Apart left right) : Apart right left :=
  ⟨apart.2,apart.1⟩

theorem Record.Apart.outside (apart : Apart left right) {i : Nat} (inside : i < 16) :
    16 ≤ (left + UInt64.ofNat i - right).toNat := by
  have there := UInt64.toNat_sub left right
  have back := UInt64.toNat_sub right left
  have small := left.toNat_lt
  have bounded := right.toNat_lt
  obtain ⟨one,two⟩ := apart
  rw [show left + UInt64.ofNat i - right = left - right + UInt64.ofNat i by grind,
    UInt64.toNat_add,UInt64.toNat_ofNat']
  omega

-- Begins every free block: how long the block is and where the next one starts.
structure Node where
  size : Word
  next : Option Address
  deriving DecidableEq, Repr

-- Lies right in front of every payload: how much is reserved in all, and how far in front of
-- the header the reservation begins.
structure Header where
  size : Word
  padding : Word
  deriving DecidableEq, Repr

namespace Node

-- No block starts at address zero, so a zero word ends the list.
def ofRecord (record : Record) : Node :=
  ⟨record.low,if record.high = 0 then none else some record.high⟩

def toRecord (node : Node) : Record :=
  ⟨node.size,node.next.getD 0⟩

theorem ofRecord_toRecord {node : Node} (named : node.next ≠ some 0) :
    ofRecord node.toRecord = node := by
  obtain ⟨size,next⟩ := node
  cases next with
  | none => rfl
  | some address => simp_all [ofRecord,toRecord]

end Node

namespace Header

def ofRecord (record : Record) : Header :=
  ⟨record.low,record.high⟩

def toRecord (header : Header) : Record :=
  ⟨header.size,header.padding⟩

end Header

namespace Memory

def readRecord (memory : Memory) (address : Address) : Record :=
  ⟨memory.readWord address,memory.readWord (address + 8)⟩

def writeRecord (memory : Memory) (address : Address) (record : Record) : Memory :=
  (memory.writeWord address record.low).writeWord (address + 8) record.high

def readNode (memory : Memory) (address : Address) : Node :=
  Node.ofRecord (memory.readRecord address)

-- The header of the allocation whose payload starts at `payload`.
def readHeader (memory : Memory) (payload : Address) : Header :=
  Header.ofRecord (memory.readRecord (payload - headerSize))

theorem readRecord_congr {left right : Memory} {address : Address}
    (agree : ∀ i < 16, left.read (address + UInt64.ofNat i) =
      right.read (address + UInt64.ofNat i)) :
    left.readRecord address = right.readRecord address := by
  have high : ∀ i < 8, left.read (address + 8 + UInt64.ofNat i) =
      right.read (address + 8 + UInt64.ofNat i) := by
    intro i below
    have later := agree (8 + i) (by omega)
    rwa [UInt64.ofNat_add,← UInt64.add_assoc] at later
  rw [readRecord,readRecord,readWord_congr fun i below => agree i (by omega),readWord_congr high]

theorem read_writeRecord_outside {memory : Memory} {address other : Address} {record : Record}
    (outside : 16 ≤ (other - address).toNat) :
    (memory.writeRecord address record).read other = memory.read other := by
  have later : 8 ≤ (other - (address + 8)).toNat := by
    have eight : (8 : UInt64) ≤ other - address := by
      rw [UInt64.le_iff_toNat_le]
      exact Nat.le_trans (by decide) outside
    rw [show other - (address + 8) = other - address - 8 by grind,
      UInt64.toNat_sub_of_le _ _ eight]
    exact Nat.le_sub_of_add_le outside
  rw [writeRecord,read_writeWord_outside later,read_writeWord_outside (by omega)]

theorem readRecord_writeRecord (memory : Memory) (address : Address) (record : Record) :
    (memory.writeRecord address record).readRecord address = record := by
  have first : (memory.writeRecord address record).readWord address =
      (memory.writeWord address record.low).readWord address := by
    refine readWord_congr fun i below => read_writeWord_outside ?_
    rw [show address + UInt64.ofNat i - (address + 8) = UInt64.ofNat i - 8 by grind,
      UInt64.toNat_sub,UInt64.toNat_ofNat']
    simp
    omega
  rw [readRecord,first,readWord_writeWord,writeRecord,readWord_writeWord]

theorem readRecord_writeRecord_apart {memory : Memory} (apart : Record.Apart left right)
    (record : Record) :
    (memory.writeRecord right record).readRecord left = memory.readRecord left :=
  readRecord_congr fun _ inside => read_writeRecord_outside (apart.outside inside)

end Memory

-- One record to be stored at one address. An operation decides on its edits first, from the list
-- of free blocks alone, and then makes them all.
structure Edit where
  address : Address
  record : Record
  deriving DecidableEq, Repr

namespace Edit

def node (address : Address) (node : Node) : Edit :=
  ⟨address,node.toRecord⟩

-- The header of the allocation whose payload starts at `payload`.
def header (payload : Address) (header : Header) : Edit :=
  ⟨payload - headerSize,header.toRecord⟩

end Edit

namespace Memory

def apply (memory : Memory) (edits : List Edit) : Memory :=
  edits.foldl (fun memory edit => memory.writeRecord edit.address edit.record) memory

@[simp] theorem apply_nil (memory : Memory) : memory.apply [] = memory := rfl

@[simp] theorem apply_cons (memory : Memory) (first : Edit) (rest : List Edit) :
    memory.apply (first :: rest) = (memory.writeRecord first.address first.record).apply rest := rfl

-- Edits leave every byte outside of their own granules alone.
theorem read_apply_outside {memory : Memory} {edits : List Edit} {other : Address}
    (outside : ∀ edit ∈ edits, 16 ≤ (other - edit.address).toNat) :
    (memory.apply edits).read other = memory.read other := by
  induction edits generalizing memory with
  | nil => rfl
  | cons first rest ih =>
    rw [apply_cons,ih fun edit member => outside edit (List.mem_cons_of_mem _ member)]
    exact read_writeRecord_outside (outside first List.mem_cons_self)

theorem readRecord_apply_apart {memory : Memory} {edits : List Edit}
    (apart : ∀ edit ∈ edits, Record.Apart address edit.address) :
    (memory.apply edits).readRecord address = memory.readRecord address := by
  induction edits generalizing memory with
  | nil => rfl
  | cons first rest ih =>
    rw [apply_cons,ih fun edit member => apart edit (List.mem_cons_of_mem _ member)]
    exact readRecord_writeRecord_apart (apart first List.mem_cons_self) _

-- Edits that overlap nowhere all last.
theorem readRecord_apply {memory : Memory} {edits : List Edit} {edit : Edit}
    (apart : edits.Pairwise fun one two => Record.Apart one.address two.address)
    (member : edit ∈ edits) : (memory.apply edits).readRecord edit.address = edit.record := by
  induction edits generalizing memory with
  | nil => cases member
  | cons first rest ih =>
    obtain ⟨front,later⟩ := List.pairwise_cons.mp apart
    rw [apply_cons]
    rcases List.mem_cons.mp member with rfl | member
    · rw [readRecord_apply_apart front,readRecord_writeRecord]
    · exact ih later member

end Memory

end FreeListHeap
