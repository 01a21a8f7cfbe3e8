import FreeListHeap.Proofs.Copying
import FreeListHeap.Proofs.Relinking

namespace FreeListHeap

variable {left right : Memory} {region : Address → Prop} {address other target source : Address}
  {bytes : List UInt8} {store : Store} {stores : List Store} {edits : List Edit} {block : Block}
  {blocks : List Block} {arena : Span}

def Span.Has (span : Span) (n : Nat) : Prop :=
  span.start.toNat ≤ n ∧ n < span.stop.toNat

-- One thing that is done to memory. Only a copy depends on the bytes that are there.
inductive Store where
  | record (edit : Edit)
  | bytes (address : Address) (bytes : List UInt8)
  | carry (target source : Address) (count : Nat)

namespace Store

def Writes (store : Store) (address : Address) : Prop :=
  match store with
  | .record edit => (address - edit.address).toNat < 16
  | .bytes first bytes => (address - first).toNat < bytes.length
  | .carry target _ count => (address - target).toNat < count

def Reads (store : Store) (address : Address) : Prop :=
  match store with
  | .record _ | .bytes _ _ => False
  | .carry _ source count => (address - source).toNat < count

end Store

namespace Memory

def place (memory : Memory) : Store → Memory
  | .record edit => memory.writeRecord edit.address edit.record
  | .bytes address bytes => memory.writeBytes address bytes
  | .carry target source count => memory.forward target source count

-- All of them, one after the other.
def carryOut (memory : Memory) (stores : List Store) : Memory :=
  stores.foldl place memory

theorem carryOut_append (memory : Memory) (first later : List Store) :
    memory.carryOut (first ++ later) = (memory.carryOut first).carryOut later :=
  List.foldl_append

theorem carryOut_records (memory : Memory) (edits : List Edit) :
    memory.carryOut (edits.map .record) = memory.apply edits :=
  List.foldl_map

theorem read_place_outside {memory : Memory} (outside : ¬ store.Writes address) :
    (memory.place store).read address = memory.read address := by
  cases store with
  | record edit => exact read_writeRecord_outside (Nat.le_of_not_lt outside)
  | bytes first bytes =>
    have distance : (address - first).toNat < UInt64.size := UInt64.toNat_lt _
    have far := Nat.le_of_not_lt outside
    exact read_writeBytes_outside (by omega) far
  | carry target source count =>
    have distance : (address - target).toNat < UInt64.size := UInt64.toNat_lt _
    have far : count ≤ (address - target).toNat := Nat.le_of_not_lt outside
    have copied : memory.forward target source count = _ :=
      forward_eq memory target source (by omega)
    rw [place,copied]
    exact read_writeBytes_outside (by rw [length_carried]; omega) (by rwa [length_carried])

theorem read_carryOut_outside {memory : Memory}
    (outside : ∀ store ∈ stores, ¬ store.Writes address) :
    (memory.carryOut stores).read address = memory.read address := by
  induction stores generalizing memory with
  | nil => rfl
  | cons first rest ih =>
    obtain ⟨front,later⟩ := List.forall_mem_cons.mp outside
    exact (ih later).trans (read_place_outside front)

-- Two memories hold the same bytes at these addresses.
def AgreeOn (region : Address → Prop) (left right : Memory) : Prop :=
  ∀ address, region address → left.read address = right.read address

namespace AgreeOn

theorem write (agree : AgreeOn region left right) (address : Address) (byte : UInt8) :
    AgreeOn region (left.write address byte) (right.write address byte) := by
  intro other inside
  rw [read_write,read_write,agree other inside]

theorem writeBytes (agree : AgreeOn region left right) (address : Address) (bytes : List UInt8) :
    AgreeOn region (left.writeBytes address bytes) (right.writeBytes address bytes) := by
  induction bytes generalizing left right address with
  | nil => exact agree
  | cons byte rest ih => exact ih (agree.write address byte) (address + 1)

theorem writeRecord (agree : AgreeOn region left right) (address : Address) (record : Record) :
    AgreeOn region (left.writeRecord address record) (right.writeRecord address record) := by
  simp only [Memory.writeRecord,writeWord]
  exact (agree.writeBytes _ _).writeBytes _ _

-- A copy carries over what the two have in common, provided that its source is part of that.
theorem forward (agree : AgreeOn region left right)
    (inside : ∀ address : Address, (address - source).toNat < count → region address) :
    AgreeOn region (left.forward target source count) (right.forward target source count) := by
  induction count generalizing left right target source with
  | zero => exact agree
  | succ count ih =>
    have first : left.read source = right.read source := by
      refine agree source (inside source ?_)
      rw [UInt64.sub_self]
      exact Nat.succ_pos count
    rw [Memory.forward,Memory.forward,first]
    refine ih (agree.write target _) fun address near => inside address ?_
    by_cases same : source = address
    · rw [same,UInt64.sub_self]
      exact Nat.succ_pos count
    · rw [Word.distance_next same]
      exact Nat.succ_lt_succ near

theorem place (agree : AgreeOn region left right)
    (inside : ∀ address, store.Reads address → region address) :
    AgreeOn region (left.place store) (right.place store) := by
  cases store with
  | record edit => exact agree.writeRecord edit.address edit.record
  | bytes address bytes => exact agree.writeBytes address bytes
  | carry target source count => exact agree.forward inside

theorem carryOut (agree : AgreeOn region left right)
    (inside : ∀ store ∈ stores, ∀ address, store.Reads address → region address) :
    AgreeOn region (left.carryOut stores) (right.carryOut stores) := by
  induction stores generalizing left right with
  | nil => exact agree
  | cons first rest ih =>
    obtain ⟨front,later⟩ := List.forall_mem_cons.mp inside
    exact ih (agree.place front) later

end AgreeOn

end Memory

-- All that these stores touch lies in the arena.
def Span.Holds (arena : Span) (stores : List Store) : Prop :=
  ∀ store ∈ stores, ∀ address, store.Writes address ∨ store.Reads address →
    arena.Has address.toNat

theorem Span.Holds.append (first : arena.Holds stores) (later : arena.Holds others) :
    arena.Holds (stores ++ others) :=
  List.forall_mem_append.mpr ⟨first,later⟩

-- Records that lie in blocks of the arena lie in the arena.
theorem Span.holds_records (whole : ∀ block ∈ blocks, block.Whole)
    (inside : ∀ block ∈ blocks, arena.start.toNat ≤ block.lower ∧ block.upper ≤ arena.stop.toNat)
    (within : ∀ edit ∈ edits, ∃ block ∈ blocks, block.HasRecord edit.address) :
    arena.Holds (edits.map .record) := by
  intro store member address touched
  obtain ⟨edit,written,rfl⟩ := List.mem_map.mp member
  obtain ⟨block,listed,low,high⟩ := within edit written
  have bounds := inside block listed
  have bounded := (whole block listed).bounded
  rcases touched with near | nothing
  case inr => exact absurd nothing id
  change (address - edit.address).toNat < 16 at near
  have outside : ¬ (address.toNat < edit.address.toNat ∨ edit.address.toNat + 16 ≤ address.toNat) :=
    mt (Word.distance_outside (by omega)) (Nat.not_le.mpr near)
  unfold Span.Has
  omega

end FreeListHeap
