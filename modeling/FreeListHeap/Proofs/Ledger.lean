import FreeListHeap.Session
import FreeListHeap.Proofs.Copying

namespace FreeListHeap

-- An allocation from when it is handed out until it is taken back, whether or not a slot still
-- remembers it: what was asked for, the header as the heap wrote it, and at each address the byte
-- that was last stored through this very allocation.
structure Grant extends Held where
  header : Header
  contents : Address → Option UInt8 := fun _ => none

namespace Grant

-- What the allocation owns by the header it was handed out with.
def block (grant : Grant) : Block :=
  ⟨grant.payload - headerSize - grant.header.padding,grant.header.size⟩

def store (grant : Grant) (address : Address) (bytes : List UInt8) : Grant :=
  {grant with contents := fun other => bytes[(other - address).toNat]?.or (grant.contents other)}

end Grant

-- A heap in its memory, and the allocations that it has out.
structure Ledger where
  state : State := {}
  grants : List Grant := []

-- What a client does next. A store or a copy goes through the allocation at `through`.
structure Action where
  call : Call
  through : Address := 0
  deriving DecidableEq

-- No memory exists at address zero, so no arena starts there.
def Span.Exists (given : Span) : Prop :=
  ∀ arena ∈ given.arena?.toOption, arena.start ≠ 0

instance (given : Span) : Decidable given.Exists :=
  inferInstanceAs (Decidable (∀ arena ∈ given.arena?.toOption, arena.start ≠ 0))

namespace Ledger

def Owns (ledger : Ledger) (payload : Address) : Prop :=
  ∃ grant ∈ ledger.grants, grant.payload = payload

-- Each of the bytes lies between the payload and the end of what the header in memory reserves.
def Covers (ledger : Ledger) (payload address : Address) (count : Nat) : Prop :=
  ledger.Owns payload ∧ ∀ i < count, payload.toNat ≤ address.toNat + i ∧
    address.toNat + i < (ledger.state.reservation payload).upper

-- What a client may do. It hands over memory that exists, gives back and moves what it has, and
-- touches no bytes but those of its allocations. Every other request is free to be made.
def Allowed (ledger : Ledger) (action : Action) : Prop :=
  match action.call with
  | .adopt given => ledger.state.heap.arena.isEmpty → given.Exists
  | .release payload => ∀ given ∈ payload, ledger.Owns given
  | .reallocate payload size _ => ledger.Covers payload payload size.toNat
  | .store address bytes => ledger.Covers action.through address bytes.length
  | .load address count => ∃ grant ∈ ledger.grants, ledger.Covers grant.payload address count
  | .copy target source size => ledger.Covers action.through target size.toNat ∧
      ∃ grant ∈ ledger.grants, ledger.Covers grant.payload source size.toNat
  | .header payload => ledger.Owns payload
  | .allocate _ | .allocateAligned _ _ | .allocateLayout _ | .allocateZeroed _ | .arena
  | .advance _ => True

instance (ledger : Ledger) (payload : Address) : Decidable (ledger.Owns payload) :=
  inferInstanceAs (Decidable (∃ grant ∈ ledger.grants, grant.payload = payload))

instance (ledger : Ledger) (payload address : Address) (count : Nat) :
    Decidable (ledger.Covers payload address count) :=
  inferInstanceAs (Decidable (ledger.Owns payload ∧ ∀ i < count,
    payload.toNat ≤ address.toNat + i ∧
      address.toNat + i < (ledger.state.reservation payload).start.toNat +
        (ledger.state.reservation payload).size.toNat))

instance (ledger : Ledger) : (action : Action) → Decidable (ledger.Allowed action)
  | ⟨.adopt given,_⟩ =>
    inferInstanceAs (Decidable (ledger.state.heap.arena.isEmpty → given.Exists))
  | ⟨.release payload,_⟩ => payload.decidableForallMem
  | ⟨.reallocate payload size _,_⟩ =>
    inferInstanceAs (Decidable (ledger.Covers payload payload size.toNat))
  | ⟨.store address bytes,through⟩ =>
    inferInstanceAs (Decidable (ledger.Covers through address bytes.length))
  | ⟨.load address count,_⟩ =>
    inferInstanceAs (Decidable (∃ grant ∈ ledger.grants, ledger.Covers grant.payload address count))
  | ⟨.copy target source size,through⟩ =>
    inferInstanceAs (Decidable (ledger.Covers through target size.toNat ∧
      ∃ grant ∈ ledger.grants, ledger.Covers grant.payload source size.toNat))
  | ⟨.header payload,_⟩ => inferInstanceAs (Decidable (ledger.Owns payload))
  | ⟨.allocate _,_⟩ | ⟨.allocateAligned _ _,_⟩ | ⟨.allocateLayout _,_⟩ | ⟨.allocateZeroed _,_⟩
  | ⟨.arena,_⟩ | ⟨.advance _,_⟩ => isTrue trivial

-- An allocation as it is handed out, with the header that lies in front of it at that moment.
def granted (build : Build) (ledger : Ledger) (held : Held) : Grant :=
  let handed := (ledger.state.allocateAligned build held.size held.align).state
  {held with header := handed.memory.readHeader held.payload}

def stored (ledger : Ledger) (through address : Address) (bytes : List UInt8) : List Grant :=
  ledger.grants.map fun grant =>
    if grant.payload = through then grant.store address bytes else grant

def withdrawn (ledger : Ledger) (payload : Address) : List Grant :=
  ledger.grants.eraseP (·.payload = payload)

-- The allocations that are out once an action is answered. Zeroed bytes and bytes carried over
-- from another place count as stored.
def settle (build : Build) (ledger : Ledger) (action : Action) (answer : Answer) : List Grant :=
  match action.call,answer with
  | .allocate size,.payload (some payload) =>
    ledger.granted build ⟨payload,size,Request.wordAlign⟩ :: ledger.grants
  | .allocateAligned size align,.payload (some payload) =>
    ledger.granted build ⟨payload,size,align⟩ :: ledger.grants
  | .allocateLayout layout,.payload (some payload) =>
    ledger.granted build ⟨payload,layout.size,layout.align⟩ :: ledger.grants
  | .allocateZeroed layout,.payload (some payload) =>
    (ledger.granted build ⟨payload,layout.size,layout.align⟩).store payload
      (List.replicate layout.size.toNat 0) :: ledger.grants
  | .reallocate old size layout,.payload (some payload) =>
    (ledger.granted build ⟨payload,layout.size,layout.align⟩).store payload
      (ledger.state.memory.readBytes old (min size layout.size).toNat) :: ledger.withdrawn old
  | .release (some payload),_ => ledger.withdrawn payload
  | .store address bytes,_ => ledger.stored action.through address bytes
  | .copy target source size,_ => ledger.stored action.through target
      (ledger.state.memory.carried target source size.toNat)
  | _,_ => ledger.grants

-- An operation that fails an assertion hands nothing out and takes nothing back.
def after (build : Build) (ledger : Ledger) (action : Action) : Ledger :=
  let outcome := ledger.state.perform build action.call
  match outcome.result with
  | .ok answer => ⟨outcome.state,ledger.settle build action answer⟩
  | .error _ => ⟨outcome.state,ledger.grants⟩

def run (build : Build) (ledger : Ledger) (actions : List Action) : Ledger :=
  actions.foldl (·.after build) ledger

-- Every action of the run is allowed when its turn comes.
def Permitted (build : Build) : Ledger → List Action → Prop
  | _,[] => True
  | ledger,action :: rest => ledger.Allowed action ∧ Permitted build (ledger.after build action) rest

instance decidablePermitted (build : Build) :
    (ledger : Ledger) → (actions : List Action) → Decidable (Permitted build ledger actions)
  | _,[] => isTrue trivial
  | ledger,action :: rest =>
    have := decidablePermitted build (ledger.after build action) rest
    inferInstanceAs (Decidable (_ ∧ _))

end Ledger

-- What a fresh heap in any memory comes to by the actions of a client that keeps to the rules.
inductive Reached (build : Build) : Ledger → Prop where
  | start (memory : Memory) : Reached build {state := {memory}}
  | step (prior : Reached build ledger) (allowed : ledger.Allowed action) :
      Reached build (ledger.after build action)

theorem Reached.run {ledger : Ledger} (reached : Reached build ledger)
    (permitted : Ledger.Permitted build ledger actions) : Reached build (ledger.run build actions) := by
  induction actions generalizing ledger with
  | nil => exact reached
  | cons action rest ih => exact ih (reached.step permitted.1) permitted.2

-- A run that hands out three allocations, the second behind a granule of padding, stores and copies
-- bytes, and gives back the first.
def Ledger.exercise : List Action :=
  [⟨.adopt ⟨0x10001,0x10100⟩,0⟩,⟨.allocate 24,0⟩,⟨.allocateAligned 20 32,0⟩,⟨.allocate 40,0⟩,
    ⟨.store 0x10070 [1,2,3],0x10060⟩,⟨.copy 0x10090 0x10071 2,0x10090⟩,⟨.release (some 0x10020),0⟩]

def Ledger.exercised : Ledger :=
  Ledger.run .plain {} exercise

theorem Reached.exercised : Reached .plain Ledger.exercised :=
  (Reached.start {}).run (by decide +kernel)

end FreeListHeap
