import FreeListHeap.Call

namespace FreeListHeap

-- An allocation as the client remembers it: where it is and what was asked for.
structure Held where
  payload : Address
  size : Word
  align : Word
  deriving DecidableEq, Repr

-- One heap and its client, who keeps allocations in numbered slots. Putting something into a slot
-- forgets what was in it and gives nothing back.
structure Client where
  build : Build := .plain
  heap : Heap := {}
  held : Nat → Option Held := fun _ => none

-- What a client does next, by slot.
inductive Command where
  | adopt (given : Span)
  | allocate (slot : Nat) (size : Word)
  | allocateAligned (slot : Nat) (size align : Word)
  | allocateLayout (slot : Nat) (size align : Word)
  | allocateZeroed (slot : Nat) (size align : Word)
  | reallocate (slot : Nat) (size : Word)
  | release (slot : Nat)
  | fill (slot : Nat) (offset : Word) (count : Option Word) (byte : UInt8)
  | store (slot : Nat) (offset : Word) (bytes : List UInt8)
  | load (slot : Nat) (offset : Word) (count : Option Word)
  | copy (target source : Nat) (targetOffset sourceOffset size : Word)
  | header (slot : Nat)
  | arena
  | advance (count : Nat)
  deriving DecidableEq, Repr

-- Why a command comes to nothing.
inductive Refusal where
  | noAllocation
  | invalidLayout
  deriving DecidableEq, Repr

inductive Reply where
  | answered (answer : Answer)
  | failed (assertion : Assertion)
  | refused (refusal : Refusal)
  deriving DecidableEq, Repr

def Reply.ofResult : Except Assertion Answer → Reply
  | .ok answer => .answered answer
  | .error assertion => .failed assertion

namespace Client

def put (client : Client) (slot : Nat) (content : Option Held) : Client :=
  {client with held := fun other => if other = slot then content else client.held other}

def allocation (client : Client) (slot : Nat) : Except Refusal Held :=
  match client.held slot with
  | some held => .ok held
  | none => .error .noAllocation

def layout (size align : Word) : Except Refusal Layout :=
  match Layout.ofBytes? size align with
  | some layout => .ok layout
  | none => .error .invalidLayout

-- A missing count stands for the size that was asked for.
def call (client : Client) : Command → Except Refusal Call
  | .adopt given => .ok (.adopt given)
  | .allocate _ size => .ok (.allocate size)
  | .allocateAligned _ size align => .ok (.allocateAligned size align)
  | .allocateLayout _ size align => do return .allocateLayout (← layout size align)
  | .allocateZeroed _ size align => do return .allocateZeroed (← layout size align)
  | .reallocate slot size => do
    let held ← client.allocation slot
    return .reallocate held.payload held.size (← layout size held.align)
  | .release slot => .ok (.release ((client.held slot).map (·.payload)))
  | .fill slot offset count byte => do
    let held ← client.allocation slot
    return .store (held.payload + offset) (List.replicate (count.getD held.size).toNat byte)
  | .store slot offset bytes => do
    let held ← client.allocation slot
    return .store (held.payload + offset) bytes
  | .load slot offset count => do
    let held ← client.allocation slot
    return .load (held.payload + offset) (count.getD held.size).toNat
  | .copy target source targetOffset sourceOffset size => do
    let held ← client.allocation target
    let other ← client.allocation source
    return .copy (held.payload + targetOffset) (other.payload + sourceOffset) size
  | .header slot => do return .header (← client.allocation slot).payload
  | .arena => .ok .arena
  | .advance count => .ok (.advance count)

-- What the slots hold once a command is answered. An allocation that could not be had empties its
-- slot, one that could not be moved stays.
def remember (client : Client) (command : Command) (answer : Answer) : Client :=
  match command,answer with
  | .allocate slot size,.payload payload =>
    client.put slot (payload.map (⟨·,size,Request.wordAlign⟩))
  | .allocateAligned slot size align,.payload payload
  | .allocateLayout slot size align,.payload payload
  | .allocateZeroed slot size align,.payload payload =>
    client.put slot (payload.map (⟨·,size,align⟩))
  | .reallocate slot size,.payload (some payload) =>
    client.put slot ((client.held slot).map (⟨payload,size,·.align⟩))
  | .release slot,_ => client.put slot none
  | _,_ => client

-- An operation that fails an assertion leaves the slots alone.
def after (client : Client) (command : Command) (outcome : Outcome Answer) : Client :=
  let changed := {client with heap := outcome.state.heap}
  match outcome.result with
  | .ok answer => changed.remember command answer
  | .error _ => changed

end Client

-- Several heaps over one memory.
structure Session where
  memory : Memory := {}
  clients : List Client := []

-- What there is to see of a heap after a command.
structure Report where
  reply : Reply
  freeBlocks : List Block
  freeBytes : Word
  log : List LogLine
  deriving DecidableEq, Repr

namespace Session

def start (builds : List Build) : Session :=
  {clients := builds.map fun build => {build}}

def report (state : State) (reply : Reply) (log : List LogLine) : Report :=
  ⟨reply,state.freeBlocks,state.freeBytes,log⟩

-- Carries out one command of one client, if there is such a client. A refused command does
-- nothing.
def step (session : Session) (index : Nat) (command : Command) : Option (Session × Report) :=
  session.clients[index]?.map fun client =>
    let state : State := ⟨client.heap,session.memory⟩
    match client.call command with
    | .error refusal => (session,report state (.refused refusal) [])
    | .ok call =>
      let outcome := state.perform client.build call
      (⟨outcome.state.memory,session.clients.set index (client.after command outcome)⟩,
        report outcome.state (.ofResult outcome.result) outcome.log)

end Session

end FreeListHeap
