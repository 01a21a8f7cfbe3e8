import FreeListHeap.Proofs.Neighbours
import Mathlib.Logic.Function.Basic

namespace FreeListHeap

-- Several heaps over one memory, each with the allocations that it has out.
structure Commons where
  memory : Memory := {}
  heaps : Nat → Heap := fun _ => {}
  grants : Nat → List Grant := fun _ => []

-- What the client of one of the heaps does next.
structure Turn where
  heap : Nat
  action : Action

namespace Commons

def ledger (commons : Commons) (i : Nat) : Ledger :=
  ⟨⟨commons.heaps i,commons.memory⟩,commons.grants i⟩

def after (builds : Nat → Build) (commons : Commons) (turn : Turn) : Commons :=
  let later := (commons.ledger turn.heap).after (builds turn.heap) turn.action
  ⟨later.state.memory,Function.update commons.heaps turn.heap later.state.heap,
    Function.update commons.grants turn.heap later.grants⟩

def run (builds : Nat → Build) (commons : Commons) (turns : List Turn) : Commons :=
  turns.foldl (·.after builds) commons

-- Every client keeps to the rules of its own heap.
def Permitted (builds : Nat → Build) : Commons → List Turn → Prop
  | _,[] => True
  | commons,turn :: rest => (commons.ledger turn.heap).Allowed turn.action ∧
    Permitted builds (commons.after builds turn) rest

instance decidablePermitted (builds : Nat → Build) :
    (commons : Commons) → (turns : List Turn) → Decidable (Permitted builds commons turns)
  | _,[] => isTrue trivial
  | commons,turn :: rest =>
    have := decidablePermitted builds (commons.after builds turn) rest
    inferInstanceAs (Decidable (_ ∧ _))

-- What the client of one heap does in a run, in its order.
def own (i : Nat) (turns : List Turn) : List Action :=
  (turns.filter (·.heap = i)).map (·.action)

-- What there is to see of one heap after each of its own steps.
def reports (builds : Nat → Build) (i : Nat) : Commons → List Turn → List Report
  | _,[] => []
  | commons,turn :: rest =>
    let later := reports builds i (commons.after builds turn) rest
    if turn.heap = i then (commons.ledger i).report (builds i) turn.action :: later else later

-- The addresses that a heap is given in a run.
def Given (turns : List Turn) (i n : Nat) : Prop :=
  ∃ action ∈ own i turns, action.call.Gives n

-- No address is given to two heaps.
def Apart (turns : List Turn) : Prop :=
  ∀ i j, i ≠ j → ∀ n, Given turns i n → ¬ Given turns j n

variable {builds : Nat → Build} {commons : Commons} {turn : Turn} {turns rest : List Turn}
  {alones : Nat → Ledger} {i j : Nat} {territory : Nat → Nat → Prop}

theorem ledger_after_self (builds : Nat → Build) (commons : Commons) (turn : Turn) :
    (commons.after builds turn).ledger turn.heap =
      (commons.ledger turn.heap).after (builds turn.heap) turn.action := by
  simp only [ledger,after,Function.update_self]

theorem ledger_after_other (builds : Nat → Build) (commons : Commons) (turn : Turn)
    (other : j ≠ turn.heap) : (commons.after builds turn).ledger j =
      ⟨⟨(commons.ledger j).state.heap,(commons.after builds turn).memory⟩,
        (commons.ledger j).grants⟩ := by
  simp only [ledger,after,Function.update_of_ne other]

theorem own_self (turn : Turn) (rest : List Turn) :
    own turn.heap (turn :: rest) = turn.action :: own turn.heap rest := by
  simp [own]

theorem own_other (rest : List Turn) (other : j ≠ turn.heap) :
    own j (turn :: rest) = own j rest := by
  simp [own,other.symm]

theorem Given.first (gives : turn.action.call.Gives n) : Given (turn :: rest) turn.heap n := by
  refine ⟨turn.action,?_,gives⟩
  rw [own_self]
  exact List.mem_cons_self

theorem Given.of_sublist (sublist : rest.Sublist turns) (given : Given rest i n) :
    Given turns i n := by
  obtain ⟨action,member,gives⟩ := given
  exact ⟨action,((sublist.filter _).map _).subset member,gives⟩

theorem permitted_cons : (∀ i, Ledger.Permitted (builds i) (alones i) (own i (turn :: rest))) ↔
    (alones turn.heap).Allowed turn.action ∧ ∀ i, Ledger.Permitted (builds i)
      (Function.update alones turn.heap
        ((alones turn.heap).after (builds turn.heap) turn.action) i) (own i rest) := by
  have head : Ledger.Permitted (builds turn.heap) (alones turn.heap) (own turn.heap (turn :: rest)) ↔
      (alones turn.heap).Allowed turn.action ∧ Ledger.Permitted (builds turn.heap)
        ((alones turn.heap).after (builds turn.heap) turn.action) (own turn.heap rest) := by
    rw [own_self]
    rfl
  constructor
  · intro all
    refine ⟨(head.mp (all turn.heap)).1,fun j => ?_⟩
    by_cases same : j = turn.heap
    · subst same
      rw [Function.update_self]
      exact (head.mp (all _)).2
    · rw [Function.update_of_ne same,← own_other rest same]
      exact all j
  · rintro ⟨allowed,all⟩ j
    by_cases same : j = turn.heap
    · subst same
      have later := all turn.heap
      rw [Function.update_self] at later
      exact head.mpr ⟨allowed,later⟩
    · have later := all j
      rwa [Function.update_of_ne same,← own_other rest same] at later

def Foreign (territory : Nat → Nat → Prop) (i n : Nat) : Prop :=
  ∃ j ≠ i, territory j n

-- Each heap looks as if it were alone.
def Mirrors (territory : Nat → Nat → Prop) (commons : Commons) (alones : Nat → Ledger) : Prop :=
  ∀ i, (commons.ledger i).Mirrors (territory i) (Foreign territory i) (alones i)

section Runs

variable (apart : ∀ i j, i ≠ j → ∀ n, territory i n → ¬ territory j n)

include apart

theorem not_foreign (i : Nat) : ∀ n, territory i n → ¬ Foreign territory i n := by
  rintro n mine ⟨j,other,theirs⟩
  exact apart i j other.symm n mine theirs

-- The heap whose turn it is does what it does alone, and the others see nothing of it.
theorem Mirrors.after (mirrors : commons.Mirrors territory alones) (builds : Nat → Build)
    (allowed : (commons.ledger turn.heap).Allowed turn.action)
    (gives : ∀ n, turn.action.call.Gives n → territory turn.heap n) :
    (commons.after builds turn).Mirrors territory (Function.update alones turn.heap
      ((alones turn.heap).after (builds turn.heap) turn.action)) := by
  have clear := not_foreign apart
  have moves := (mirrors turn.heap).after (clear turn.heap) (builds turn.heap) allowed gives
  intro j
  by_cases same : j = turn.heap
  · subst same
    rwa [ledger_after_self,Function.update_self]
  · rw [ledger_after_other builds commons turn same,Function.update_of_ne same]
    refine (mirrors j).beside (clear j) fun address far => ?_
    obtain ⟨free,valid⟩ := (mirrors turn.heap).valid
    refine valid.after_outside (builds turn.heap) allowed fun has => far ?_
    exact ⟨turn.heap,Ne.symm same,moves.inside _ has⟩

-- The rules are kept in company exactly if each client keeps to them alone.
theorem Mirrors.permitted_iff (mirrors : commons.Mirrors territory alones)
    (gives : ∀ i n, Given turns i n → territory i n) : Permitted builds commons turns ↔
      ∀ i, Ledger.Permitted (builds i) (alones i) (own i turns) := by
  induction turns generalizing commons alones with
  | nil => exact ⟨fun _ _ => trivial,fun _ => trivial⟩
  | cons turn rest ih =>
    have alike := (mirrors turn.heap).alike
    have same : (commons.ledger turn.heap).Allowed turn.action ↔
        (alones turn.heap).Allowed turn.action := ⟨alike.allowed,alike.symm.allowed⟩
    rw [permitted_cons,← same]
    refine and_congr_right fun allowed => ih ?_ fun i n given => ?_
    · exact mirrors.after apart builds allowed fun n given => gives _ n (.first given)
    · exact gives i n (given.of_sublist (List.sublist_cons_self _ _))

-- By induction on the interleaving: after each step, every heap looks as if it were alone.
theorem Mirrors.run (mirrors : commons.Mirrors territory alones)
    (permitted : Permitted builds commons turns)
    (gives : ∀ i n, Given turns i n → territory i n) :
    (∀ i, reports builds i commons turns = (alones i).reports (builds i) (own i turns)) ∧
      (commons.run builds turns).Mirrors territory
        fun i => (alones i).run (builds i) (own i turns) := by
  induction turns generalizing commons alones with
  | nil => exact ⟨fun _ => rfl,mirrors⟩
  | cons turn rest ih =>
    obtain ⟨allowed,later⟩ := permitted
    have next := mirrors.after apart builds allowed fun n given => gives _ n (.first given)
    obtain ⟨shown,final⟩ := ih next later fun i n given =>
      gives i n (given.of_sublist (List.sublist_cons_self _ _))
    refine ⟨fun j => ?_,fun j => ?_⟩
    · have rest := shown j
      by_cases same : j = turn.heap
      · subst same
        rw [Function.update_self] at rest
        rw [own_self,reports,if_pos rfl,rest,
          (mirrors turn.heap).same_report (not_foreign apart turn.heap) (builds turn.heap)
            allowed]
        rfl
      · rw [Function.update_of_ne same] at rest
        rw [own_other _ same,reports,if_neg (Ne.symm same),rest]
    · have reached := final j
      dsimp only at reached ⊢
      by_cases same : j = turn.heap
      · subst same
        rw [Function.update_self] at reached
        rw [own_self]
        exact reached
      · rw [Function.update_of_ne same] at reached
        rw [own_other _ same]
        exact reached

end Runs

theorem Permitted.take (permitted : Permitted builds commons turns) (n : Nat) :
    Permitted builds commons (turns.take n) := by
  induction turns generalizing commons n with
  | nil =>
    rw [List.take_nil]
    exact permitted
  | cons turn rest ih =>
    cases n with
    | zero => exact trivial
    | succ n => exact ⟨permitted.1,ih permitted.2 n⟩

theorem Mirrors.start (territory : Nat → Nat → Prop) (memory : Memory) :
    Mirrors territory {memory} fun _ => {state := {memory}} := by
  refine fun i => ⟨⟨[],.start memory⟩,⟨[],.start memory⟩,⟨rfl,rfl⟩,fun _ _ => rfl,?_⟩
  rintro n ⟨_,nothing⟩
  exact absurd nothing (Nat.not_lt_zero n)

-- Two interleavings that leave every heap as it would be alone leave the same memory.
theorem Mirrors.same_memory {left right : Commons} (mirrors : left.Mirrors territory alones)
    (others : right.Mirrors territory alones)
    (apart : ∀ i j, i ≠ j → ∀ n, territory i n → ¬ territory j n) (address : Address) :
    left.memory.read address = right.memory.read address := by
  have somebody : ∃ i, ¬ Foreign territory i address.toNat := by
    by_cases owned : ∃ i, territory i address.toNat
    · obtain ⟨i,mine⟩ := owned
      exact ⟨i,not_foreign apart i _ mine⟩
    · exact ⟨0,fun ⟨j,_,theirs⟩ => owned ⟨j,theirs⟩⟩
  obtain ⟨i,clear⟩ := somebody
  exact ((mirrors i).agree address clear).trans ((others i).agree address clear).symm

-- Heaps that share a memory do what they do alone, however their steps are interleaved.
theorem undisturbed (memory : Memory) (apart : Apart turns)
    (permitted : Permitted builds {memory} turns) :
    (∀ i, Ledger.Permitted (builds i) {state := {memory}} (own i turns) ∧
      reports builds i {memory} turns =
        Ledger.reports (builds i) {state := {memory}} (own i turns)) ∧
      (∀ n i, let shared := (run builds {memory} (turns.take n)).ledger i
        let alone := Ledger.run (builds i) {state := {memory}} (own i (turns.take n))
        shared.state.heap = alone.state.heap ∧ shared.live = alone.live ∧
          (∀ address : Address, shared.state.heap.arena.Has address.toNat →
            shared.state.memory.read address = alone.state.memory.read address) ∧
          ∀ block ∈ shared.state.freeBlocks, shared.state.heap.arena.start.toNat ≤ block.lower ∧
            block.upper ≤ shared.state.heap.arena.stop.toNat) ∧
      (∀ n i j, i ≠ j → ∀ m, ((run builds {memory} (turns.take n)).heaps i).arena.Has m →
        ¬ ((run builds {memory} (turns.take n)).heaps j).arena.Has m) ∧
      ∀ others, (∀ i, own i others = own i turns) → Permitted builds {memory} others ∧
        (∀ i, (run builds {memory} others).heaps i = (run builds {memory} turns).heaps i) ∧
        ∀ address, (run builds {memory} others).memory.read address =
          (run builds {memory} turns).memory.read address := by
  have start := Mirrors.start (Given turns) memory
  have mirrors : ∀ n, (run builds {memory} (turns.take n)).Mirrors (Given turns) fun i =>
      Ledger.run (builds i) {state := {memory}} (own i (turns.take n)) := fun n =>
    (start.run apart (permitted.take n) fun _ _ given =>
      given.of_sublist (List.take_sublist n turns)).2
  have alone := (start.permitted_iff apart fun _ _ given => given).mp permitted
  obtain ⟨shown,final⟩ := start.run apart permitted fun _ _ given => given
  refine ⟨fun i => ⟨alone i,shown i⟩,?_,?_,?_⟩
  · intro n i
    obtain ⟨⟨free,valid⟩,⟨_,lone⟩,alike,agree,inside⟩ := mirrors n i
    refine ⟨valid.same_heap lone alike,alike.live,?_,?_⟩
    · exact fun address has => agree address (not_foreign apart i _ (inside _ has))
    · rw [valid.freeBlocks]
      exact valid.listed.inside
  · intro n i j differ m mine theirs
    exact apart i j differ m ((mirrors n i).inside m mine) ((mirrors n j).inside m theirs)
  · intro others same
    have given : ∀ i n, Given others i n → Given turns i n := by
      rintro i n ⟨action,member,gives⟩
      rw [same] at member
      exact ⟨action,member,gives⟩
    have permits : Permitted builds {memory} others :=
      (start.permitted_iff apart given).mpr fun i => (same i).symm ▸ alone i
    obtain ⟨_,ends⟩ := start.run apart permits given
    simp only [same] at ends
    refine ⟨permits,fun i => ?_,ends.same_memory final apart⟩
    obtain ⟨⟨_,one⟩,⟨_,lone⟩,alike,_⟩ := ends i
    obtain ⟨⟨_,two⟩,⟨_,_⟩,paired,_⟩ := final i
    exact (one.same_heap lone alike).trans (two.same_heap lone paired).symm

-- Two arenas that touch.
def exercise : List Turn :=
  [⟨0,⟨.adopt ⟨0x10001,0x10100⟩,0⟩⟩,⟨1,⟨.adopt ⟨0x10100,0x101f8⟩,0⟩⟩,⟨0,⟨.allocate 224,0⟩⟩,
    ⟨1,⟨.allocate 40,0⟩⟩,⟨0,⟨.store 0x10020 [1,2],0x10020⟩⟩,⟨1,⟨.release (some 0x10110),0⟩⟩,
    ⟨0,⟨.release (some 0x10020),0⟩⟩]

-- What one heap gives back is not merged with what the other has free.
theorem exercised_sharing : Apart exercise ∧
    reports (fun _ => .plain) 1 {} exercise =
      Ledger.reports .plain {} [⟨.adopt ⟨0x10100,0x101f8⟩,0⟩,⟨.allocate 40,0⟩,
        ⟨.release (some 0x10110),0⟩] ∧
    reports (fun _ => .plain) 1 {} exercise =
      [⟨.answered .adopted,[⟨0x10100,240⟩],240,[.arenaReady ⟨0x10100,0x101f0⟩]⟩,
        ⟨.answered (.payload (some 0x10110)),[⟨0x10140,176⟩],176,[]⟩,
        ⟨.answered .done,[⟨0x10100,240⟩],240,[]⟩] ∧
    ((run (fun _ => .plain) {} exercise).ledger 0).state.freeBlocks = [⟨0x10010,240⟩] ∧
    ((run (fun _ => .plain) {} exercise).ledger 1).state.freeBlocks = [⟨0x10100,240⟩] := by
  have ranges : ∀ i n, Given exercise i n →
      i = 0 ∧ n < 0x10100 ∨ i = 1 ∧ 0x10100 ≤ n := by
    rintro i n ⟨action,member,gives⟩
    obtain ⟨turn,chosen,rfl⟩ := List.mem_map.mp member
    obtain ⟨listed,mine⟩ := List.mem_filter.mp chosen
    cases of_decide_eq_true mine
    rcases List.mem_cons.mp listed with rfl | listed
    · exact .inl ⟨rfl,gives.2⟩
    rcases List.mem_cons.mp listed with rfl | listed
    · exact .inr ⟨rfl,gives.1⟩
    · have nothing : ∀ turn ∈ exercise.drop 2, ¬ turn.action.call.Gives n := by
        simp [exercise,Call.Gives]
      exact absurd gives (nothing turn listed)
  have apart : Apart exercise := by
    intro i j differ n one two
    have mine := ranges i n one
    have theirs := ranges j n two
    omega
  have permitted : Permitted (fun _ => .plain) {} exercise := by decide +kernel
  have shown := ((undisturbed {} apart permitted).1 1).2
  exact ⟨apart,shown,shown.trans (by decide +kernel),by decide +kernel,by decide +kernel⟩

end Commons

theorem Client.after_heap (client : Client) (command : Command) (outcome : Outcome Answer) :
    (client.after command outcome).heap = outcome.state.heap := by
  unfold Client.after
  dsimp only
  split
  · unfold Client.remember
    split <;> rfl
  · rfl

-- The heaps of a session, with the allocations that they have out.
def Session.commons (session : Session) (grants : Nat → List Grant) : Commons :=
  ⟨session.memory,fun i => (session.clients[i]?.map (·.heap)).getD {},grants⟩

-- A command of a session is the turn that its slots make of it.
theorem Session.step_turn {session : Session} {client : Client} {command : Command} {call : Call}
    {builds : Nat → Build} (found : session.clients[i]? = some client)
    (resolved : client.call command = .ok call) (built : builds i = client.build)
    (grants : Nat → List Grant) (through : Address) : ∃ later given,
      session.step i command =
          some (later,((session.commons grants).ledger i).report (builds i) ⟨call,through⟩) ∧
        later.commons given = (session.commons grants).after builds ⟨i,⟨call,through⟩⟩ := by
  let state : State := ⟨client.heap,session.memory⟩
  let outcome := state.perform client.build call
  have heap : ((session.commons grants).ledger i).state = state := by
    simp [Session.commons,Commons.ledger,found,state]
  let later : Session :=
    ⟨outcome.state.memory,session.clients.set i (client.after command outcome)⟩
  let next := ((session.commons grants).ledger i).after (builds i) ⟨call,through⟩
  have moved : next.state = outcome.state := by
    rw [Ledger.after_state,heap,built]
  refine ⟨later,Function.update grants i next.grants,?_,?_⟩
  · rw [Session.step,found,Ledger.report,heap,built]
    simp only [Option.map_some,resolved]
    rfl
  · have heaps : (fun j => (later.clients[j]?.map (·.heap)).getD {}) =
        Function.update (session.commons grants).heaps i next.state.heap := by
      funext j
      by_cases same : j = i
      · subst same
        obtain ⟨inside,_⟩ := List.getElem?_eq_some_iff.mp found
        rw [Function.update_self,List.getElem?_set_self inside,moved]
        exact Client.after_heap client command outcome
      · rw [Function.update_of_ne same,List.getElem?_set_ne (Ne.symm same)]
        rfl
    rw [Session.commons,heaps,Commons.after]
    change Commons.mk outcome.state.memory _ _ = Commons.mk next.state.memory _ _
    rw [moved]
    rfl

end FreeListHeap
