import FreeListHeap.Proofs.Plans

namespace FreeListHeap

-- The same thing to do, up to the bytes that are stored.
inductive Action.Matches : Action → Action → Prop where
  | same (action : Action) : Matches action action
  | store (address through : Address) : one.length = two.length →
      Matches ⟨.store address one,through⟩ ⟨.store address two,through⟩

-- An answer without the bytes that it gives away of an allocation.
def Answer.veiled : Answer → Answer
  | .bytes loaded => .bytes (loaded.map fun _ => 0)
  | answer => answer

def Reply.veiled : Reply → Reply
  | .answered answer => .answered answer.veiled
  | reply => reply

def Report.veiled (report : Report) : Report :=
  {report with reply := report.reply.veiled}

def Outcome.report (outcome : Outcome Answer) : Report :=
  Session.report outcome.state (.ofResult outcome.result) outcome.log

namespace Ledger

-- What there is to see of a heap after an action.
def report (build : Build) (ledger : Ledger) (action : Action) : Report :=
  (ledger.state.perform build action.call).report

def reports (build : Build) (ledger : Ledger) (actions : List Action) : List Report :=
  (ledger.outcomes build actions).map Outcome.report

theorem reports_cons (build : Build) (ledger : Ledger) (action : Action) (rest : List Action) :
    ledger.reports build (action :: rest) =
      ledger.report build action :: (ledger.after build action).reports build rest :=
  rfl

end Ledger

variable {build : Build} {left right ledger : Ledger} {free others : List Block} {action : Action}
  {one two actions : List Action} {first second : Action} {plan : Plan} {stores : List Store}

-- Whether an action is allowed hangs on the allocations that are out and not on any bytes.
theorem Ledger.Alike.matched (alike : left.Alike right) (matching : first.Matches second)
    (allowed : left.Allowed first) : right.Allowed second := by
  cases matching with
  | same => exact alike.allowed allowed
  | store _ _ same =>
    have covers := alike.covers allowed
    rw [same] at covers
    exact covers

namespace Ledger

-- Two actions that come to the same for anyone who cannot look at the bytes of an allocation.
structure Tally (build : Build) (left right : Ledger) (first second : Action) : Prop where
  alike : (left.after build first).Alike (right.after build second)
  replies : (Reply.ofResult (left.state.perform build first.call).result).veiled =
    (Reply.ofResult (right.state.perform build second.call).result).veiled
  logs : (left.state.perform build first.call).log = (right.state.perform build second.call).log

-- Plans that differ in their stores alone come to the same.
theorem Follows.tally (follows : left.Follows build first plan)
    (other : right.Follows build second {plan with stores}) (alike : left.Alike right) :
    Tally build left right first second := by
  refine ⟨⟨?_,?_⟩,?_,?_⟩
  · rw [follows.state,other.state]
  · rw [follows.settles,other.settles,alike.live]
    rfl
  · rw [follows.performs,other.performs]
    rfl
  · rw [follows.performs,other.performs]
    rfl

end Ledger

namespace Valid

-- One step of two heaps with the same allocations out.
theorem tally (valid : Valid free left) (build : Build) (twin : Valid others right)
    (alike : left.Alike right) (matching : first.Matches second) (allowed : left.Allowed first) :
    Ledger.Tally build left right first second := by
  cases valid.same_free twin alike
  cases matching with
  | same =>
    rcases valid.planned_cases build allowed with ⟨rfl,misaligned⟩ | ⟨_,_,loads⟩ | ⟨plan,planned⟩
    · obtain ⟨size,align,call,there⟩ := left.state.perform_misaligned misaligned
      obtain ⟨_,_,same,here⟩ := right.state.perform_misaligned misaligned
      cases call.symm.trans same
      refine ⟨?_,by rw [there,here],by rw [there,here]⟩
      rwa [left.after_misaligned misaligned,right.after_misaligned misaligned]
    · obtain ⟨call,through⟩ := first
      cases loads
      refine ⟨alike,?_,rfl⟩
      simp [State.perform,State.unchanged,Reply.ofResult,Reply.veiled,Answer.veiled]
    · exact (planned.follows left valid ⟨rfl,rfl⟩).tally (planned.follows right twin alike) alike
  | @store one two address through same =>
    have covers : left.Covers through address one.length := allowed
    have accepts : ∀ bytes, build.Accepts (.store address bytes) := fun _ => .inr id
    have stores := (valid.planned_store covers).accepted covers (accepts one)
    rw [same] at covers
    have others := (valid.planned_store covers).accepted covers (accepts two)
    exact (stores.follows left valid ⟨rfl,rfl⟩).tally (others.follows right twin alike) alike

theorem same_report (valid : Valid free left) (twin : Valid others right) (alike : left.Alike right)
    (matching : first.Matches second) (allowed : left.Allowed first) :
    (left.report build first).veiled = (right.report build second).veiled := by
  obtain ⟨later,replies,logs⟩ := valid.tally build twin alike matching allowed
  obtain ⟨_,next⟩ := valid.after build allowed
  obtain ⟨_,follower⟩ := twin.after build (alike.matched matching allowed)
  obtain ⟨blocks,bytes⟩ := next.same_blocks follower later
  rw [Ledger.after_state,Ledger.after_state] at blocks bytes
  simp only [Ledger.report,Outcome.report,Session.report,Report.veiled,replies,logs,blocks,bytes]

-- By induction on the run, with two heaps of the same allocations before each step.
theorem lockstep (valid : Valid free left) (twin : Valid others right) (alike : left.Alike right)
    (matching : List.Forall₂ Action.Matches one two) (permitted : Ledger.Permitted build left one) :
    Ledger.Permitted build right two ∧
      (left.reports build one).map Report.veiled = (right.reports build two).map Report.veiled ∧
      (left.run build one).Alike (right.run build two) := by
  induction matching generalizing left right free others with
  | nil => exact ⟨trivial,rfl,alike⟩
  | cons first _ ih =>
    obtain ⟨allowed,rest⟩ := permitted
    have permits := alike.matched first allowed
    obtain ⟨_,next⟩ := valid.after build allowed
    obtain ⟨_,follower⟩ := twin.after build permits
    obtain ⟨later,reports,final⟩ := ih next follower (valid.tally build twin alike first allowed).alike rest
    refine ⟨⟨permits,later⟩,?_,final⟩
    rw [Ledger.reports_cons,Ledger.reports_cons,List.map_cons,List.map_cons,reports,
      valid.same_report twin alike first allowed]

end Valid

theorem Ledger.Permitted.take (permitted : Permitted build ledger actions) (n : Nat) :
    Permitted build ledger (actions.take n) := by
  induction actions generalizing ledger n with
  | nil =>
    rw [List.take_nil]
    exact permitted
  | cons action rest ih =>
    cases n with
    | zero => exact trivial
    | succ n => exact ⟨permitted.1,ih permitted.2 n⟩

-- Neither the bytes that memory holds at first nor those that clients store decide anything but
-- what is loaded.
theorem Ledger.blind_to_bytes (left right : Memory) (matching : List.Forall₂ Action.Matches one two)
    (permitted : Permitted build {state := {memory := left}} one) :
    Permitted build {state := {memory := right}} two ∧
      (reports build {state := {memory := left}} one).map Report.veiled =
        (reports build {state := {memory := right}} two).map Report.veiled ∧
      ∀ n, let former := run build {state := {memory := left}} (one.take n)
        let latter := run build {state := {memory := right}} (two.take n)
        former.state.heap.arena = latter.state.heap.arena ∧
          former.state.freeBlocks = latter.state.freeBlocks ∧
          former.state.freeBytes = latter.state.freeBytes ∧ former.live = latter.live := by
  have valid : Valid [] _ := .start left
  have twin : Valid [] _ := .start right
  have nobody : ∀ memory, live {state := {memory}} = ∅ := by
    refine fun memory => Set.eq_empty_of_forall_notMem ?_
    rintro tag ⟨⟨grant,none,_⟩,_⟩
    cases none
  have alike : Alike {state := {memory := left}} {state := {memory := right}} :=
    ⟨rfl,(nobody left).trans (nobody right).symm⟩
  obtain ⟨permits,reports,_⟩ := valid.lockstep twin alike matching permitted
  refine ⟨permits,reports,fun n => ?_⟩
  have prior := permitted.take n
  have paired : List.Forall₂ Action.Matches (one.take n) (two.take n) := List.forall₂_take n matching
  obtain ⟨follows,_,later⟩ := valid.lockstep twin alike paired prior
  have former := ((Reached.start left).run prior).valid
  have latter := ((Reached.start right).run follows).valid
  obtain ⟨blocks,bytes⟩ := former.same_blocks latter later
  exact ⟨later.arena,blocks,bytes,later.live⟩

theorem exercised_blind : (Ledger.run .plain
    {state := {memory := ({} : Memory).fill 0x10000 0x100 0xff}}
    [⟨.adopt ⟨0x10001,0x10100⟩,0⟩,⟨.allocate 24,0⟩,⟨.store 0x10020 [0,32],0x10020⟩,
      ⟨.release (some 0x10020),0⟩]).state.freeBlocks = [⟨0x10010,240⟩] := by
  have permitted : Ledger.Permitted .plain {} [⟨.adopt ⟨0x10001,0x10100⟩,0⟩,⟨.allocate 24,0⟩,
      ⟨.store 0x10020 [7,7],0x10020⟩,⟨.release (some 0x10020),0⟩] := by decide +kernel
  have lengths : [(7 : UInt8),7].length = [(0 : UInt8),32].length := rfl
  obtain ⟨_,_,shown⟩ := Ledger.blind_to_bytes {} (({} : Memory).fill 0x10000 0x100 0xff)
    (.cons (.same _) (.cons (.same _) (.cons (.store _ _ lengths) (.cons (.same _) .nil)))) permitted
  obtain ⟨_,blocks,_⟩ := shown 4
  simp only [List.take_succ_cons,List.take_zero] at blocks
  rw [← blocks]
  decide +kernel

end FreeListHeap
