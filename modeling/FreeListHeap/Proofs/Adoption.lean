import FreeListHeap.Proofs.Handout
import FreeListHeap.Proofs.PathIndependence

namespace FreeListHeap

variable {build : Build} {ledger : Ledger} {free : List Block} {state : State} {given arena : Span}
  {action : Action} {actions : List Action} {call : Call}

-- All that taking over an arena changes.
structure State.TakesOver (before after : State) (given arena : Span) : Prop where
  trims : given.Trims arena
  manages : after.heap.arena = arena
  blocks : after.freeBlocks.map Block.span = [arena]
  spares : ∀ address : Address,
    address.toNat < arena.start.toNat ∨ arena.start.toNat + 16 ≤ address.toNat →
      after.memory.read address = before.memory.read address

def Call.Adopts : Call → Prop
  | .adopt _ => True
  | _ => False

instance : (call : Call) → Decidable call.Adopts
  | .adopt _ => isTrue trivial
  | .allocate _ | .allocateAligned _ _ | .allocateLayout _ | .allocateZeroed _
  | .reallocate _ _ _ | .release _ | .store _ _ | .load _ _ | .copy _ _ _ | .header _ | .arena
  | .advance _ => isFalse id

theorem Call.adopts_iff : call.Adopts ↔ ∃ given, call = .adopt given := by
  cases call <;> simp [Adopts]

-- How often an arena is taken over in a run.
def Ledger.adoptions (build : Build) (ledger : Ledger) (actions : List Action) : Nat :=
  (ledger.outcomes build actions).countP (·.result = .ok .adopted)

namespace State

theorem commit_value (committed : (state.commit build arena change value log).result = .ok other) :
    value = other := by
  unfold commit at committed
  split at committed
  · cases committed
  · dsimp only at committed
    split at committed
    · cases committed
    · exact Except.ok.inj committed

-- Nothing is written but the node of the one free block.
theorem adopt_taken (build : Build) (vacant : state.heap.arena.isEmpty)
    (taken : given.arena? = .ok arena) (nonzero : arena.start ≠ 0) :
    ∃ after, state.adopt build given = ⟨.ok (.ok ()),after,[.arenaReady arena]⟩ ∧
      state.TakesOver after given arena := by
  obtain ⟨sound,_⟩ := Valid.single taken nonzero state.memory
  have whole := sound.fresh ⟨arena.start,arena.length⟩ List.mem_cons_self
  have blocks := sound.listed.freeBlocks sound.chain
  obtain ⟨trims,large⟩ := Span.arena?_trims taken
  have upper := arena.upper_length (by omega)
  refine ⟨_,Valid.adopt_single build vacant taken nonzero,trims,rfl,?_,?_⟩
  · have stop : Block.stop ⟨arena.start,arena.length⟩ = arena.stop :=
      UInt64.toNat_inj.mp (whole.toNat_stop.trans upper)
    refine (congrArg (List.map Block.span) blocks).trans ?_
    change [Span.mk arena.start (Block.stop ⟨arena.start,arena.length⟩)] = _
    rw [stop]
  · intro address outside
    refine Memory.read_apply_elsewhere ?_ ?_
    · intro edit member
      cases List.mem_singleton.mp member
      have limit : arena.stop.toNat < UInt64.size := UInt64.toNat_lt _
      change arena.start.toNat + 16 ≤ _
      omega
    · intro start member
      cases List.mem_singleton.mp member
      exact outside

-- Nothing but the taking over of an arena is answered in this way.
theorem perform_adopted (adopted : (state.perform build call).result = .ok .adopted) :
    ∃ given, call = .adopt given ∧ (state.adopt build given).result = .ok (.ok ()) := by
  have other : ∀ {outcome : Outcome (Option Address)},
      (outcome.map .payload).result ≠ .ok .adopted := by
    rintro ⟨result,_,_⟩
    cases result <;> nofun
  cases call with
  | adopt given =>
    refine ⟨given,rfl,?_⟩
    rw [perform] at adopted
    generalize state.adopt build given = outcome at adopted ⊢
    obtain ⟨failed | error | _,_,_⟩ := outcome
    · cases adopted
    · cases adopted
    · rfl
  | allocate | allocateAligned | allocateLayout | allocateZeroed | reallocate =>
    exact absurd adopted other
  | release payload =>
    rw [perform] at adopted
    generalize state.release build payload = outcome at adopted
    obtain ⟨failed | _,_,_⟩ := outcome <;> cases adopted
  | store | load | copy | header | arena | advance => cases adopted

end State

namespace Ledger

-- A heap that refuses a range of addresses is left as it was.
theorem refusal_stays (through : Address)
    (refused : (ledger.state.adopt build given).result = .ok (.error error)) :
    ledger.state.adopt build given = ledger.state.unchanged (.error error) ∧
      ledger.after build ⟨.adopt given,through⟩ = ledger := by
  have stays : ledger.state.adopt build given = ledger.state.unchanged (.error error) := by
    by_cases vacant : ledger.state.heap.arena.isEmpty
    · cases taken : given.arena? with
      | error reason =>
        have outcome := State.adopt_refused build vacant taken
        rw [outcome] at refused ⊢
        cases refused
        rfl
      | ok arena =>
        rw [State.adopt,if_neg (not_not.mpr vacant),taken] at refused
        cases State.commit_value refused
    · have outcome := State.adopt_managing build given vacant
      rw [outcome] at refused ⊢
      cases refused
      rfl
  refine ⟨stays,?_⟩
  simp only [after,State.perform,stays]
  rfl

end Ledger

namespace Valid

-- An action takes over an arena if the heap has none yet, or leaves it with what it has.
theorem adoption_step (valid : Valid free ledger) (build : Build) (allowed : ledger.Allowed action) :
    (ledger.state.perform build action.call).result = .ok .adopted ∧
        ledger.state.heap.arena.isEmpty ∧
        ¬ (ledger.after build action).state.heap.arena.isEmpty ∨
      (ledger.state.perform build action.call).result ≠ .ok .adopted ∧
        (ledger.after build action).state.heap.arena = ledger.state.heap.arena := by
  by_cases adopts : action.call.Adopts
  · obtain ⟨call,through⟩ := action
    obtain ⟨given,rfl⟩ := Call.adopts_iff.mp adopts
    rcases valid.adopt build allowed with ⟨error,outcome⟩ | ⟨arena,state,outcome,vacant,taken,rfl,_⟩
    · have refused : (ledger.state.adopt build given).result = .ok (.error error) :=
        congrArg Outcome.result outcome
      refine .inr ⟨?_,by rw [(Ledger.refusal_stays through refused).2]⟩
      rw [State.perform,outcome]
      intro adopted
      cases adopted
    · refine .inl ⟨by rw [State.perform,outcome]; rfl,vacant,fun empty => ?_⟩
      have large := (Span.arena?_ok taken).2.2
      rw [Ledger.after_state,State.perform,outcome] at empty
      have backward := Span.isEmpty_iff.mp empty
      dsimp only [Outcome.map] at backward
      omega
  · have other : ∀ given, action.call ≠ .adopt given := fun given same =>
      adopts (Call.adopts_iff.mpr ⟨given,same⟩)
    refine .inr ⟨fun adopted => ?_,?_⟩
    · obtain ⟨given,same,_⟩ := State.perform_adopted adopted
      exact other given same
    · rcases valid.stays_or_follows build allowed with stays | ⟨plan,planned,follows⟩
      · rw [stays]
      · rw [follows.state]
        refine planned.arena.resolve_right ?_
        rintro ⟨_,given,same,_⟩
        exact other given same

-- By induction on the run: what is taken over is never given up, and so nothing is taken over
-- after it.
theorem adoptions_count (valid : Valid free ledger)
    (permitted : Ledger.Permitted build ledger actions) :
    ledger.adoptions build actions + (if ledger.state.heap.arena.isEmpty then 0 else 1) =
      if (ledger.run build actions).state.heap.arena.isEmpty then 0 else 1 := by
  induction actions generalizing ledger free with
  | nil => exact Nat.zero_add _
  | cons action rest ih =>
    obtain ⟨allowed,others⟩ := permitted
    obtain ⟨_,next⟩ := valid.after build allowed
    have later := ih next others
    rw [Ledger.adoptions] at later ⊢
    rw [Ledger.outcomes]
    refine Eq.trans ?_ later
    rcases valid.adoption_step build allowed with ⟨adopted,vacant,managing⟩ | ⟨other,same⟩
    · rw [List.countP_cons_of_pos (by simpa using adopted),if_pos vacant,if_neg managing]
    · rw [List.countP_cons_of_neg (by simpa using other),same]

-- A heap that manages an arena is none the worse for attempts to hand it another.
theorem run_unadopted (valid : Valid free ledger) (managing : ¬ ledger.state.heap.arena.isEmpty)
    (permitted : Ledger.Permitted build ledger actions) :
    Ledger.Permitted build ledger (actions.filter (¬ ·.call.Adopts)) ∧
      ledger.run build (actions.filter (¬ ·.call.Adopts)) = ledger.run build actions := by
  induction actions generalizing ledger free with
  | nil => exact ⟨trivial,rfl⟩
  | cons action rest ih =>
    obtain ⟨allowed,others⟩ := permitted
    by_cases adopts : action.call.Adopts
    · have stays : ledger.after build action = ledger := by
        obtain ⟨call,through⟩ := action
        obtain ⟨given,rfl⟩ := Call.adopts_iff.mp adopts
        have refused := congrArg Outcome.result (State.adopt_managing build given managing)
        exact (Ledger.refusal_stays through refused).2
      rw [stays] at others
      obtain ⟨permits,runs⟩ := ih valid managing others
      rw [List.filter_cons_of_neg (by simpa using adopts)]
      refine ⟨permits,runs.trans ?_⟩
      exact congrArg (Ledger.run build · rest) stays.symm
    · obtain ⟨_,next⟩ := valid.after build allowed
      have arena := valid.arena_after build allowed managing
      obtain ⟨permits,runs⟩ := ih next (by rwa [arena]) others
      rw [List.filter_cons_of_pos (by simpa using adopts)]
      exact ⟨⟨allowed,permits⟩,runs⟩

end Valid

-- A heap takes over an arena once and for all: the first range of addresses that has room for a
-- block. Any other attempt, whether before or after, changes nothing and takes nothing away from
-- what is out.
theorem Reached.adopts_once (reached : Reached build ledger) :
    (∀ given : Span,
      (¬ ledger.state.heap.arena.isEmpty → ledger.state.adopt build given =
        ledger.state.unchanged (.error (.alreadyManaging ledger.state.heap.arena))) ∧
      (ledger.state.heap.arena.isEmpty → given.stop ≤ given.start →
        ledger.state.adopt build given = ledger.state.unchanged (.error (.empty given))) ∧
      (ledger.state.heap.arena.isEmpty → given.start < given.stop →
        given.stop.toNat / 16 * 16 < Word.rounded given.start.toNat 16 + 32 → ∃ usable : Word,
          usable.toNat = given.stop.toNat / 16 * 16 - Word.rounded given.start.toNat 16 ∧
          ledger.state.adopt build given =
            ledger.state.unchanged (.error (.tooSmall given usable))) ∧
      (ledger.state.heap.arena.isEmpty → given.start < given.stop →
        Word.rounded given.start.toNat 16 + 32 ≤ given.stop.toNat / 16 * 16 → given.start ≠ 0 →
        ∃ arena after, ledger.state.adopt build given =
            ⟨.ok (.ok ()),after,[.arenaReady arena]⟩ ∧
          (LogLine.arenaReady arena).level = "DEBUG" ∧
          ledger.state.TakesOver after given arena)) ∧
    (∀ given through error, (ledger.state.adopt build given).result = .ok (.error error) →
      ledger.state.adopt build given = ledger.state.unchanged (.error error) ∧
        ledger.after build ⟨.adopt given,through⟩ = ledger) ∧
    ∀ actions, Ledger.Permitted build ledger actions →
      ledger.adoptions build actions ≤ 1 ∧
      ((ledger.run build actions).state.heap.arena.isEmpty ↔
        ledger.state.heap.arena.isEmpty ∧ ledger.adoptions build actions = 0) ∧
      (¬ ledger.state.heap.arena.isEmpty →
        Ledger.Permitted build ledger (actions.filter (¬ ·.call.Adopts)) ∧
          ledger.run build (actions.filter (¬ ·.call.Adopts)) = ledger.run build actions) := by
  refine ⟨fun given => ⟨State.adopt_managing build given,?_,?_,?_⟩,
    fun _ through _ => Ledger.refusal_stays through,fun actions permitted => ⟨?_,?_,?_⟩⟩
  · intro vacant backward
    exact State.adopt_refused build vacant (if_pos (decide_eq_true backward))
  · intro vacant some small
    exact ⟨_,given.toNat_trim_length,State.adopt_refused build vacant (Span.arena?_small some small)⟩
  · intro vacant some large nonzero
    have start : given.trim.start ≠ 0 := by
      intro zero
      have above := UInt64.le_iff_toNat_le.mp (Span.trims large).inside.1
      rw [zero] at above
      exact nonzero (UInt64.toNat_inj.mp (Nat.le_zero.mp above))
    obtain ⟨after,taken,takes⟩ :=
      State.adopt_taken build vacant (Span.arena?_large some large) start
    exact ⟨given.trim,after,taken,rfl,takes⟩
  · have count := reached.valid.adoptions_count permitted
    split at count <;> split at count <;> omega
  · have count := reached.valid.adoptions_count permitted
    split at count <;> split at count <;> simp_all
  · exact fun managing => reached.valid.run_unadopted managing permitted

-- Two attempts come to nothing, the second at the end of all addresses. The next one succeeds, and
-- the last does no harm.
theorem exercised_adoption :
    let attempts : List Action :=
      [⟨.adopt ⟨0x10010,0x10010⟩,0⟩,⟨.adopt ⟨0xfffffffffffffff8,0xffffffffffffffff⟩,0⟩]
    let ledger := Ledger.run .plain {} attempts
    (∃ usable : Word, usable.toNat = 0 ∧
      ledger.state.adopt .plain ⟨0xfffffffffffffff8,0xffffffffffffffff⟩ = ledger.state.unchanged
        (.error (.tooSmall ⟨0xfffffffffffffff8,0xffffffffffffffff⟩ usable))) ∧
    (∃ arena after, ledger.state.adopt .plain ⟨0x10001,0x10108⟩ =
        ⟨.ok (.ok ()),after,[.arenaReady arena]⟩ ∧
      ledger.state.TakesOver after ⟨0x10001,0x10108⟩ arena) ∧
    ledger.adoptions .plain Ledger.exercise ≤ 1 ∧
    Ledger.exercised.run .plain [⟨.allocate 30,0⟩] =
      Ledger.exercised.run .plain [⟨.adopt ⟨0x20000,0x30000⟩,0⟩,⟨.allocate 30,0⟩] := by
  intro attempts ledger
  have reached : Reached .plain ledger := (Reached.start {}).run (by decide +kernel)
  have vacant : ledger.state.heap.arena.isEmpty := by decide +kernel
  obtain ⟨adopts,_,runs⟩ := Reached.adopts_once reached
  obtain ⟨_,_,later⟩ := Reached.adopts_once Reached.exercised
  obtain ⟨arena,after,taken,_,takes⟩ :=
    (adopts ⟨0x10001,0x10108⟩).2.2.2 vacant (by decide) (by decide) (by decide)
  have small := (adopts ⟨0xfffffffffffffff8,0xffffffffffffffff⟩).2.2.1 vacant (by decide)
    (by decide)
  have others := (later [⟨.adopt ⟨0x20000,0x30000⟩,0⟩,⟨.allocate 30,0⟩] (by decide +kernel)).2.2
    (by decide +kernel)
  exact ⟨small,⟨arena,after,taken,takes⟩,(runs Ledger.exercise (by decide +kernel)).1,others.2⟩

end FreeListHeap
