import FreeListHeap.Proofs.Runs

namespace FreeListHeap

variable {build : Build} {size align : Word} {ledger : Ledger} {free : List Block} {given : Span}
  {payload : Address} {action : Action} {actions : List Action}

-- A request that a checked build does not put up with.
def Call.Misaligned : Call → Prop
  | .allocateAligned size align => size ≠ 0 ∧ align ≠ 0 ∧ ¬ align.toNat.isPowerOfTwo
  | _ => False

instance : (call : Call) → Decidable call.Misaligned
  | .allocateAligned size align =>
    inferInstanceAs (Decidable (size ≠ 0 ∧ align ≠ 0 ∧ ¬ align.toNat.isPowerOfTwo))
  | .adopt _ | .allocate _ | .allocateLayout _ | .allocateZeroed _ | .reallocate _ _ _ | .release _
  | .store _ _ | .load _ _ | .copy _ _ _ | .header _ | .arena | .advance _ => isFalse id

-- What the actions of a run come to, one after the other.
def Ledger.outcomes (build : Build) : Ledger → List Action → List (Outcome Answer)
  | _,[] => []
  | ledger,action :: rest =>
    ledger.state.perform build action.call :: outcomes build (ledger.after build action) rest

def Build.Accepts (build : Build) (call : Call) : Prop :=
  build = .plain ∨ ¬ call.Misaligned

theorem Build.Accepts.agrees (accepts : build.Accepts (.allocateAligned size align))
    (sized : size ≠ 0) (aligned : align ≠ 0) : build.failure [.powerOfTwo align] = none := by
  rcases accepts with rfl | aligns
  · exact Build.plain_failure _
  · refine build.failure_none (List.forall_mem_singleton.mpr ?_)
    by_contra odd
    exact aligns ⟨sized,aligned,odd⟩

theorem Build.accepts_power (build : Build) (power : align.toNat.isPowerOfTwo) :
    build.failure [.powerOfTwo align] = none :=
  build.failure_none (List.forall_mem_singleton.mpr power)

theorem State.adopt_plain (state : State) (build : Build)
    (allowed : state.heap.arena.isEmpty → given.Exists) :
    state.adopt build given = state.adopt .plain given := by
  by_cases none : state.heap.arena.isEmpty
  · rw [State.adopt,State.adopt,if_neg (not_not.mpr none),if_neg (not_not.mpr none)]
    cases taken : given.arena? with
    | error error => rfl
    | ok arena =>
      have nonzero : arena.start ≠ 0 := allowed none arena (by rw [taken]; rfl)
      obtain ⟨sound,_⟩ := Valid.single taken nonzero state.memory
      exact (State.commit_eq build _ _ sound).trans (State.commit_eq .plain _ _ sound).symm
  · rw [State.adopt,State.adopt,if_pos none,if_pos none]

namespace Valid

-- In a heap that is in order the assertions on nodes and lists all hold, so that a build that
-- tests them does the same as one that takes them for granted.
theorem allocateAligned_plain (valid : Valid free ledger)
    (agrees : size ≠ 0 → align ≠ 0 → build.failure [.powerOfTwo align] = none) :
    ledger.state.allocateAligned build size align =
      ledger.state.allocateAligned .plain size align := by
  by_cases nothing : size = 0 ∨ align = 0
  · rw [State.allocateAligned,State.allocateAligned,if_pos nothing,if_pos nothing]
  · obtain ⟨sized,aligned⟩ := not_or.mp nothing
    have considers : build.Considers size align := ⟨sized,aligned,agrees sized aligned⟩
    rw [State.allocateAligned,State.allocateAligned,if_neg nothing,if_neg nothing,considers.agrees,
      Build.plain_failure]
    cases rounds : Request.ofBytes? size align with
    | none => rfl
    | some request =>
      simp only [valid.freeBlocks]
      cases found : Placement.find? request free with
      | none => rfl
      | some placement =>
        have sound := valid.take_change found (considers.whole rounds)
        exact (State.commit_eq build _ [] sound).trans (State.commit_eq .plain _ [] sound).symm

theorem allocateLayout_plain (valid : Valid free ledger) (build : Build) (layout : Layout) :
    layout.allocate build ledger.state = layout.allocate .plain ledger.state :=
  valid.allocateAligned_plain fun _ _ => build.accepts_power layout.powerOfTwo

theorem release_plain (valid : Valid free ledger) (build : Build) (owns : ledger.Owns payload) :
    ledger.state.release build (some payload) = ledger.state.release .plain (some payload) := by
  obtain ⟨grant,member,rfl⟩ := owns
  rw [valid.release_eq build member,valid.release_eq .plain member]

theorem reallocate_plain (valid : Valid free ledger) (build : Build) (layout : Layout)
    (covers : ledger.Covers payload payload size.toNat) :
    layout.reallocate build ledger.state payload size =
      layout.reallocate .plain ledger.state payload size := by
  have requested := valid.allocateLayout_plain build layout
  rcases valid.allocateAligned .plain layout.size layout.align with
    ⟨result,log,outcome,refusal⟩ | ⟨moved,later,state,outcome,taken,untouched⟩
  · change layout.allocate .plain ledger.state = _ at outcome
    rw [Layout.reallocate,Layout.reallocate,requested,outcome]
    rcases result with failed | none | moved
    · rfl
    · rfl
    · exact absurd rfl (refusal moved)
  · change layout.allocate .plain ledger.state = _ at outcome
    have filled := taken.filled valid (covers_min covers layout.size)
      (min_toNat size layout.size).2 untouched
    obtain ⟨owner,owned,same⟩ := covers.1
    have released := filled.release_plain build ⟨owner,List.mem_cons_of_mem _ owned,same⟩
    change State.release build ⟨_,state.memory.forward moved _ _⟩ _ = _ at released
    simp only [Layout.reallocate,requested,outcome,released]
    rfl

theorem perform_plain (valid : Valid free ledger) (allowed : ledger.Allowed action)
    (accepts : build.Accepts action.call) :
    ledger.state.perform build action.call = ledger.state.perform .plain action.call := by
  obtain ⟨call,through⟩ := action
  cases call with
  | adopt given => exact congrArg (Outcome.map _) (ledger.state.adopt_plain build allowed)
  | allocate size =>
    exact congrArg (Outcome.map _) (valid.allocateAligned_plain fun _ _ =>
      build.accepts_power (by decide))
  | allocateAligned size align =>
    exact congrArg (Outcome.map _) (valid.allocateAligned_plain accepts.agrees)
  | allocateLayout layout => exact congrArg (Outcome.map _) (valid.allocateLayout_plain build layout)
  | allocateZeroed layout =>
    simp only [State.perform,Layout.allocateZeroed,valid.allocateLayout_plain build layout]
  | reallocate payload size layout =>
    exact congrArg (Outcome.map _) (valid.reallocate_plain build layout allowed)
  | release payload =>
    cases payload with
    | none => rfl
    | some payload => exact congrArg (Outcome.map _) (valid.release_plain build (allowed payload rfl))
  | store | load | copy | header | arena | advance => rfl

theorem granted_plain (valid : Valid free ledger) (payload : Address)
    (agrees : size ≠ 0 → align ≠ 0 → build.failure [.powerOfTwo align] = none) :
    ledger.granted build ⟨payload,size,align⟩ = ledger.granted .plain ⟨payload,size,align⟩ := by
  rw [Ledger.granted,Ledger.granted,valid.allocateAligned_plain agrees]

theorem settle_plain (valid : Valid free ledger) (accepts : build.Accepts action.call)
    (answer : Answer) : ledger.settle build action answer = ledger.settle .plain action answer := by
  obtain ⟨call,through⟩ := action
  unfold Ledger.settle
  split
  case h_1 size payload _ =>
    rw [valid.granted_plain payload fun _ _ => build.accepts_power (by decide)]
  case h_2 size align payload same =>
    cases same
    rw [valid.granted_plain payload accepts.agrees]
  case h_3 layout payload _ | h_4 layout payload _ | h_5 layout payload _ =>
    rw [valid.granted_plain payload fun _ _ => build.accepts_power layout.powerOfTwo]
  all_goals rfl

theorem after_plain (valid : Valid free ledger) (allowed : ledger.Allowed action)
    (accepts : build.Accepts action.call) : ledger.after build action = ledger.after .plain action := by
  simp only [Ledger.after,valid.perform_plain allowed accepts,valid.settle_plain accepts]

end Valid

-- A checked build stops short of everything else when it meets such a request.
theorem State.perform_misaligned (state : State) (misaligned : call.Misaligned) :
    ∃ size align, call = .allocateAligned size align ∧
      state.perform .checked call = ⟨.error (.powerOfTwo align),state,[]⟩ := by
  cases call with
  | allocateAligned size align =>
    obtain ⟨sized,aligned,odd⟩ := misaligned
    have insists : Build.checked.failure [.powerOfTwo align] = some (.powerOfTwo align) := by
      simp [Build.failure,Assertion.Holds,odd]
    refine ⟨size,align,rfl,?_⟩
    rw [State.perform,State.allocateAligned,if_neg (not_or.mpr ⟨sized,aligned⟩),insists]
    rfl
  | _ => exact absurd misaligned id

theorem Ledger.after_misaligned (ledger : Ledger) (misaligned : action.call.Misaligned) :
    ledger.after .checked action = ledger := by
  obtain ⟨_,_,_,stops⟩ := ledger.state.perform_misaligned misaligned
  simp only [Ledger.after,stops]

theorem State.allocateAligned_ok (state : State) (size align : Word) :
    ∃ payload, (state.allocateAligned .plain size align).result = .ok payload := by
  rw [State.allocateAligned,Build.plain_failure]
  split
  · exact ⟨_,rfl⟩
  · cases Request.ofBytes? size align with
    | none => exact ⟨_,rfl⟩
    | some request =>
      cases found : Placement.find? request state.freeBlocks with
      | none => exact ⟨none,by simp only [found]⟩
      | some placement => exact ⟨placement.payload,by simp only [found]; rfl⟩

-- A plain build tests nothing and so never stops.
theorem State.perform_ok (state : State) (call : Call) :
    ∃ answer, (state.perform .plain call).result = .ok answer := by
  have mapped : ∀ {outcome : Outcome (Option Address)},
      (∃ payload, outcome.result = .ok payload) →
        ∃ answer, (outcome.map .payload).result = .ok answer := by
    rintro outcome ⟨payload,ok⟩
    exact ⟨.payload payload,by rw [Outcome.map,ok]; rfl⟩
  cases call with
  | adopt given =>
    rw [State.perform,State.adopt]
    split
    · exact ⟨_,rfl⟩
    · split
      · exact ⟨_,rfl⟩
      · exact ⟨_,rfl⟩
  | allocate size => exact mapped (state.allocateAligned_ok size Request.wordAlign)
  | allocateAligned size align => exact mapped (state.allocateAligned_ok size align)
  | allocateLayout layout =>
    exact mapped (state.allocateAligned_ok layout.size layout.align)
  | allocateZeroed layout =>
    obtain ⟨payload,ok⟩ := state.allocateAligned_ok layout.size layout.align
    refine mapped ⟨payload,?_⟩
    rw [Layout.allocateZeroed]
    split <;> exact ok
  | reallocate old size layout =>
    obtain ⟨payload,ok⟩ := state.allocateAligned_ok layout.size layout.align
    refine mapped ⟨payload,?_⟩
    rw [Layout.reallocate]
    split
    · rename_i moved handed
      exact handed.symm.trans ok
    · exact ok
  | release payload => cases payload <;> exact ⟨_,rfl⟩
  | store | load | copy | header | arena | advance => exact ⟨_,rfl⟩

namespace Valid

theorem perform_error (valid : Valid free ledger) (allowed : ledger.Allowed action) :
    (ledger.state.perform .checked action.call).result = .error failed ↔
      ∃ size align, action.call = .allocateAligned size align ∧ size ≠ 0 ∧ align ≠ 0 ∧
        ¬ align.toNat.isPowerOfTwo ∧ failed = .powerOfTwo align := by
  by_cases misaligned : action.call.Misaligned
  · obtain ⟨size,align,same,stops⟩ := ledger.state.perform_misaligned misaligned
    rw [same] at misaligned
    obtain ⟨sized,aligned,odd⟩ := misaligned
    rw [stops,same]
    constructor
    · intro fails
      exact ⟨size,align,rfl,sized,aligned,odd,(Except.error.inj fails).symm⟩
    · rintro ⟨_,_,⟨⟩,_,_,_,rfl⟩
      rfl
  · obtain ⟨answer,ok⟩ := ledger.state.perform_ok action.call
    rw [valid.perform_plain allowed (.inr misaligned),ok]
    constructor
    · intro fails
      cases fails
    · rintro ⟨size,align,same,sized,aligned,odd,_⟩
      rw [same] at misaligned
      exact absurd ⟨sized,aligned,odd⟩ misaligned

-- By induction on the run: a request that stops a checked build leaves it where it was, and any
-- other action does the same in both.
theorem run_plain (valid : Valid free ledger) (permitted : Ledger.Permitted .checked ledger actions) :
    Ledger.Permitted .plain ledger (actions.filter (¬ ·.call.Misaligned)) ∧
      (ledger.outcomes .checked actions).filter (·.result.isOk) =
        ledger.outcomes .plain (actions.filter (¬ ·.call.Misaligned)) ∧
      ledger.run .checked actions =
        ledger.run .plain (actions.filter (¬ ·.call.Misaligned)) := by
  induction actions generalizing ledger free with
  | nil => exact ⟨trivial,rfl,rfl⟩
  | cons action rest ih =>
    obtain ⟨allowed,others⟩ := permitted
    by_cases misaligned : action.call.Misaligned
    · obtain ⟨_,_,_,stops⟩ := ledger.state.perform_misaligned misaligned
      have stays := ledger.after_misaligned misaligned
      rw [stays] at others
      obtain ⟨permits,outcomes,runs⟩ := ih valid others
      have dropped : (action :: rest).filter (¬ ·.call.Misaligned) =
          rest.filter (¬ ·.call.Misaligned) := List.filter_cons_of_neg (by simpa using misaligned)
      rw [dropped,Ledger.outcomes,stops,stays]
      refine ⟨permits,outcomes,?_⟩
      rw [← runs]
      exact congrArg (Ledger.run .checked · rest) stays
    · have performs : ledger.state.perform .checked action.call = _ :=
        valid.perform_plain allowed (.inr misaligned)
      have settles : ledger.after .checked action = _ :=
        valid.after_plain allowed (.inr misaligned)
      obtain ⟨answer,ok⟩ := ledger.state.perform_ok action.call
      obtain ⟨later,next⟩ := valid.after .plain allowed
      rw [settles] at others
      obtain ⟨permits,outcomes,runs⟩ := ih next others
      have taken : (action :: rest).filter (¬ ·.call.Misaligned) =
          action :: rest.filter (¬ ·.call.Misaligned) :=
        List.filter_cons_of_pos (by simpa using misaligned)
      rw [taken,Ledger.outcomes,performs,settles]
      refine ⟨⟨allowed,permits⟩,?_,?_⟩
      · rw [List.filter_cons_of_pos (by rw [ok]; rfl),outcomes]
        rfl
      · refine Eq.trans ?_ runs
        exact congrArg (Ledger.run .checked · rest) settles

end Valid

-- A checked build stops at a request with an odd alignment and at nothing else, and leaves
-- everything as it was. Without such requests it does the very same as a plain build.
theorem Reached.checked_agrees (reached : Reached build ledger) :
    (∀ action failed, ledger.Allowed action →
      ((ledger.state.perform .checked action.call).result = .error failed ↔
        ∃ size align, action.call = .allocateAligned size align ∧ size ≠ 0 ∧ align ≠ 0 ∧
          ¬ align.toNat.isPowerOfTwo ∧ failed = .powerOfTwo align)) ∧
      (∀ action failed, ledger.Allowed action →
        (ledger.state.perform .checked action.call).result = .error failed →
          (ledger.state.perform .checked action.call).state = ledger.state ∧
            (ledger.state.perform .checked action.call).log = [] ∧
            ledger.after .checked action = ledger) ∧
      ∀ actions, Ledger.Permitted .checked ledger actions →
        Ledger.Permitted .plain ledger (actions.filter (¬ ·.call.Misaligned)) ∧
          (ledger.outcomes .checked actions).filter (·.result.isOk) =
            ledger.outcomes .plain (actions.filter (¬ ·.call.Misaligned)) ∧
          ledger.run .checked actions =
            ledger.run .plain (actions.filter (¬ ·.call.Misaligned)) := by
  refine ⟨fun _ _ => reached.valid.perform_error,?_,fun _ => reached.valid.run_plain⟩
  intro action failed allowed fails
  obtain ⟨size,align,same,sized,aligned,odd,_⟩ := (reached.valid.perform_error allowed).mp fails
  have misaligned : action.call.Misaligned := by
    rw [same]
    exact ⟨sized,aligned,odd⟩
  obtain ⟨_,_,_,stops⟩ := ledger.state.perform_misaligned misaligned
  rw [stops]
  exact ⟨rfl,rfl,ledger.after_misaligned misaligned⟩

theorem exercised_checked :
    (Ledger.exercised.state.perform .checked (.allocateAligned 24 24)).result =
        .error (.powerOfTwo 24) ∧
      Ledger.exercised.run .checked [⟨.allocateAligned 24 24,0⟩,⟨.allocate 24,0⟩] =
        Ledger.exercised.run .plain [⟨.allocate 24,0⟩] := by
  obtain ⟨stops,_,agrees⟩ := Reached.checked_agrees Reached.exercised
  refine ⟨(stops ⟨.allocateAligned 24 24,0⟩ _ (by decide +kernel)).mpr ?_,?_⟩
  · exact ⟨24,24,rfl,by decide,by decide,by decide +kernel,rfl⟩
  · exact (agrees _ (by decide +kernel)).2.2

end FreeListHeap
