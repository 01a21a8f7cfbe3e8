import FreeListHeap.Proofs.Handout
import FreeListHeap.Proofs.Integrity
import FreeListHeap.Proofs.LowestFit
import FreeListHeap.Proofs.Plans

namespace FreeListHeap

variable {build other : Build} {ledger left right : Ledger} {free : List Block} {action : Action}
  {actions : List Action} {size align smaller finer : Word} {payload : Address} {grant : Grant}
  {layout : Layout} {n q : Nat}

-- A request for so many bytes is met at this payload.
def Ledger.Yields (build : Build) (ledger : Ledger) (size align : Word) (payload : Address) : Prop :=
  (ledger.state.allocateAligned build size align).result = .ok (some payload)

-- An address that an allocation owns, by the header in front of it.
def Ledger.Reserves (ledger : Ledger) (n : Nat) : Prop :=
  ∃ payload, ledger.Owns payload ∧ (ledger.state.reservation payload).Has n

-- The alignments that a build puts up with.
def Build.Aligns (build : Build) (align : Word) : Prop :=
  build = .checked → align.toNat.isPowerOfTwo

-- A request as the build that met it saw it, and the place it was met at.
structure Held.Met (build : Build) (held : Held) : Prop where
  considers : build.Considers held.size held.align
  multiple : Word.rounded held.align.toNat 16 ∣ held.payload.toNat

def Call.Requests : Call → Prop
  | .allocate _ | .allocateAligned _ _ | .allocateLayout _ | .allocateZeroed _ => True
  | _ => False

theorem Word.rounded_mono {small large : Nat} (less : small ≤ large) {unit : Nat}
    (positive : 0 < unit) : rounded small unit ≤ rounded large unit :=
  rounded_le positive (dvd_rounded large unit) (Nat.le_trans less (le_rounded large positive))

theorem Build.considers_iff : build.Considers size align ↔
    size ≠ 0 ∧ align ≠ 0 ∧ build.Aligns align := by
  constructor
  · rintro ⟨sized,aligned,agrees⟩
    refine ⟨sized,aligned,?_⟩
    rintro rfl
    exact Build.checked_failure.mp agrees (.powerOfTwo align) (List.mem_singleton_self _)
  · rintro ⟨sized,aligned,aligns⟩
    refine ⟨sized,aligned,?_⟩
    cases build with
    | plain => exact Build.plain_failure _
    | checked => exact Build.accepts_power _ (aligns rfl)

namespace Ledger

theorem Fits.of_fewer {size align : Nat} (fits : right.Fits size align q)
    (start : left.state.heap.arena.start = right.state.heap.arena.start)
    (back : q + size ≤ left.state.heap.arena.stop.toNat)
    (fewer : ∀ n < q + size, left.Reserves n → right.Reserves n) : left.Fits size align q := by
  obtain ⟨multiple,front,_,clear⟩ := fits
  rw [← start] at front
  refine ⟨multiple,front,back,?_⟩
  intro grant member n low high has
  obtain ⟨_,⟨twin,found,rfl⟩,within⟩ := fewer n high ⟨grant.payload,⟨grant,member,rfl⟩,has⟩
  exact clear twin found n low high within

theorem Fits.of_smaller {size align smaller finer : Nat} (fits : ledger.Fits size align q)
    (less : smaller ≤ size) (divides : finer ∣ align) : ledger.Fits smaller finer q := by
  obtain ⟨multiple,front,back,clear⟩ := fits
  refine ⟨Nat.dvd_trans divides multiple,front,by omega,?_⟩
  intro grant member n low high
  exact clear grant member n low (by omega)

end Ledger

theorem Outcome.map_payload {outcome : Outcome (Option Address)} {answer : Option Address}
    (told : (outcome.map .payload).result = .ok (.payload answer)) : outcome.result = .ok answer := by
  obtain ⟨result,_,_⟩ := outcome
  cases result with
  | error failed => cases told
  | ok payload =>
    cases told
    rfl

-- A layout that is met with zeroed bytes, or by a move, is met as a request of its own.
theorem Layout.allocateZeroed_yields
    (hands : (layout.allocateZeroed build ledger.state).result = .ok (some payload)) :
    ledger.Yields build layout.size layout.align payload := by
  unfold allocateZeroed at hands
  dsimp only at hands
  split at hands <;> exact hands

theorem Layout.reallocate_yields {old : Address}
    (hands : (layout.reallocate build ledger.state old size).result = .ok (some payload)) :
    ledger.Yields build layout.size layout.align payload := by
  unfold reallocate at hands
  dsimp only at hands
  split at hands
  · rename_i moved met
    generalize State.release build _ _ = released at hands
    obtain ⟨result,_,_⟩ := released
    cases result with
    | error failed => cases hands
    | ok _ =>
      cases hands
      exact met
  · exact hands

-- An allocation that is out was out before, or is the answer to what was just asked for.
theorem Ledger.grant_after (member : grant ∈ (ledger.after build action).grants) :
    grant.toHeld ∈ ledger.grants.map Grant.toHeld ∨
      ledger.Yields build grant.size grant.align grant.payload := by
  have prior : ∀ other ∈ ledger.grants, other.toHeld ∈ ledger.grants.map Grant.toHeld :=
    fun other => List.mem_map_of_mem
  have kept : ∀ through address bytes, grant ∈ ledger.stored through address bytes →
      grant.toHeld ∈ ledger.grants.map Grant.toHeld := by
    intro through address bytes stored
    obtain ⟨other,granted,rfl⟩ := List.mem_map.mp stored
    split <;> exact prior other granted
  unfold after at member
  dsimp only at member
  split at member
  case h_2 => exact .inl (prior grant member)
  rename_i answer told
  obtain ⟨call,through⟩ := action
  unfold settle at member
  split at member
  case h_1 same | h_2 same | h_3 same =>
    cases same
    rcases List.mem_cons.mp member with rfl | before
    · exact .inr (Outcome.map_payload told)
    · exact .inl (prior grant before)
  case h_4 same =>
    cases same
    rcases List.mem_cons.mp member with rfl | before
    · exact .inr (Layout.allocateZeroed_yields (Outcome.map_payload told))
    · exact .inl (prior grant before)
  case h_5 same =>
    cases same
    rcases List.mem_cons.mp member with rfl | before
    · exact .inr (Layout.reallocate_yields (Outcome.map_payload told))
    · exact .inl (prior grant (List.mem_of_mem_eraseP before))
  case h_6 => exact .inl (prior grant (List.mem_of_mem_eraseP member))
  case h_7 | h_8 => exact .inl (kept _ _ _ member)
  case h_9 => exact .inl (prior grant member)

namespace Valid

theorem yields_least (valid : Valid free ledger) (yields : ledger.Yields build size align payload) :
    build.Considers size align ∧ IsLeast {q | ledger.Fits (Word.rounded size.toNat 16)
      (Word.rounded align.toNat 16) q} payload.toNat := by
  obtain ⟨_,_,considers,_⟩ := valid.placed yields
  obtain ⟨answer,told,least,_⟩ := valid.answer considers
  refine ⟨considers,least payload ?_⟩
  exact Except.ok.inj (told.symm.trans yields)

theorem yields_of_fits (valid : Valid free ledger) (considers : build.Considers size align)
    (fits : ledger.Fits (Word.rounded size.toNat 16) (Word.rounded align.toNat 16) q) :
    ∃ payload, ledger.Yields build size align payload ∧ payload.toNat ≤ q := by
  obtain ⟨answer,told,least,nowhere⟩ := valid.answer considers
  cases answer with
  | none => exact absurd fits (nowhere rfl q)
  | some payload => exact ⟨payload,told,(least payload rfl).2 fits⟩

theorem yields_of_fewer (valid : Valid free left) (twin : Valid others right)
    (arena : left.state.heap.arena = right.state.heap.arena)
    (fewer : ∀ n, left.Reserves n → right.Reserves n) (aligns : build.Aligns align)
    (yields : right.Yields other size align payload) :
    ∃ lower, left.Yields build size align lower ∧ lower.toNat ≤ payload.toNat := by
  obtain ⟨considers,least⟩ := twin.yields_least yields
  obtain ⟨sized,aligned,_⟩ := Build.considers_iff.mp considers
  have back := least.1.back
  rw [← arena] at back
  exact valid.yields_of_fits (Build.considers_iff.mpr ⟨sized,aligned,aligns⟩)
    (least.1.of_fewer (congrArg Span.start arena) back fun n _ => fewer n)

theorem yields_smaller (valid : Valid free ledger) (yields : ledger.Yields build size align payload)
    (considers : build.Considers smaller finer) (less : smaller ≤ size)
    (divides : Word.rounded finer.toNat 16 ∣ Word.rounded align.toNat 16) :
    ∃ lower, ledger.Yields build smaller finer lower ∧ lower.toNat ≤ payload.toNat := by
  obtain ⟨_,least⟩ := valid.yields_least yields
  have fewer := Word.rounded_mono (UInt64.le_iff_toNat_le.mp less) (Nat.succ_pos 15)
  exact valid.yields_of_fits considers (least.1.of_smaller fewer divides)

theorem reserves_iff (valid : Valid free ledger) :
    ledger.Reserves n ↔ ∃ grant ∈ ledger.grants, grant.block.Has n := by
  constructor
  · rintro ⟨_,⟨grant,member,rfl⟩,has⟩
    rw [valid.reservation member] at has
    exact ⟨grant,member,has⟩
  · rintro ⟨grant,member,has⟩
    refine ⟨grant.payload,⟨grant,member,rfl⟩,?_⟩
    rwa [valid.reservation member]

theorem reserves_of_subset (valid : Valid free left) (twin : Valid others right)
    (kept : left.grants ⊆ right.grants) (reserves : left.Reserves n) : right.Reserves n := by
  obtain ⟨grant,member,has⟩ := valid.reserves_iff.mp reserves
  exact twin.reserves_iff.mpr ⟨grant,kept member,has⟩

theorem withdraws (valid : Valid free ledger) (build : Build) (member : grant ∈ ledger.grants)
    (through : Address) : ledger.after build ⟨.release (some grant.payload),through⟩ =
      ⟨ledger.state.changed ledger.state.heap.arena (.give grant.block free),
        ledger.withdrawn grant.payload⟩ := by
  simp only [Ledger.after,State.perform,valid.release_eq build member]
  rfl

theorem mem_withdrawn_iff (valid : Valid free ledger) :
    grant ∈ ledger.withdrawn payload ↔ grant ∈ ledger.grants ∧ grant.payload ≠ payload := by
  constructor
  · intro member
    have kept := (valid.tagged_withdrawn payload grant.tag).mp ⟨grant,member,rfl⟩
    exact ⟨List.mem_of_mem_eraseP member,kept.2⟩
  · rintro ⟨member,differ⟩
    exact Ledger.mem_withdrawn member differ.symm

theorem released (valid : Valid free ledger) (build : Build) (member : grant ∈ ledger.grants)
    (through : Address) :
    ∃ later, Valid later (ledger.after build ⟨.release (some grant.payload),through⟩) := by
  refine valid.after build ?_
  rintro _ ⟨⟩
  exact ⟨grant,member,rfl⟩

theorem fits_released (valid : Valid free ledger) (build : Build) (member : grant ∈ ledger.grants)
    (met : grant.toHeld.Met build) (through : Address) :
    (ledger.after build ⟨.release (some grant.payload),through⟩).Fits
      (Word.rounded grant.size.toNat 16) (Word.rounded grant.align.toNat 16)
      grant.payload.toNat := by
  obtain ⟨_,next⟩ := valid.released build member through
  rw [valid.withdraws build member through] at next ⊢
  have sound := valid.sound grant member
  have start := sound.start
  obtain ⟨slack,_,stop⟩ := sound.stop
  have inside := valid.inside member
  refine ⟨met.multiple,?_,?_,?_⟩
  · change ledger.state.heap.arena.start.toNat + 16 ≤ _
    omega
  · change _ ≤ ledger.state.heap.arena.stop.toNat
    omega
  · intro other kept n low high
    obtain ⟨granted,differ⟩ := valid.mem_withdrawn_iff.mp kept
    rw [next.reservation kept]
    refine (valid.apart_of_payload member granted differ.symm).not_both ?_
    exact ⟨by omega,by omega⟩

theorem requests_arena (valid : Valid free ledger) (permitted : Ledger.Permitted build ledger actions)
    (asks : ∀ action ∈ actions, action.call.Requests) :
    (ledger.run build actions).state.heap.arena = ledger.state.heap.arena := by
  induction actions generalizing ledger free with
  | nil => rfl
  | cons action rest ih =>
    obtain ⟨allowed,others⟩ := permitted
    obtain ⟨first,later⟩ := List.forall_mem_cons.mp asks
    obtain ⟨_,next⟩ := valid.after build allowed
    refine (ih next others later).trans ?_
    rcases valid.stays_or_follows build allowed with stays | ⟨plan,planned,follows⟩
    · rw [stays]
    · rw [follows.state]
      refine planned.arena.resolve_right ?_
      rintro ⟨_,given,adopts,_⟩
      rw [adopts] at first
      exact first

end Valid

-- A mere request is always allowed, and leaves every allocation to itself.
theorem Action.of_requests (asks : action.call.Requests) :
    (∀ ledger : Ledger, ledger.Allowed action) ∧ ∀ payload, action.Spares payload := by
  obtain ⟨call,through⟩ := action
  cases call with
  | allocate | allocateAligned | allocateLayout | allocateZeroed =>
    exact ⟨fun _ => trivial,fun _ => trivial⟩
  | adopt | reallocate | release | store | load | copy | header | arena | advance =>
    exact False.elim asks

theorem Ledger.permitted_requests (build : Build) (ledger : Ledger)
    (asks : ∀ action ∈ actions, action.call.Requests) : Permitted build ledger actions := by
  induction actions generalizing ledger with
  | nil => trivial
  | cons action rest ih =>
    obtain ⟨first,later⟩ := List.forall_mem_cons.mp asks
    exact ⟨(Action.of_requests first).1 ledger,ih _ later⟩

-- Each allocation that is out lies where the request that it answers could be met.
theorem Reached.met (reached : Reached build ledger) :
    ∀ held ∈ ledger.grants.map Grant.toHeld, held.Met build := by
  induction reached with
  | start memory => nofun
  | step prior allowed ih =>
    intro held member
    obtain ⟨grant,granted,rfl⟩ := List.mem_map.mp member
    rcases Ledger.grant_after granted with before | yields
    · exact ih _ before
    · obtain ⟨considers,least⟩ := prior.valid.yields_least yields
      exact ⟨considers,least.1.multiple⟩

-- The fewer bytes are reserved, the more requests are met and the lower they are met, and so it is
-- with smaller requests of coarser alignments. Giving back an allocation spoils no request, and
-- taking one helps none.
theorem Reached.room_monotone (reached : Reached build ledger) :
    (∀ former other, Reached former other → ledger.state.heap.arena = other.state.heap.arena →
      (∀ n, ledger.Reserves n → other.Reserves n) → ∀ size align payload,
        other.Yields former size align payload → build.Aligns align →
          ∃ lower, ledger.Yields build size align lower ∧ lower.toNat ≤ payload.toNat) ∧
      (∀ size align payload, ledger.Yields build size align payload →
        ∀ smaller finer, 0 < smaller → smaller ≤ size → 0 < finer → build.Aligns finer →
          Word.rounded finer.toNat 16 ∣ Word.rounded align.toNat 16 →
            ∃ lower, ledger.Yields build smaller finer lower ∧ lower.toNat ≤ payload.toNat) ∧
      (∀ given through, ledger.Owns given → ∀ size align payload,
        ledger.Yields build size align payload → ∃ lower,
          (ledger.after build ⟨.release (some given),through⟩).Yields build size align lower ∧
            lower.toNat ≤ payload.toNat) ∧
      (∀ actions, (∀ action ∈ actions, action.call.Requests) → ∀ size align payload,
        (ledger.run build actions).Yields build size align payload →
          ∃ lower, ledger.Yields build size align lower ∧ lower.toNat ≤ payload.toNat) ∧
      ∀ grant ∈ ledger.grants, ∀ through, ∃ lower,
        (ledger.after build ⟨.release (some grant.payload),through⟩).Yields build grant.size
          grant.align lower ∧ lower.toNat ≤ grant.payload.toNat := by
  have valid := reached.valid
  refine ⟨?_,?_,?_,?_,?_⟩
  · intro former other arrived arena fewer size align payload yields aligns
    exact valid.yields_of_fewer arrived.valid arena fewer aligns yields
  · intro size align payload yields smaller finer some less positive aligns divides
    have considers : build.Considers smaller finer :=
      Build.considers_iff.mpr ⟨(UInt64.ne_of_lt some).symm,(UInt64.ne_of_lt positive).symm,aligns⟩
    exact valid.yields_smaller yields considers less divides
  · rintro _ through ⟨grant,member,rfl⟩ size align payload yields
    obtain ⟨_,_,aligns⟩ := Build.considers_iff.mp (valid.yields_least yields).1
    obtain ⟨_,next⟩ := valid.released build member through
    rw [valid.withdraws build member through] at next ⊢
    refine next.yields_of_fewer valid rfl ?_ aligns yields
    exact fun n => next.reserves_of_subset valid List.eraseP_subset
  · intro actions asks size align payload yields
    have permitted := Ledger.permitted_requests build ledger asks
    have final := (reached.run permitted).valid
    obtain ⟨_,_,aligns⟩ := Build.considers_iff.mp (final.yields_least yields).1
    refine valid.yields_of_fewer final (valid.requests_arena permitted asks).symm ?_ aligns yields
    refine fun n => valid.reserves_of_subset final fun grant member => ?_
    exact Ledger.run_spares (fun action asked => (Action.of_requests (asks action asked)).2 _) member
  · intro grant member through
    have met := reached.met grant.toHeld (List.mem_map_of_mem member)
    obtain ⟨_,next⟩ := valid.released build member through
    exact next.yields_of_fits met.considers (valid.fits_released build member met through)

theorem exercised_room :
    (∃ lower, Ledger.exercised.Yields .plain 17 5 lower ∧ lower.toNat ≤ 0x10020) ∧
      ∃ lower, (Ledger.exercised.after .plain ⟨.release (some 0x10060),0⟩).Yields .plain 20 32
        lower ∧ lower.toNat ≤ 0x10060 := by
  obtain ⟨_,within,_,_,returns⟩ := Reached.room_monotone Reached.exercised
  have yields : Ledger.exercised.Yields .plain 32 48 0x10020 := by
    unfold Ledger.Yields
    decide +kernel
  have out : Held.mk 0x10060 20 32 ∈ Ledger.exercised.grants.map Grant.toHeld := by decide +kernel
  obtain ⟨grant,member,held⟩ := List.mem_map.mp out
  have again := returns grant member 0
  rw [held] at again
  exact ⟨within 32 48 0x10020 yields 17 5 (by decide) (by decide) (by decide) nofun (by decide),again⟩

-- An alignment of two granules that is no power of two stops a checked build.
theorem odd_alignment_stops : ¬ ∀ build ledger, Reached build ledger → ∀ size align payload,
    ledger.Yields build size align payload → ∀ smaller finer, 0 < smaller → smaller ≤ size →
      0 < finer → Word.rounded finer.toNat 16 ∣ Word.rounded align.toNat 16 →
        ∃ lower, ledger.Yields build smaller finer lower ∧ lower.toNat ≤ payload.toNat := by
  intro monotone
  let ledger := Ledger.run .checked {} [⟨.adopt ⟨0x10000,0x10100⟩,0⟩]
  have reached : Reached .checked ledger := (Reached.start {}).run (by decide +kernel)
  have yields : ledger.Yields .checked 16 32 0x10020 := by
    unfold Ledger.Yields
    decide +kernel
  obtain ⟨lower,met,_⟩ := monotone .checked ledger reached 16 32 0x10020 yields 16 24
    (by decide) (by decide) (by decide) (by decide)
  have stops : (ledger.state.allocateAligned .checked 16 24).result = .error (.powerOfTwo 24) := by
    decide +kernel
  cases stops.symm.trans met

end FreeListHeap
