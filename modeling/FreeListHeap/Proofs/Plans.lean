import FreeListHeap.Proofs.Builds
import FreeListHeap.Proofs.Canonical
import FreeListHeap.Proofs.Footprint

namespace FreeListHeap

-- What an action comes to, as it is decided before any of the bytes that allocations hold are
-- looked at.
structure Plan where
  answer : Answer
  heap : Heap
  stores : List Store := []
  log : List LogLine := []
  freed : Option Address := none
  handed : Option (Address × Header) := none

namespace Plan

def outcome (plan : Plan) (memory : Memory) : Outcome Answer :=
  ⟨.ok plan.answer,⟨plan.heap,memory.carryOut plan.stores⟩,plan.log⟩

-- The allocations that are out afterwards.
def settle (plan : Plan) (live : Set (Address × Header)) : Set (Address × Header) :=
  {tag | tag ∈ live ∧ some tag.1 ≠ plan.freed ∨ some tag = plan.handed}

end Plan

variable {build : Build} {size align : Word} {ledger other : Ledger} {free : List Block}
  {action : Action} {plan : Plan} {payload old address first target source through : Address}
  {bytes : List UInt8} {placement : Placement} {grant : Grant} {layout : Layout}

-- The heap does what the plan says, whatever it finds in memory.
structure Ledger.Follows (build : Build) (ledger : Ledger) (action : Action) (plan : Plan) :
    Prop where
  performs : ledger.state.perform build action.call = plan.outcome ledger.state.memory
  settles : (ledger.after build action).live = plan.settle ledger.live

-- A plan for every heap with these free blocks and with the same allocations out. What it touches
-- lies in the arena, and what it hands out was not out before.
structure Ledger.Planned (build : Build) (ledger : Ledger) (free : List Block) (action : Action)
    (plan : Plan) : Prop where
  follows : ∀ other, Valid free other → ledger.Alike other → other.Follows build action plan
  arena : plan.heap.arena = ledger.state.heap.arena ∨ ledger.state.heap.arena.isEmpty ∧
    ∃ given, action.call = .adopt given ∧ given.arena? = .ok plan.heap.arena
  holds : plan.heap.arena.Holds plan.stores
  fresh : ∀ tag ∈ plan.handed, ¬ ledger.Owns tag.1

def Grant.tag (grant : Grant) : Address × Header :=
  (grant.payload,grant.header)

namespace Ledger

theorem after_state (build : Build) (ledger : Ledger) (action : Action) :
    (ledger.after build action).state = (ledger.state.perform build action.call).state := by
  unfold after
  dsimp only
  split <;> rfl

theorem Follows.state (follows : ledger.Follows build action plan) :
    (ledger.after build action).state =
      ⟨plan.heap,ledger.state.memory.carryOut plan.stores⟩ := by
  rw [after_state,follows.performs]
  rfl

theorem tagged_stored (through address : Address) (bytes : List UInt8) (tag : Address × Header) :
    (∃ grant ∈ ledger.stored through address bytes, grant.tag = tag) ↔
      ∃ grant ∈ ledger.grants, grant.tag = tag := by
  have same : ∀ grant : Grant,
      (if grant.payload = through then grant.store address bytes else grant).tag = grant.tag := by
    intro grant
    split <;> rfl
  simp [stored,same]

-- One more allocation, told in the way of a plan that takes nothing back.
theorem tagged_cons {first : Grant} {rest : List Grant} {tag : Address × Header} :
    (∃ grant ∈ first :: rest, grant.tag = tag) ↔
      (∃ grant ∈ rest, grant.tag = tag) ∧ some tag.1 ≠ none ∨ some tag = some first.tag := by
  simp [or_comm,eq_comm]

end Ledger

namespace Valid

theorem live_eq (valid : Valid free ledger) :
    ledger.live = {tag | ∃ grant ∈ ledger.grants, grant.tag = tag} := by
  ext ⟨payload,header⟩
  rw [valid.mem_live]
  exact exists_congr fun grant => and_congr_right fun _ => Prod.mk_inj.symm

theorem tagged_withdrawn (valid : Valid free ledger) (payload : Address) (tag : Address × Header) :
    (∃ grant ∈ ledger.withdrawn payload, grant.tag = tag) ↔
      (∃ grant ∈ ledger.grants, grant.tag = tag) ∧ tag.1 ≠ payload := by
  constructor
  · rintro ⟨grant,member,rfl⟩
    have granted : grant ∈ ledger.grants := List.mem_of_mem_eraseP member
    refine ⟨⟨grant,granted,rfl⟩,?_⟩
    rintro rfl
    obtain ⟨twin,front,back,_,found,parts,rest⟩ :=
      List.exists_of_eraseP (p := (·.payload = grant.tag.1)) granted (decide_eq_true rfl)
    have distinct := valid.distinct
    rw [Ledger.withdrawn,rest] at member
    rw [parts,List.pairwise_middle fun differ => differ.symm] at distinct
    exact (List.pairwise_cons.mp distinct).1 grant member (of_decide_eq_true found)
  · rintro ⟨⟨grant,member,rfl⟩,differ⟩
    exact ⟨grant,Ledger.mem_withdrawn member differ.symm,rfl⟩

theorem settles (valid : Valid free ledger) (allowed : ledger.Allowed action)
    (performs : ledger.state.perform .plain action.call = plan.outcome ledger.state.memory)
    (tags : ∀ tag, (∃ grant ∈ ledger.settle .plain action plan.answer, grant.tag = tag) ↔
      (∃ grant ∈ ledger.grants, grant.tag = tag) ∧ some tag.1 ≠ plan.freed ∨
        some tag = plan.handed) : ledger.Follows .plain action plan := by
  obtain ⟨later,next⟩ := valid.after .plain allowed
  refine ⟨performs,?_⟩
  have grants : (ledger.after .plain action).grants = ledger.settle .plain action plan.answer := by
    rw [Ledger.after,performs]
    rfl
  rw [next.live_eq,grants,Plan.settle,valid.live_eq]
  exact Set.ext tags

end Valid

-- Where every heap with these free blocks puts a request.
structure Placement.Serves (placement : Placement) (free : List Block) (size align : Word) :
    Prop where
  found : ∃ request : Request, request.Whole ∧ find? request free = some placement
  rounds : Word.rounded size.toNat 16 = placement.size.toNat
  outcome : ∀ ledger, Valid free ledger → ledger.state.allocateAligned .plain size align =
    ⟨.ok (some placement.payload),
      ledger.state.changed ledger.state.heap.arena (.take placement),[]⟩

-- What a request comes to is decided by the free blocks.
theorem requested (free : List Block) (size align : Word) :
    (∃ log, ∀ ledger, Valid free ledger →
      ledger.state.allocateAligned .plain size align = ⟨.ok none,ledger.state,log⟩) ∨
    ∃ placement : Placement, placement.Serves free size align := by
  by_cases nothing : size = 0 ∨ align = 0
  · refine .inl ⟨[],fun ledger _ => ?_⟩
    rw [State.allocateAligned,if_pos nothing]
    rfl
  obtain ⟨sized,aligned⟩ := not_or.mp nothing
  cases rounds : Request.ofBytes? size align with
  | none =>
    refine .inl ⟨[],fun ledger _ => ?_⟩
    rw [State.allocateAligned,if_neg nothing,Build.plain_failure,rounds]
    rfl
  | some request =>
    cases found : Placement.find? request free with
    | none =>
      refine .inl ⟨[.noFit request],fun ledger valid => ?_⟩
      simp only [State.allocateAligned,if_neg nothing,Build.plain_failure,rounds,valid.freeBlocks,
        found]
    | some placement =>
      have fits := (Placement.find?_some found).2.2.1
      refine .inr ⟨placement,⟨request,Request.ofBytes?_whole rounds sized aligned,found⟩,?_,?_⟩
      · rw [fits,(Request.ofBytes?_some.mp rounds).1]
      · intro ledger valid
        simp only [State.allocateAligned,if_neg nothing,Build.plain_failure,rounds,
          valid.freeBlocks,found]
        rfl

namespace Placement.Serves

variable (serves : placement.Serves free size align) (valid : Valid free ledger)

include serves valid

theorem taken : Valid placement.remaining
    ⟨ledger.state.changed ledger.state.heap.arena (.take placement),
      placement.handed size align :: ledger.grants⟩ := by
  obtain ⟨request,asked,found⟩ := serves.found
  exact valid.take found asked size align serves.rounds

theorem spares : ∀ grant ∈ ledger.grants, ∀ address : Address, grant.block.Has address.toNat →
    (ledger.state.changed ledger.state.heap.arena (.take placement)).memory.read address =
      ledger.state.memory.read address := by
  obtain ⟨request,asked,found⟩ := serves.found
  intro grant member
  exact valid.take_spares found asked member

theorem granted : ledger.granted .plain ⟨placement.payload,size,align⟩ =
    placement.handed size align := by
  obtain ⟨request,asked,found⟩ := serves.found
  exact valid.granted_eq found asked (serves.outcome ledger valid)

theorem fresh : ¬ ledger.Owns placement.payload := by
  rintro ⟨grant,member,same⟩
  exact (List.pairwise_cons.mp (serves.taken valid).distinct).1 grant member same.symm

theorem holds : ledger.state.heap.arena.Holds ((Change.take placement).edits.map .record) := by
  obtain ⟨request,asked,found⟩ := serves.found
  have sound := valid.placement_sound found asked
  have listed := valid.listed
  obtain ⟨rfl,_⟩ := Placement.find?_some found
  exact Span.holds_records listed.whole listed.inside (Change.take_within listed sound)

end Placement.Serves

namespace Valid

-- The plan of a call that leaves everything as it is.
theorem planned_idle (valid : Valid free ledger) (allowed : ledger.Allowed action) (answer : Answer)
    (log : List LogLine) (performs : ∀ other, Valid free other → ledger.Alike other →
      other.state.perform .plain action.call = ⟨.ok answer,other.state,log⟩)
    (settles : ∀ other : Ledger, other.settle .plain action answer = other.grants) :
    ∃ plan, ledger.Planned .plain free action plan := by
  refine ⟨{answer, heap := ledger.state.heap, log},?_,.inl rfl,nofun,nofun⟩
  intro other twin alike
  refine twin.settles (alike.allowed allowed) ?_ ?_
  · rw [performs other twin alike,valid.same_heap twin alike]
    rfl
  · intro tag
    rw [settles]
    simp

theorem planned_request (valid : Valid free ledger) (allowed : ledger.Allowed action)
    (size align : Word) (refused : ∀ (other : Ledger) log,
      other.state.allocateAligned .plain size align = ⟨.ok none,other.state,log⟩ →
        other.state.perform .plain action.call = ⟨.ok (.payload none),other.state,log⟩)
    (nothing : ∀ other : Ledger, other.settle .plain action (.payload none) = other.grants)
    (something : ∀ placement : Placement, placement.Serves free size align →
      ∃ plan, ledger.Planned .plain free action plan) : ∃ plan, ledger.Planned .plain free action plan := by
  rcases requested free size align with ⟨log,refusal⟩ | ⟨placement,serves⟩
  · exact valid.planned_idle allowed (.payload none) log
      (fun other twin _ => refused other log (refusal other twin)) nothing
  · exact something placement serves

-- The calls that do no more than hand out an allocation.
theorem planned_allocate (valid : Valid free ledger) (allowed : ledger.Allowed action)
    (performs : ∀ other : Ledger, other.state.perform .plain action.call =
      (other.state.allocateAligned .plain size align).map .payload)
    (nothing : ∀ other : Ledger, other.settle .plain action (.payload none) = other.grants)
    (handed : ∀ (other : Ledger) payload, other.settle .plain action (.payload (some payload)) =
      other.granted .plain ⟨payload,size,align⟩ :: other.grants) :
    ∃ plan, ledger.Planned .plain free action plan := by
  refine valid.planned_request allowed size align ?_ nothing fun placement serves => ?_
  · intro other log refusal
    rw [performs,refusal]
    rfl
  · let plan : Plan := {
      answer := .payload (some placement.payload)
      heap := ⟨FreeList.link placement.remaining,ledger.state.heap.arena⟩
      stores := (Change.take placement).edits.map .record
      handed := some (placement.payload,placement.header)}
    refine ⟨plan,?_,.inl rfl,serves.holds valid,?_⟩
    · intro other twin alike
      refine twin.settles (alike.allowed allowed) ?_ fun tag => ?_
      · rw [performs,serves.outcome other twin,Plan.outcome,Memory.carryOut_records,← alike.arena]
        rfl
      · rw [handed,serves.granted twin]
        exact Ledger.tagged_cons
    · rintro _ ⟨⟩
      exact serves.fresh valid

theorem covers_inside (valid : Valid free ledger) (covers : ledger.Covers payload first count)
    (near : (address - first).toNat < count) : ledger.state.heap.arena.Has address.toNat := by
  obtain ⟨⟨owner,owned,rfl⟩,range⟩ := covers
  rw [valid.reservation owned] at range
  have bounds := range _ near
  have sound := valid.sound owner owned
  have bounded := sound.whole.bounded
  have start := sound.start
  have inside := valid.inside owned
  have place : (first + (address - first)).toNat = first.toNat + (address - first).toNat :=
    Word.toNat_add (by omega)
  rw [show first + (address - first) = address by grind] at place
  unfold Span.Has
  omega

theorem holds_bytes (valid : Valid free ledger)
    (covers : ledger.Covers payload address bytes.length) :
    ledger.state.heap.arena.Holds [.bytes address bytes] := by
  refine List.forall_mem_singleton.mpr fun other touched => ?_
  rcases touched with near | nothing
  · exact valid.covers_inside covers near
  · exact absurd nothing id

theorem holds_carry (valid : Valid free ledger) (covers : ledger.Covers payload target count)
    (reaches : ledger.Covers old source count) :
    ledger.state.heap.arena.Holds [.carry target source count] := by
  refine List.forall_mem_singleton.mpr fun other touched => ?_
  rcases touched with near | near
  · exact valid.covers_inside covers near
  · exact valid.covers_inside reaches near

theorem holds_give (valid : Valid free ledger) (member : grant ∈ ledger.grants) :
    ledger.state.heap.arena.Holds ((Change.give grant.block free).edits.map .record) := by
  obtain ⟨front,back,parts⟩ := List.append_of_mem member
  have returns := valid.returns parts
  refine Span.holds_records returns.whole ?_ returns.within
  exact List.forall_mem_cons.mpr ⟨valid.inside member,valid.listed.inside⟩

theorem planned_allocateZeroed (valid : Valid free ledger) (layout : Layout) (through : Address) :
    ∃ plan, ledger.Planned .plain free ⟨.allocateZeroed layout,through⟩ plan := by
  refine valid.planned_request trivial layout.size layout.align ?_ (fun _ => rfl) ?_
  · intro other log refusal
    simp only [State.perform,Layout.allocateZeroed,Layout.allocate,refusal]
    rfl
  intro placement serves
  let plan : Plan := {
    answer := .payload (some placement.payload)
    heap := ⟨FreeList.link placement.remaining,ledger.state.heap.arena⟩
    stores := (Change.take placement).edits.map .record ++
      [.bytes placement.payload (List.replicate layout.size.toNat 0)]
    handed := some (placement.payload,placement.header)}
  refine ⟨plan,?_,.inl rfl,(serves.holds valid).append ?_,?_⟩
  · intro other twin alike
    refine twin.settles trivial ?_ fun tag => ?_
    · simp only [State.perform,Layout.allocateZeroed,Layout.allocate,serves.outcome other twin]
      rw [Plan.outcome,Memory.carryOut_append,Memory.carryOut_records,← alike.arena]
      rfl
    · change (∃ grant ∈ (other.granted .plain ⟨placement.payload,layout.size,layout.align⟩).store _ _
        :: other.grants,grant.tag = tag) ↔ _
      rw [serves.granted twin]
      exact Ledger.tagged_cons
  · have taken := serves.taken valid
    have covers := taken.covers List.mem_cons_self (Nat.le_refl _)
    change Ledger.Covers _ _ _ layout.size.toNat at covers
    rw [← List.length_replicate (n := layout.size.toNat) (a := (0 : UInt8))] at covers
    exact taken.holds_bytes covers
  · rintro _ ⟨⟩
    exact serves.fresh valid

-- What a release comes to is decided by the reservation that comes back.
theorem release_alike (twin : Valid free other) (alike : ledger.Alike other)
    (owns : ledger.Owns payload) :
    other.state.release .plain (some payload) = ⟨.ok (),other.state.changed other.state.heap.arena
      (.give (ledger.state.reservation payload) free),[]⟩ := by
  obtain ⟨owner,owned,rfl⟩ := (alike.header owns).1
  rw [twin.release_eq .plain owned,← alike.reservation owns,twin.reservation owned]

-- A move, once it is known where the new allocation goes: what both have room for is carried over
-- before the old one comes back.
theorem reallocate_alike (twin : Valid free other) (alike : ledger.Alike other)
    (serves : placement.Serves free layout.size layout.align)
    (covers : ledger.Covers old old size.toNat) :
    layout.reallocate .plain other.state old size =
      ⟨.ok (some placement.payload),State.changed
        ⟨⟨FreeList.link placement.remaining,other.state.heap.arena⟩,
          (other.state.memory.apply (Change.take placement).edits).forward placement.payload old
            (min size layout.size).toNat⟩
        other.state.heap.arena (.give (ledger.state.reservation old) placement.remaining),[]⟩ := by
  have filled := (serves.taken twin).filled twin (covers_min (alike.covers covers) layout.size)
    (min_toNat size layout.size).2 (serves.spares twin)
  obtain ⟨⟨owner,owned,rfl⟩,_⟩ := alike.header covers.1
  have released := filled.release_eq .plain (List.mem_cons_of_mem _ owned)
  rw [← twin.reservation owned,alike.reservation covers.1] at released
  change State.release .plain ⟨_,(other.state.changed other.state.heap.arena _).memory.forward
    placement.payload _ _⟩ _ = _ at released
  simp only [Layout.reallocate,Layout.allocate,serves.outcome other twin,released]
  rfl

theorem holds_move (valid : Valid free ledger)
    (serves : placement.Serves free layout.size layout.align)
    (covers : ledger.Covers old old size.toNat) : ledger.state.heap.arena.Holds
      ((Change.take placement).edits.map .record ++
        [.carry placement.payload old (min size layout.size).toNat] ++
        (Change.give (ledger.state.reservation old) placement.remaining).edits.map .record) := by
  obtain ⟨owner,owned,rfl⟩ := covers.1
  have taken := serves.taken valid
  have kept : owner ∈ placement.handed layout.size layout.align :: ledger.grants :=
    List.mem_cons_of_mem _ owned
  refine ((serves.holds valid).append ?_).append ?_
  · have old := covers_min covers layout.size
    rw [Ledger.Covers,valid.reservation owned,← taken.reservation kept] at old
    have new := taken.covers List.mem_cons_self (min_toNat size layout.size).2
    exact taken.holds_carry new ⟨⟨owner,kept,rfl⟩,old.2⟩
  · have given := taken.holds_give kept
    rwa [← valid.reservation owned] at given

theorem planned_reallocate (valid : Valid free ledger) (layout : Layout)
    (allowed : ledger.Covers old old size.toNat) (through : Address) :
    ∃ plan, ledger.Planned .plain free ⟨.reallocate old size layout,through⟩ plan := by
  refine valid.planned_request allowed layout.size layout.align ?_ (fun _ => rfl) ?_
  · intro other log refusal
    simp only [State.perform,Layout.reallocate,Layout.allocate,refusal]
    rfl
  intro placement serves
  let block := ledger.state.reservation old
  let plan : Plan := {
    answer := .payload (some placement.payload)
    heap := ⟨FreeList.link (FreeList.insert block placement.remaining),ledger.state.heap.arena⟩
    stores := (Change.take placement).edits.map .record ++
      [.carry placement.payload old (min size layout.size).toNat] ++
      (Change.give block placement.remaining).edits.map .record
    freed := some old
    handed := some (placement.payload,placement.header)}
  refine ⟨plan,?_,.inl rfl,valid.holds_move serves allowed,?_⟩
  · intro other twin alike
    have moves : Ledger.Allowed ledger ⟨.reallocate old size layout,through⟩ := allowed
    refine twin.settles (alike.allowed moves) ?_ fun tag => ?_
    · rw [State.perform,twin.reallocate_alike alike serves allowed,Plan.outcome,
        Memory.carryOut_append,Memory.carryOut_append,Memory.carryOut_records,
        Memory.carryOut_records,← alike.arena]
      rfl
    · change (∃ grant ∈ (other.granted .plain ⟨placement.payload,layout.size,layout.align⟩).store _ _
        :: other.withdrawn old,grant.tag = tag) ↔ _
      rw [serves.granted twin,Ledger.tagged_cons]
      simp only [twin.tagged_withdrawn]
      simp [plan,Grant.tag,Grant.store,Placement.handed]
  · rintro _ ⟨⟩
    exact serves.fresh valid

theorem planned_release (valid : Valid free ledger) (owns : ledger.Owns payload)
    (through : Address) : ledger.Planned .plain free ⟨.release (some payload),through⟩
      {answer := .done
       heap := ⟨FreeList.link (FreeList.insert (ledger.state.reservation payload) free),
        ledger.state.heap.arena⟩
       stores := (Change.give (ledger.state.reservation payload) free).edits.map .record
       freed := some payload} := by
  refine ⟨?_,.inl rfl,?_,nofun⟩
  · intro other twin alike
    have releases : Ledger.Allowed ledger ⟨.release (some payload),through⟩ := by
      rintro _ ⟨⟩
      exact owns
    refine twin.settles (alike.allowed releases) ?_ fun tag => ?_
    · rw [State.perform,twin.release_alike alike owns,Plan.outcome,Memory.carryOut_records,
        ← alike.arena]
      rfl
    · change (∃ grant ∈ other.withdrawn payload,grant.tag = tag) ↔ _
      rw [twin.tagged_withdrawn]
      simp
  · obtain ⟨owner,owned,rfl⟩ := owns
    have given := valid.holds_give owned
    rwa [← valid.reservation owned] at given

theorem planned_store (valid : Valid free ledger)
    (allowed : ledger.Covers through address bytes.length) :
    ledger.Planned .plain free ⟨.store address bytes,through⟩
      {answer := .done, heap := ledger.state.heap, stores := [.bytes address bytes]} := by
  refine ⟨?_,.inl rfl,valid.holds_bytes allowed,nofun⟩
  intro other twin alike
  have stores : Ledger.Allowed ledger ⟨.store address bytes,through⟩ := allowed
  refine twin.settles (alike.allowed stores) ?_ fun tag => ?_
  · rw [Plan.outcome,valid.same_heap twin alike]
    rfl
  · exact (other.tagged_stored through address bytes tag).trans (by simp)

theorem planned_copy (valid : Valid free ledger)
    (allowed : ledger.Covers through target size.toNat)
    (reaches : ∃ grant ∈ ledger.grants, ledger.Covers grant.payload source size.toNat) :
    ∃ plan, ledger.Planned .plain free ⟨.copy target source size,through⟩ plan := by
  let plan : Plan := {
    answer := .address target
    heap := ledger.state.heap
    stores := [.carry target source size.toNat]}
  obtain ⟨grant,_,covers⟩ := id reaches
  refine ⟨plan,?_,.inl rfl,valid.holds_carry allowed covers,nofun⟩
  intro other twin alike
  have copies : Ledger.Allowed ledger ⟨.copy target source size,through⟩ := ⟨allowed,reaches⟩
  refine twin.settles (alike.allowed copies) ?_ fun tag => ?_
  · rw [Plan.outcome,show plan.heap = other.state.heap from valid.same_heap twin alike]
    rfl
  · exact (other.tagged_stored through target _ tag).trans (by simp [plan])

theorem planned_adopt (valid : Valid free ledger) (given : Span) (through : Address)
    (allowed : ledger.state.heap.arena.isEmpty → given.Exists) :
    ∃ plan, ledger.Planned .plain free ⟨.adopt given,through⟩ plan := by
  have adopts : Ledger.Allowed ledger ⟨.adopt given,through⟩ := allowed
  by_cases none : ledger.state.heap.arena.isEmpty
  case neg =>
    let error : ArenaError := .alreadyManaging ledger.state.heap.arena
    refine valid.planned_idle adopts (.refused error) [] (fun other _ alike => ?_) fun _ => rfl
    rw [State.perform,State.adopt,← alike.arena,if_pos none]
    rfl
  cases taken : given.arena? with
  | error error =>
    refine valid.planned_idle adopts (.refused error) [] (fun other _ alike => ?_) fun _ => rfl
    rw [State.perform,State.adopt,← alike.arena,if_neg (not_not.mpr none),taken]
    rfl
  | ok arena =>
    let block : Block := ⟨arena.start,arena.length⟩
    let plan : Plan := {
      answer := .adopted
      heap := ⟨FreeList.link [block],arena⟩
      stores := (Change.single block).edits.map .record
      log := [.arenaReady arena]}
    have nonzero : arena.start ≠ 0 := allowed none arena (by rw [taken]; rfl)
    obtain ⟨sound,tiles⟩ := single taken nonzero ledger.state.memory
    refine ⟨plan,?_,.inr ⟨none,given,rfl,taken⟩,?_,?_⟩
    · intro other twin alike
      refine twin.settles (alike.allowed adopts) ?_ fun tag => ?_
      · rw [State.perform,State.adopt,← alike.arena,if_neg (not_not.mpr none),taken,Plan.outcome,
          Memory.carryOut_records]
        rfl
      · change (∃ grant ∈ other.grants,grant.tag = tag) ↔ _
        simp [plan]
    · exact Span.holds_records sound.fresh tiles.inside (FreeList.nodes_inside sound.fresh)
    · rintro _ ⟨⟩

-- Whatever a client may do, apart from looking at the bytes of its allocations, is decided by the
-- allocations that are out.
theorem planned (valid : Valid free ledger) (allowed : ledger.Allowed action)
    (blind : ∀ address count, action.call ≠ .load address count) :
    ∃ plan, ledger.Planned .plain free action plan := by
  obtain ⟨call,through⟩ := action
  cases call with
  | adopt given => exact valid.planned_adopt given through allowed
  | allocate size => exact valid.planned_allocate allowed (fun _ => rfl) (fun _ => rfl) fun _ _ => rfl
  | allocateAligned size align =>
    exact valid.planned_allocate allowed (fun _ => rfl) (fun _ => rfl) fun _ _ => rfl
  | allocateLayout layout =>
    exact valid.planned_allocate allowed (fun _ => rfl) (fun _ => rfl) fun _ _ => rfl
  | allocateZeroed layout => exact valid.planned_allocateZeroed layout through
  | reallocate old size layout => exact valid.planned_reallocate layout allowed through
  | release payload? =>
    cases payload? with
    | none => exact valid.planned_idle allowed .done [] (fun _ _ _ => rfl) fun _ => rfl
    | some payload => exact ⟨_,valid.planned_release (allowed payload rfl) through⟩
  | store address bytes => exact ⟨_,valid.planned_store allowed⟩
  | load address count => exact absurd rfl (blind address count)
  | copy target source size => exact valid.planned_copy allowed.1 allowed.2
  | header payload =>
    let header : Header := ledger.state.memory.readHeader payload
    refine valid.planned_idle allowed (.header header) [] (fun other _ alike => ?_) fun _ => rfl
    rw [State.perform,(alike.header allowed).2]
    rfl
  | arena =>
    let arena : Span := ledger.state.heap.arena
    refine valid.planned_idle allowed (.arena arena) [] (fun other _ alike => ?_) fun _ => rfl
    rw [State.perform,← alike.arena]
    rfl
  | advance count =>
    let blocks := (free.map some).take count ++ List.replicate (count - free.length) none
    refine valid.planned_idle allowed (.blocks blocks) [] (fun other twin _ => ?_) fun _ => rfl
    have shown : other.state.heap.cursor.take other.state.memory count = _ := twin.chain.take count
    rw [State.perform,shown]
    rfl

end Valid

-- A plan of a plain build serves any other that puts up with the call.
theorem Ledger.Planned.accepted (planned : ledger.Planned .plain free action plan)
    (allowed : ledger.Allowed action) (accepts : build.Accepts action.call) :
    ledger.Planned build free action plan := by
  refine ⟨fun other twin alike => ?_,planned.arena,planned.holds,planned.fresh⟩
  obtain ⟨performs,settles⟩ := planned.follows other twin alike
  have permits := alike.allowed allowed
  refine ⟨?_,?_⟩
  · rwa [twin.perform_plain permits accepts]
  · rwa [twin.after_plain permits accepts]

namespace Valid

-- All that can come of an action in any build.
theorem planned_cases (valid : Valid free ledger) (build : Build) (allowed : ledger.Allowed action) :
    (build = .checked ∧ action.call.Misaligned) ∨
      (∃ address count, action.call = .load address count) ∨
      ∃ plan, ledger.Planned build free action plan := by
  by_cases stops : build = .checked ∧ action.call.Misaligned
  · exact .inl stops
  by_cases loads : ∃ address count, action.call = .load address count
  · exact .inr (.inl loads)
  have accepts : build.Accepts action.call := by
    cases build with
    | plain => exact .inl rfl
    | checked => exact .inr fun misaligned => stops ⟨rfl,misaligned⟩
  obtain ⟨plan,planned⟩ := valid.planned allowed fun address count same =>
    loads ⟨address,count,same⟩
  exact .inr (.inr ⟨plan,planned.accepted allowed accepts⟩)

-- An action changes nothing that the heap goes by, or all goes by its plan.
theorem stays_or_follows (valid : Valid free ledger) (build : Build)
    (allowed : ledger.Allowed action) : ledger.after build action = ledger ∨
      ∃ plan, ledger.Planned build free action plan ∧ ledger.Follows build action plan := by
  rcases valid.planned_cases build allowed with ⟨rfl,misaligned⟩ | ⟨_,_,loads⟩ | ⟨plan,planned⟩
  · exact .inl (ledger.after_misaligned misaligned)
  · obtain ⟨call,through⟩ := action
    cases loads
    exact .inl rfl
  · exact .inr ⟨plan,planned,planned.follows ledger valid ⟨rfl,rfl⟩⟩

end Valid

end FreeListHeap
