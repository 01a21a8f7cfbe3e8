import FreeListHeap.Proofs.Trimming
import FreeListHeap.Proofs.Upkeep

namespace FreeListHeap

variable {build : Build} {size align : Word} {grant : Grant} {ledger : Ledger} {state : State}
  {free : List Block} {arena given : Span} {payload : Address} {bytes : List UInt8}
  {rest : List Grant}

-- An arena that is taken over is made of whole granules, two of them at least.
theorem Span.arena?_ok (taken : given.arena? = .ok arena) : 16 ∣ arena.start.toNat ∧
    16 ∣ arena.stop.toNat ∧ arena.start.toNat + 32 ≤ arena.stop.toNat := by
  obtain ⟨trims,large⟩ := Span.arena?_trims taken
  exact ⟨trims.whole.1,trims.whole.2,large⟩

theorem Span.upper_length (arena : Span) (forward : arena.start.toNat ≤ arena.stop.toNat) :
    Block.upper ⟨arena.start,arena.length⟩ = arena.stop.toNat := by
  have length := arena.toNat_length
  change arena.start.toNat + arena.length.toNat = _
  omega

-- An arena of whole granules can be taken as one block.
theorem Span.undivided (arena : Span) (start : 16 ∣ arena.start.toNat) (stop : 16 ∣ arena.stop.toNat)
    (large : arena.start.toNat + 32 ≤ arena.stop.toNat) : Block.Whole ⟨arena.start,arena.length⟩ ∧
      Tiles arena.start.toNat arena.stop.toNat [⟨arena.start,arena.length⟩] := by
  have length := arena.toNat_length
  have bounded := arena.stop.toNat_lt
  have upper := arena.upper_length (by omega)
  refine ⟨⟨start,?_,?_,by rw [upper]; exact bounded⟩,?_⟩
  · change 16 ∣ arena.length.toNat
    omega
  · change 32 ≤ arena.length.toNat
    omega
  · exact (Tiles.nil _).cons rfl upper (Nat.le_refl _)

namespace State

theorem adopt_managing (build : Build) (given : Span) (managing : ¬ state.heap.arena.isEmpty) :
    state.adopt build given = state.unchanged (.error (.alreadyManaging state.heap.arena)) :=
  if_pos managing

theorem adopt_refused (build : Build) (vacant : state.heap.arena.isEmpty)
    (refused : given.arena? = .error error) :
    state.adopt build given = state.unchanged (.error error) := by
  rw [adopt,if_neg (not_not.mpr vacant),refused]

end State

structure Build.Considers (build : Build) (size align : Word) : Prop where
  sized : size ≠ 0
  aligned : align ≠ 0
  agrees : build.failure [.powerOfTwo align] = none

-- All that can come of a request, when these are the free blocks.
inductive Allocates (build : Build) (state : State) (free : List Block) (size align : Word) :
    Outcome (Option Address) → Prop where
  | nothing : size = 0 ∨ align = 0 → Allocates build state free size align (state.unchanged none)
  | insists : size ≠ 0 → align ≠ 0 → build.failure [.powerOfTwo align] = some failed →
      Allocates build state free size align ⟨.error failed,state,[]⟩
  | overflow : build.Considers size align → Request.ofBytes? size align = none →
      Allocates build state free size align (state.unchanged none)
  | noFit : build.Considers size align → Request.ofBytes? size align = some request →
      Placement.find? request free = none →
      Allocates build state free size align ⟨.ok none,state,[.noFit request]⟩
  | placed : build.Considers size align → Request.ofBytes? size align = some request →
      Placement.find? request free = some placement →
      Allocates build state free size align
        ⟨.ok (some placement.payload),state.changed state.heap.arena (.take placement),[]⟩

variable {request : Request} {placement : Placement}

theorem Build.Considers.whole (considers : build.Considers size align)
    (rounds : Request.ofBytes? size align = some request) : request.Whole :=
  Request.ofBytes?_whole rounds considers.sized considers.aligned

namespace Valid

-- Without an arena there is nothing to be free and nothing to be out.
theorem vacant (valid : Valid free ledger) (none : ledger.state.heap.arena.isEmpty) :
    free = [] ∧ ledger.grants = [] := by
  have empty := Span.isEmpty_iff.mp none
  have nothing : free ++ ledger.grants.map Grant.block = [] := by
    refine List.eq_nil_iff_forall_not_mem.mpr fun block member => ?_
    have bounds := valid.tiles.inside block member
    have least := (valid.whole block member).least
    have size := block.upper_eq
    omega
  rw [List.append_eq_nil_iff,List.map_eq_nil_iff] at nothing
  exact nothing

-- A fresh arena is one free block.
theorem single (taken : given.arena? = .ok arena) (nonzero : arena.start ≠ 0) (memory : Memory) :
    (Change.single ⟨arena.start,arena.length⟩).Sound arena memory ∧
      Tiles arena.start.toNat arena.stop.toNat [⟨arena.start,arena.length⟩] := by
  obtain ⟨start,stop,large⟩ := Span.arena?_ok taken
  obtain ⟨whole,tiles⟩ := arena.undivided start stop large
  have solid := List.forall_mem_singleton.mpr whole
  refine ⟨⟨solid,⟨solid,tiles.inside,List.pairwise_singleton _ _⟩,?_⟩,tiles⟩
  have named : ∀ block ∈ [Block.mk arena.start arena.length] ++ [], block.start ≠ 0 :=
    List.forall_mem_singleton.mpr nonzero
  refine FreeList.Chain.nodes .nil ?_ named
  intro edit member
  exact Memory.readRecord_apply (List.pairwise_singleton _ _) member

theorem adopt_single (build : Build) (vacant : state.heap.arena.isEmpty)
    (taken : given.arena? = .ok arena) (nonzero : arena.start ≠ 0) : state.adopt build given =
      ⟨.ok (.ok ()),state.changed arena (.single ⟨arena.start,arena.length⟩),[.arenaReady arena]⟩ := by
  rw [State.adopt,if_neg (not_not.mpr vacant),taken]
  exact State.commit_eq build _ _ (single taken nonzero state.memory).1

theorem adopt (valid : Valid free ledger) (build : Build)
    (allowed : ledger.state.heap.arena.isEmpty → given.Exists) :
    (∃ error, ledger.state.adopt build given = ledger.state.unchanged (Except.error error)) ∨
    ∃ arena state, ledger.state.adopt build given = ⟨.ok (.ok ()),state,[.arenaReady arena]⟩ ∧
      ledger.state.heap.arena.isEmpty ∧ given.arena? = .ok arena ∧ state.heap.arena = arena ∧
      Valid [⟨arena.start,arena.length⟩] ⟨state,ledger.grants⟩ := by
  by_cases none : ledger.state.heap.arena.isEmpty
  · cases taken : given.arena? with
    | error error =>
      exact .inl ⟨error,State.adopt_refused build none taken⟩
    | ok arena =>
      have nonzero : arena.start ≠ 0 := allowed none arena (by rw [taken]; rfl)
      obtain ⟨sound,tiles⟩ := single taken nonzero ledger.state.memory
      obtain ⟨_,nobody⟩ := valid.vacant none
      refine .inr ⟨arena,_,adopt_single build none taken nonzero,none,rfl,rfl,?_⟩
      rw [nobody]
      exact ⟨.inr ⟨nonzero,Span.arena?_ok taken⟩,sound.chain,sound.listed,nofun,tiles,nofun⟩
  · exact .inl ⟨_,State.adopt_managing build given none⟩

theorem allocates (valid : Valid free ledger) (build : Build) (size align : Word) :
    Allocates build ledger.state free size align
      (ledger.state.allocateAligned build size align) := by
  unfold State.allocateAligned
  split
  · rename_i nothing
    exact .nothing nothing
  rename_i something
  obtain ⟨sized,aligned⟩ := not_or.mp something
  split
  · rename_i failed insists
    exact .insists sized aligned insists
  rename_i agrees
  have considers : build.Considers size align := ⟨sized,aligned,agrees⟩
  split
  · rename_i overflows
    exact .overflow considers overflows
  rename_i request rounds
  rw [valid.freeBlocks]
  split
  · rename_i nowhere
    exact .noFit considers rounds nowhere
  · rename_i placement found
    rw [State.commit_eq build _ [] (valid.take_change found (considers.whole rounds))]
    exact .placed considers rounds found

-- The header that an allocation is handed out with is the one that was made for it.
theorem granted_eq (valid : Valid free ledger)
    (found : Placement.find? request free = some placement) (asked : request.Whole)
    (outcome : ledger.state.allocateAligned build size align = ⟨.ok (some placement.payload),
      ledger.state.changed ledger.state.heap.arena (.take placement),[]⟩) :
    ledger.granted build ⟨placement.payload,size,align⟩ = placement.handed size align := by
  have sound := valid.placement_sound found asked
  have listed := valid.listed
  obtain ⟨rfl,_⟩ := Placement.find?_some found
  rw [Ledger.granted,outcome]
  exact congrArg (Grant.mk _ · _) (Change.take_header listed sound ledger.state.memory)

-- A request is refused without a trace, or an allocation is handed out that leaves all others as
-- they are.
theorem allocateAligned (valid : Valid free ledger) (build : Build) (size align : Word) :
    (∃ result log, ledger.state.allocateAligned build size align = ⟨result,ledger.state,log⟩ ∧
      ∀ payload, result ≠ .ok (some payload)) ∨
    ∃ payload later state, ledger.state.allocateAligned build size align =
        ⟨.ok (some payload),state,[]⟩ ∧
      Valid later ⟨state,ledger.granted build ⟨payload,size,align⟩ :: ledger.grants⟩ ∧
      ∀ grant ∈ ledger.grants, ∀ address : Address, grant.block.Has address.toNat →
        state.memory.read address = ledger.state.memory.read address := by
  have allocates := valid.allocates build size align
  generalize handed : ledger.state.allocateAligned build size align = outcome at allocates
  cases allocates with
  | nothing | insists | overflow | noFit => exact .inl ⟨_,_,rfl,nofun⟩
  | @placed request placement considers rounds found =>
    have asked := considers.whole rounds
    have fits := (Placement.find?_some found).2.2.1
    have taken := valid.take found asked size align (by
      rw [fits,(Request.ofBytes?_some.mp rounds).1])
    rw [← valid.granted_eq found asked handed] at taken
    refine .inr ⟨_,placement.remaining,_,rfl,taken,?_⟩
    intro grant member
    exact valid.take_spares found asked member

theorem release_eq (valid : Valid free ledger) (build : Build) (member : grant ∈ ledger.grants) :
    ledger.state.release build (some grant.payload) =
      ⟨.ok (),ledger.state.changed ledger.state.heap.arena (.give grant.block free),[]⟩ := by
  obtain ⟨front,back,parts⟩ := List.append_of_mem member
  rw [State.release,valid.freeBlocks,valid.reservation member]
  exact State.commit_eq build () [] (valid.give_change parts)

theorem release (valid : Valid free ledger) (build : Build) (owns : ledger.Owns payload) :
    ∃ later state, ledger.state.release build (some payload) = ⟨.ok (),state,[]⟩ ∧
      Valid later ⟨state,ledger.withdrawn payload⟩ := by
  obtain ⟨owner,owned,same⟩ := owns
  obtain ⟨grant,front,back,_,found,parts,rest⟩ :=
    List.exists_of_eraseP (p := (·.payload = payload)) owned (decide_eq_true same)
  rw [decide_eq_true_eq] at found
  subst found
  refine ⟨FreeList.insert grant.block free,_,valid.release_eq build (Ledger.singled parts),?_⟩
  rw [Ledger.withdrawn,rest]
  exact valid.give parts

-- Every header lies within its own block, so that no two payloads are the same.
theorem distinct (valid : Valid free ledger) :
    ledger.grants.Pairwise fun one two => one.payload ≠ two.payload := by
  refine valid.grants_apart.imp_of_mem fun {one two} left right apart same => ?_
  have within : ∀ grant ∈ ledger.grants, grant.block.Has (grant.payload.toNat - 16) := by
    intro grant member
    have sound := valid.sound grant member
    have start := sound.start
    have padding := sound.padding
    have least := sound.whole.least
    have size := grant.block.upper_eq
    unfold Block.Has
    omega
  refine apart.not_both (within one left) ?_
  rw [same]
  exact within two right

theorem covers (valid : Valid free ledger) (member : grant ∈ ledger.grants)
    (asked : count ≤ grant.size.toNat) : ledger.Covers grant.payload grant.payload count := by
  refine ⟨⟨grant,member,rfl⟩,?_⟩
  have room := (valid.sound grant member).room
  rw [valid.reservation member]
  intro i inside
  omega

theorem stored_head (valid : Valid free ⟨state,grant :: rest⟩) :
    (Ledger.mk state (grant :: rest)).stored grant.payload address bytes =
      grant.store address bytes :: rest := by
  obtain ⟨front,_⟩ := List.pairwise_cons.mp valid.distinct
  rw [Ledger.stored,List.map_cons,if_pos rfl]
  refine congrArg _ (List.map_congr_left (g := id) ?_ |>.trans (List.map_id _))
  intro other member
  exact if_neg (front other member).symm

end Valid

namespace Ledger

theorem mem_withdrawn (member : grant ∈ ledger.grants) (differ : payload ≠ grant.payload) :
    grant ∈ ledger.withdrawn payload := by
  refine (List.mem_eraseP_of_neg ?_).mpr member
  exact mt of_decide_eq_true differ.symm

theorem after_refused {action : Action} {result : Except Assertion (Option Address)}
    (performs : ledger.state.perform build action.call =
      Outcome.map .payload ⟨result,ledger.state,log⟩)
    (refusal : ∀ payload, result ≠ .ok (some payload))
    (nothing : ledger.settle build action (.payload none) = ledger.grants) :
    ledger.after build action = ledger := by
  rw [after,performs]
  rcases result with failed | none | payload
  · rfl
  · exact congrArg (Ledger.mk ledger.state) nothing
  · exact absurd rfl (refusal payload)

end Ledger

-- What may come of a request: it is refused and nothing happens, or it is met at a payload, and then
-- these allocations are out.
inductive Ledger.Answers (ledger : Ledger) (out : Address → List Grant) :
    Outcome (Option Address) → Prop where
  | refused (refusal : ∀ payload, result ≠ .ok (some payload)) :
      Answers ledger out ⟨result,ledger.state,log⟩
  | met {payload : Address} {state : State} (valid : Valid later ⟨state,out payload⟩) :
      Answers ledger out ⟨.ok (some payload),state,[]⟩

namespace Valid

theorem answers_aligned (valid : Valid free ledger) (build : Build) (size align : Word) :
    ledger.Answers (fun payload => ledger.granted build ⟨payload,size,align⟩ :: ledger.grants)
      (ledger.state.allocateAligned build size align) := by
  rcases valid.allocateAligned build size align with
    ⟨result,log,outcome,refusal⟩ | ⟨payload,later,state,outcome,taken,_⟩
  · rw [outcome]
    exact .refused refusal
  · rw [outcome]
    exact .met taken

theorem answers_zeroed (valid : Valid free ledger) (build : Build) (layout : Layout) :
    ledger.Answers (fun payload => (ledger.granted build ⟨payload,layout.size,layout.align⟩).store
        payload (List.replicate layout.size.toNat 0) :: ledger.grants)
      (layout.allocateZeroed build ledger.state) := by
  rcases valid.allocateAligned build layout.size layout.align with
    ⟨result,log,outcome,refusal⟩ | ⟨payload,later,state,outcome,taken,_⟩
  · simp only [Layout.allocateZeroed,Layout.allocate,outcome]
    exact .refused refusal
  · have covers := taken.covers List.mem_cons_self (Nat.le_refl _)
    change Ledger.Covers _ _ _ layout.size.toNat at covers
    rw [← List.length_replicate (n := layout.size.toNat) (a := (0 : UInt8))] at covers
    have stored := taken.store covers
    rw [taken.stored_head] at stored
    simp only [Layout.allocateZeroed,Layout.allocate,outcome]
    exact .met stored

theorem min_toNat (left right : Word) :
    (min left right).toNat ≤ left.toNat ∧ (min left right).toNat ≤ right.toNat := by
  change (ite (left ≤ right) left right).toNat ≤ _ ∧ (ite (left ≤ right) left right).toNat ≤ _
  split
  · rename_i shorter
    exact ⟨Nat.le_refl _,UInt64.le_iff_toNat_le.mp shorter⟩
  · rename_i longer
    rw [UInt64.le_iff_toNat_le] at longer
    exact ⟨by omega,Nat.le_refl _⟩

-- What is carried over to a new allocation is what the old one held before.
theorem carried (valid : Valid free ⟨state,grant :: ledger.grants⟩)
    (covers : ledger.Covers old old count) (prior : Valid earlier ledger)
    (untouched : ∀ other ∈ ledger.grants, ∀ address : Address, other.block.Has address.toNat →
      state.memory.read address = ledger.state.memory.read address) :
    state.memory.forward grant.payload old count =
      state.memory.writeBytes grant.payload (ledger.state.memory.readBytes old count) := by
  obtain ⟨⟨owner,owned,rfl⟩,range⟩ := covers
  rw [prior.reservation owned] at range
  have sound := prior.sound owner owned
  have start := sound.start
  obtain ⟨_,_,stop⟩ := sound.stop
  have bounded := sound.whole.bounded
  have fits : owner.payload.toNat + count ≤ owner.block.upper := by
    rcases Nat.eq_zero_or_pos count with rfl | some
    · omega
    · have last := range (count - 1) (by omega)
      omega
  have same : state.memory.readBytes owner.payload count =
      ledger.state.memory.readBytes owner.payload count := by
    refine Memory.readBytes_congr fun i inside => untouched owner owned _ (sound.has ?_)
    rw [Word.toNat_offset (by omega)]
    exact range i inside
  have apart : count ≤ (grant.payload - owner.payload).toNat := by
    have separate := (List.pairwise_cons.mp valid.grants_apart).1 owner owned
    have fresh := valid.sound grant List.mem_cons_self
    have begins := fresh.start
    obtain ⟨_,_,ends⟩ := fresh.stop
    refine Word.distance_outside (by omega) ?_
    rcases separate with before | behind
    · exact .inl (by omega)
    · exact .inr (by omega)
  rw [Memory.forward_apart _ (by omega) apart,same]

-- The new allocation before the old one goes, with as many of its bytes as it has room for.
theorem filled (valid : Valid free ⟨state,grant :: ledger.grants⟩) (prior : Valid earlier ledger)
    (covers : ledger.Covers old old count) (room : count ≤ grant.size.toNat)
    (untouched : ∀ other ∈ ledger.grants, ∀ address : Address, other.block.Has address.toNat →
      state.memory.read address = ledger.state.memory.read address) :
    Valid free ⟨⟨state.heap,state.memory.forward grant.payload old count⟩,
      grant.store grant.payload (ledger.state.memory.readBytes old count) :: ledger.grants⟩ := by
  have covered := valid.covers List.mem_cons_self room
  rw [← Memory.length_readBytes ledger.state.memory old count] at covered
  have stored := valid.store covered
  rw [valid.stored_head] at stored
  rw [valid.carried covers prior untouched]
  exact stored

theorem move (valid : Valid free ⟨state,grant :: ledger.grants⟩) (build : Build)
    (owns : ledger.Owns old) : ∃ later final, state.release build (some old) = ⟨.ok (),final,[]⟩ ∧
      Valid later ⟨final,grant :: ledger.withdrawn old⟩ := by
  obtain ⟨owner,owned,same⟩ := owns
  have differ : grant.payload ≠ old := by
    rw [← same]
    exact (List.pairwise_cons.mp valid.distinct).1 owner owned
  obtain ⟨later,final,released,settled⟩ :=
    valid.release build ⟨owner,List.mem_cons_of_mem _ owned,same⟩
  have spared : (grant :: ledger.grants).eraseP (·.payload = old) =
      grant :: ledger.withdrawn old := List.eraseP_cons_of_neg (mt of_decide_eq_true differ)
  rw [← spared]
  exact ⟨later,final,released,settled⟩

theorem covers_min (covers : Ledger.Covers ledger old old size.toNat) (other : Word) :
    ledger.Covers old old (min size other).toNat :=
  ⟨covers.1,fun i inside => covers.2 i (Nat.lt_of_lt_of_le inside (min_toNat size other).1)⟩

theorem answers_move (valid : Valid free ledger) (build : Build) (layout : Layout)
    (covers : ledger.Covers old old size.toNat) :
    ledger.Answers (fun payload => (ledger.granted build ⟨payload,layout.size,layout.align⟩).store
        payload (ledger.state.memory.readBytes old (min size layout.size).toNat) ::
          ledger.withdrawn old)
      (layout.reallocate build ledger.state old size) := by
  rcases valid.allocateAligned build layout.size layout.align with
    ⟨result,log,outcome,refusal⟩ | ⟨payload,later,state,outcome,taken,untouched⟩
  · simp only [Layout.reallocate,Layout.allocate,outcome]
    exact .refused refusal
  · have moved := taken.filled valid (covers_min covers layout.size)
      (min_toNat size layout.size).2 untouched
    obtain ⟨last,final,released,settled⟩ := moved.move build covers.1
    change State.release build ⟨_,state.memory.forward payload _ _⟩ _ = _ at released
    simp only [Layout.reallocate,Layout.allocate,outcome,released]
    exact .met settled

-- The calls that ask for an allocation, with or without more to be done to it.
theorem after_answered (valid : Valid free ledger) {action : Action}
    {outcome : Outcome (Option Address)}
    (performs : ledger.state.perform build action.call = outcome.map .payload)
    (answers : ledger.Answers
      (fun payload => ledger.settle build action (.payload (some payload))) outcome)
    (nothing : ledger.settle build action (.payload none) = ledger.grants) :
    ∃ later, Valid later (ledger.after build action) := by
  cases answers with
  | refused refusal =>
    rw [Ledger.after_refused performs refusal nothing]
    exact ⟨free,valid⟩
  | @met later state payload settled =>
    refine ⟨later,?_⟩
    simp only [Ledger.after,performs]
    exact settled

theorem after_store (valid : Valid free ledger) (build : Build)
    (covers : ledger.Covers through address bytes.length) :
    ∃ later, Valid later (ledger.after build ⟨.store address bytes,through⟩) :=
  ⟨free,valid.store covers⟩

theorem after_copy (valid : Valid free ledger) (build : Build)
    (covers : ledger.Covers through target size.toNat) (source : Address) :
    ∃ later, Valid later (ledger.after build ⟨.copy target source size,through⟩) := by
  have bounded : size.toNat ≤ UInt64.size := Nat.le_of_lt size.toNat_lt
  have copied := Memory.forward_eq ledger.state.memory target source bounded
  rw [← Memory.length_carried ledger.state.memory target source size.toNat] at covers
  have stored := valid.store covers
  rw [← copied] at stored
  exact ⟨free,stored⟩

theorem after_adopt (valid : Valid free ledger) (build : Build)
    (allowed : ledger.state.heap.arena.isEmpty → given.Exists) (through : Address) :
    ∃ later, Valid later (ledger.after build ⟨.adopt given,through⟩) := by
  rcases valid.adopt build allowed with ⟨error,outcome⟩ | ⟨arena,state,outcome,_,_,_,adopted⟩
  · refine ⟨free,?_⟩
    simp only [Ledger.after,State.perform,outcome]
    exact valid
  · refine ⟨[⟨arena.start,arena.length⟩],?_⟩
    simp only [Ledger.after,State.perform,outcome]
    exact adopted

theorem after_release (valid : Valid free ledger) (build : Build)
    (owns : ∀ given ∈ payload?, ledger.Owns given) (through : Address) :
    ∃ later, Valid later (ledger.after build ⟨.release payload?,through⟩) := by
  cases payload? with
  | none => exact ⟨free,valid⟩
  | some payload =>
    obtain ⟨later,state,outcome,released⟩ := valid.release build (owns payload rfl)
    refine ⟨later,?_⟩
    simp only [Ledger.after,State.perform,outcome]
    exact released

-- Whatever a client may do leaves the heap in order.
theorem after (valid : Valid free ledger) (build : Build) {action : Action}
    (allowed : ledger.Allowed action) : ∃ later, Valid later (ledger.after build action) := by
  obtain ⟨call,through⟩ := action
  cases call with
  | adopt given => exact valid.after_adopt build allowed through
  | allocate size => exact valid.after_answered rfl (valid.answers_aligned build size _) rfl
  | allocateAligned size align =>
    exact valid.after_answered rfl (valid.answers_aligned build size align) rfl
  | allocateLayout layout => exact valid.after_answered rfl (valid.answers_aligned build _ _) rfl
  | allocateZeroed layout => exact valid.after_answered rfl (valid.answers_zeroed build layout) rfl
  | reallocate old size layout =>
    exact valid.after_answered rfl (valid.answers_move build layout allowed) rfl
  | release payload => exact valid.after_release build allowed through
  | store address bytes => exact valid.after_store build allowed
  | copy target source size => exact valid.after_copy build allowed.1 source
  | load | header | arena | advance => exact ⟨free,valid⟩

theorem start (memory : Memory) : Valid [] {state := {memory}} :=
  ⟨.inl rfl,.nil,⟨nofun,nofun,.nil⟩,nofun,.nil 0,nofun⟩

end Valid

theorem Reached.valid_blocks (reached : Reached build ledger) : ∃ free, Valid free ledger := by
  induction reached with
  | start memory => exact ⟨[],.start memory⟩
  | step _ allowed ih =>
    obtain ⟨free,valid⟩ := ih
    exact valid.after _ allowed

-- Every state that a client can bring a heap to is in order.
theorem Reached.valid (reached : Reached build ledger) : Valid ledger.state.freeBlocks ledger := by
  obtain ⟨free,valid⟩ := reached.valid_blocks
  rw [valid.freeBlocks]
  exact valid

end FreeListHeap
