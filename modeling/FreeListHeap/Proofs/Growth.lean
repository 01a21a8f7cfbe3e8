import FreeListHeap.Proofs.Monotone

namespace FreeListHeap

variable {build : Build} {ledger left right : Ledger} {free others : List Block} {action : Action}
  {actions : List Action} {size align : Word} {payload : Address}
  {one two : Grant} {short long : Block} {stop n : Nat} {small : Span}

-- One allocation in an arena that ends at `stop` and in a longer one. The two reserve the same,
-- unless the former reaches to the end of its arena.
structure Grant.Twins (stop : Nat) (one two : Grant) : Prop where
  held : one.toHeld = two.toHeld
  lower : one.block.lower = two.block.lower
  upper : one.block.upper = two.block.upper ∨ one.block.upper = stop

-- Two heaps that have the same out, the second in an arena that goes on where the first one ends.
structure Ledger.Grown (left right : Ledger) : Prop where
  start : left.state.heap.arena.start = right.state.heap.arena.start
  stop : left.state.heap.arena.stop.toNat ≤ right.state.heap.arena.stop.toNat
  there : ∀ one ∈ left.grants, ∃ two ∈ right.grants, one.Twins left.state.heap.arena.stop.toNat two
  back : ∀ two ∈ right.grants, ∃ one ∈ left.grants, one.Twins left.state.heap.arena.stop.toNat two

-- The heap once a request is answered with this allocation.
def Ledger.granting (build : Build) (ledger : Ledger) (held : Held) : Ledger :=
  ⟨(ledger.state.allocateAligned build held.size held.align).state,
    ledger.granted build held :: ledger.grants⟩

-- A heap that has been handed a range of addresses and nothing else.
def Ledger.fresh (build : Build) (memory : Memory) (given : Span) : Ledger :=
  Ledger.after build {state := {memory}} ⟨.adopt given,0⟩

-- What the clients of such heaps do: ask for allocations, and give them back.
def Call.Trades : Call → Prop
  | .allocate _ | .allocateAligned _ _ | .allocateLayout _ | .release _ => True
  | _ => False

-- Neither stopped by an assertion nor answered with nothing.
def Outcome.Succeeds (outcome : Outcome Answer) : Prop :=
  match outcome.result with
  | .ok answer => answer ≠ .payload none
  | .error _ => False

instance : (call : Call) → Decidable call.Trades
  | .allocate _ | .allocateAligned _ _ | .allocateLayout _ | .release _ => isTrue trivial
  | .adopt _ | .allocateZeroed _ | .reallocate _ _ _ | .store _ _ | .load _ _ | .copy _ _ _
  | .header _ | .arena | .advance _ => isFalse id

instance : (outcome : Outcome Answer) → Decidable outcome.Succeeds
  | ⟨.ok answer,_,_⟩ => inferInstanceAs (Decidable (answer ≠ .payload none))
  | ⟨.error _,_,_⟩ => isFalse id

namespace Grant.Twins

theorem has_left (twins : Twins stop one two) (before : n < stop) (has : two.block.Has n) :
    one.block.Has n := by
  obtain ⟨_,lower,upper⟩ := twins
  unfold Block.Has at has ⊢
  omega

-- The longer arena takes back no more than the granule behind the payload.
theorem has_right (twins : Twins stop one two) (sound : one.Sound) (other : two.Sound)
    (before : n + 16 < stop) (has : one.block.Has n) : two.block.Has n := by
  obtain ⟨held,lower,upper⟩ := twins
  obtain ⟨_,small,ends⟩ := sound.stop
  obtain ⟨_,_,stops⟩ := other.stop
  rw [held] at ends
  unfold Block.Has at has ⊢
  omega

end Grant.Twins

namespace Valid

theorem unreserved (valid : Valid free ledger) (listed : short ∈ free) (has : short.Has n) :
    ¬ ledger.Reserves n := by
  intro reserves
  obtain ⟨grant,member,within⟩ := valid.reserves_iff.mp reserves
  exact (valid.apart member short listed).not_both has within

theorem reserved_beside (valid : Valid free ledger) (listed : short ∈ free)
    (low : ledger.state.heap.arena.start.toNat ≤ n) (high : n < ledger.state.heap.arena.stop.toNat)
    (beside : n + 1 = short.lower ∨ n = short.upper) : ledger.Reserves n := by
  obtain ⟨other,member,has⟩ := valid.tiles.covers n low high
  rcases List.mem_append.mp member with inner | outer
  · obtain ⟨begins,ends⟩ := has
    have size := short.upper_eq
    have differ : other ≠ short := by
      rintro rfl
      omega
    rcases Tiles.separate valid.listed.ordered inner listed differ with below | above
    · unfold Block.Below at below
      omega
    · unfold Block.Below at above
      omega
  · obtain ⟨grant,granted,rfl⟩ := List.mem_map.mp outer
    exact valid.reserves_iff.mpr ⟨grant,granted,has⟩

section Grown

variable (valid : Valid free left) (twin : Valid others right) (grown : left.Grown right)

include valid twin grown

theorem reserves_short (before : n < left.state.heap.arena.stop.toNat)
    (reserves : right.Reserves n) : left.Reserves n := by
  obtain ⟨two,member,has⟩ := twin.reserves_iff.mp reserves
  obtain ⟨one,granted,twins⟩ := grown.back two member
  exact valid.reserves_iff.mpr ⟨one,granted,twins.has_left before has⟩

theorem reserves_long (before : n + 16 < left.state.heap.arena.stop.toNat)
    (reserves : left.Reserves n) : right.Reserves n := by
  obtain ⟨one,member,has⟩ := valid.reserves_iff.mp reserves
  obtain ⟨two,granted,twins⟩ := grown.there one member
  refine twin.reserves_iff.mpr ⟨two,granted,?_⟩
  exact twins.has_right (valid.sound one member) (twin.sound two granted) before has

-- A place in the shorter arena is one in the longer. One that the longer arena has below it is a
-- granule lower at least, and so clear of all in which the two differ.
theorem grown_yields (yields : left.Yields build size align payload) :
    right.Yields build size align payload := by
  obtain ⟨considers,fits,least⟩ := valid.yields_least yields
  have back := fits.back
  have longer := grown.stop
  have wide := fits.of_fewer grown.start.symm (Nat.le_trans back longer) fun n before =>
    valid.reserves_short twin grown (Nat.lt_of_lt_of_le before back)
  obtain ⟨lower,met,below⟩ := twin.yields_of_fits considers wide
  have fitting := (twin.yields_least met).2.1
  rcases Nat.eq_or_lt_of_le below with same | less
  · rwa [UInt64.toNat_inj.mp same] at met
  · have granular := Nat.dvd_trans (Word.dvd_rounded align.toNat 16) fits.multiple
    have whole := Nat.dvd_trans (Word.dvd_rounded align.toNat 16) fitting.multiple
    have narrow := fitting.of_fewer grown.start (by omega) fun n before =>
      valid.reserves_long twin grown (by omega)
    exact absurd (least narrow) (Nat.not_le.mpr less)

-- The free blocks that a payload lies in start together. They end together too, unless the one
-- reaches to the end of its arena, and then the other does not end before.
theorem grown_block (listed : short ∈ free) (follows : long ∈ others) (has : short.Has n)
    (also : long.Has n) (room : n + 16 ≤ short.upper) : short.lower = long.lower ∧
      (short.upper = long.upper ∨
        short.upper = left.state.heap.arena.stop.toNat ∧ short.upper ≤ long.upper) := by
  have start : left.state.heap.arena.start.toNat = right.state.heap.arena.start.toNat :=
    congrArg UInt64.toNat grown.start
  have longer := grown.stop
  obtain ⟨low,high⟩ := has
  obtain ⟨begins,ends⟩ := also
  have inside := valid.listed.inside short listed
  have within := twin.listed.inside long follows
  constructor
  · rcases Nat.lt_trichotomy short.lower long.lower with before | same | behind
    · have reserves : right.Reserves (long.lower - 1) :=
        twin.reserved_beside follows (by omega) (by omega) (.inl (by omega))
      have there := valid.reserves_short twin grown (by omega) reserves
      exact absurd there (valid.unreserved listed ⟨by omega,by omega⟩)
    · exact same
    · have reserves : left.Reserves (short.lower - 1) :=
        valid.reserved_beside listed (by omega) (by omega) (.inl (by omega))
      have there := valid.reserves_long twin grown (by omega) reserves
      exact absurd there (twin.unreserved follows ⟨by omega,by omega⟩)
  · rcases Nat.lt_trichotomy short.upper long.upper with before | same | behind
    · refine .inr ⟨Nat.le_antisymm inside.2 (Nat.not_lt.mp fun more => ?_),Nat.le_of_lt before⟩
      have reserves := valid.reserved_beside listed (by omega) more (.inr rfl)
      -- An allocation that starts here is too long for its first byte to lie at the end.
      obtain ⟨grant,member,within⟩ := valid.reserves_iff.mp reserves
      have apart := valid.apart member short listed
      have bounds := valid.inside member
      have least := (valid.sound grant member).whole.least
      have size := grant.block.upper_eq
      have far : short.upper + 16 < left.state.heap.arena.stop.toNat := by
        unfold Block.Has at within
        unfold Block.Apart at apart
        omega
      have there := valid.reserves_long twin grown far reserves
      exact absurd there (twin.unreserved follows ⟨by omega,before⟩)
    · exact .inl same
    · have reserves := twin.reserved_beside follows (by omega) (by omega) (.inr rfl)
      have there := valid.reserves_short twin grown (by omega) reserves
      exact absurd there (valid.unreserved listed ⟨by omega,behind⟩)

end Grown

-- What a request is granted of its free block: all in front of the header and behind the payload
-- that cannot stand alone goes with it.
theorem granted_block (valid : Valid free ledger)
    (yields : ledger.Yields build size align payload) : ∃ block ∈ free,
      block.lower + 16 ≤ payload.toNat ∧
        payload.toNat + Word.rounded size.toNat 16 ≤ block.upper ∧
        (ledger.granted build ⟨payload,size,align⟩).block.lower =
          (if 32 ≤ payload.toNat - 16 - block.lower then payload.toNat - 16 else block.lower) ∧
        (ledger.granted build ⟨payload,size,align⟩).block.upper =
          if 32 ≤ block.upper - (payload.toNat + Word.rounded size.toNat 16)
          then payload.toNat + Word.rounded size.toNat 16 else block.upper := by
  obtain ⟨request,placement,considers,rounds,found,rfl,outcome⟩ := valid.placed yields
  have asked := considers.whole rounds
  have sound := valid.placement_sound found asked
  obtain ⟨_,_,fits,_⟩ := Placement.find?_some found
  have header : (ledger.granted build ⟨placement.payload,size,align⟩).block =
      placement.reservation := congrArg Grant.block (valid.granted_eq found asked outcome)
  have padding := sound.padding_eq
  have lower := sound.reservation_lower
  have front := sound.front
  rw [header,← (Request.ofBytes?_some.mp rounds).1,← fits]
  refine ⟨placement.block,Placement.find?_mem found,front,sound.back,?_,sound.reservation_upper.trans sound.stop_eq⟩
  split at padding
  · rename_i alone
    rw [if_pos alone]
    omega
  · rename_i small
    rw [if_neg small]
    omega

theorem granting_arena (valid : Valid free ledger)
    (yields : ledger.Yields build size align payload) :
    (ledger.granting build ⟨payload,size,align⟩).state.heap.arena = ledger.state.heap.arena := by
  obtain ⟨_,_,_,_,_,_,outcome⟩ := valid.placed yields
  rw [Ledger.granting,outcome]
  rfl

end Valid

theorem Outcome.succeeds_payload {outcome : Outcome (Option Address)}
    (succeeds : (outcome.map .payload).Succeeds) : ∃ payload, outcome.result = .ok (some payload) := by
  obtain ⟨result,_,_⟩ := outcome
  rcases result with failed | none | payload
  · exact absurd succeeds id
  · exact absurd rfl succeeds
  · exact ⟨payload,rfl⟩

theorem Ledger.after_yields (performs : ledger.state.perform build action.call =
      (ledger.state.allocateAligned build size align).map .payload)
    (something : ledger.settle build action (.payload (some payload)) =
      ledger.granted build ⟨payload,size,align⟩ :: ledger.grants)
    (yields : ledger.Yields build size align payload) :
    ledger.after build action = ledger.granting build ⟨payload,size,align⟩ := by
  have told : ((ledger.state.allocateAligned build size align).map Answer.payload).result =
      .ok (.payload (some payload)) := congrArg (Except.map Answer.payload) yields
  unfold after
  rw [performs]
  simp only [told,something]
  rfl

namespace Valid

section Grown

variable (valid : Valid free left) (twin : Valid others right) (grown : left.Grown right)

include valid twin grown

theorem grown_granting (yields : left.Yields build size align payload) :
    (left.granting build ⟨payload,size,align⟩).Grown
      (right.granting build ⟨payload,size,align⟩) := by
  have met := valid.grown_yields twin grown yields
  obtain ⟨short,listed,low,high,lower,upper⟩ := valid.granted_block yields
  obtain ⟨long,follows,front,back,begins,ends⟩ := twin.granted_block met
  obtain ⟨same,edges⟩ := valid.grown_block twin grown listed follows
    (n := payload.toNat - 16) ⟨by omega,by omega⟩ ⟨by omega,by omega⟩ (by omega)
  have twins : Grant.Twins left.state.heap.arena.stop.toNat
      (left.granted build ⟨payload,size,align⟩) (right.granted build ⟨payload,size,align⟩) := by
    refine ⟨rfl,by rw [lower,begins,same],?_⟩
    rw [upper,ends]
    rcases edges with equal | ⟨last,longer⟩
    · rw [equal]
      exact .inl rfl
    · by_cases alone : 32 ≤ short.upper - (payload.toNat + Word.rounded size.toNat 16)
      · rw [if_pos alone,if_pos (by omega)]
        exact .inl rfl
      · rw [if_neg alone]
        exact .inr last
  obtain ⟨start,stop,there,returns⟩ := grown
  refine ⟨?_,?_,?_,?_⟩
  · rwa [valid.granting_arena yields,twin.granting_arena met]
  · rwa [valid.granting_arena yields,twin.granting_arena met]
  · rw [valid.granting_arena yields]
    refine List.forall_mem_cons.mpr ⟨⟨_,List.mem_cons_self,twins⟩,fun one member => ?_⟩
    obtain ⟨two,granted,pair⟩ := there one member
    exact ⟨two,List.mem_cons_of_mem _ granted,pair⟩
  · rw [valid.granting_arena yields]
    refine List.forall_mem_cons.mpr ⟨⟨_,List.mem_cons_self,twins⟩,fun two member => ?_⟩
    obtain ⟨one,granted,pair⟩ := returns two member
    exact ⟨one,List.mem_cons_of_mem _ granted,pair⟩

theorem grown_request (performs : ∀ ledger : Ledger, ledger.state.perform build action.call =
      (ledger.state.allocateAligned build size align).map .payload)
    (something : ∀ (ledger : Ledger) payload, ledger.settle build action (.payload (some payload)) =
      ledger.granted build ⟨payload,size,align⟩ :: ledger.grants)
    (succeeds : (left.state.perform build action.call).Succeeds) :
    (right.state.perform build action.call).result =
        (left.state.perform build action.call).result ∧
      (left.after build action).Grown (right.after build action) := by
  rw [performs] at succeeds
  obtain ⟨payload,yields⟩ := Outcome.succeeds_payload succeeds
  have met := valid.grown_yields twin grown yields
  rw [left.after_yields (performs left) (something left payload) yields,
    right.after_yields (performs right) (something right payload) met]
  refine ⟨?_,valid.grown_granting twin grown yields⟩
  rw [performs,performs]
  exact congrArg (Except.map Answer.payload) (met.trans yields.symm)

theorem grown_release (build : Build) (owns : left.Owns payload) (through : Address) :
    right.Owns payload ∧
      (right.state.perform build (.release (some payload))).result =
        (left.state.perform build (.release (some payload))).result ∧
      (left.after build ⟨.release (some payload),through⟩).Grown
        (right.after build ⟨.release (some payload),through⟩) := by
  obtain ⟨one,member,rfl⟩ := owns
  obtain ⟨start,stop,there,back⟩ := grown
  obtain ⟨two,granted,twins⟩ := there one member
  have same : one.payload = two.payload := congrArg Held.payload twins.held
  refine ⟨⟨two,granted,same.symm⟩,?_,?_⟩
  · rw [State.perform,State.perform,valid.release_eq build member,same,
      twin.release_eq build granted]
    rfl
  rw [valid.withdraws build member through,same,twin.withdraws build granted through,← same]
  refine ⟨start,stop,?_,?_⟩
  · intro other kept
    obtain ⟨out,differ⟩ := valid.mem_withdrawn_iff.mp kept
    obtain ⟨pair,found,twins⟩ := there other out
    rw [show other.payload = pair.payload from congrArg Held.payload twins.held] at differ
    exact ⟨pair,twin.mem_withdrawn_iff.mpr ⟨found,differ⟩,twins⟩
  · intro other kept
    obtain ⟨out,differ⟩ := twin.mem_withdrawn_iff.mp kept
    obtain ⟨pair,found,twins⟩ := back other out
    rw [show other.payload = pair.payload from (congrArg Held.payload twins.held).symm] at differ
    exact ⟨pair,valid.mem_withdrawn_iff.mpr ⟨found,differ⟩,twins⟩

-- One step of two such heaps, if it succeeds in the shorter arena.
theorem grown_after (trades : action.call.Trades) (allowed : left.Allowed action)
    (succeeds : (left.state.perform build action.call).Succeeds) :
    right.Allowed action ∧
      (right.state.perform build action.call).result =
        (left.state.perform build action.call).result ∧
      (left.after build action).Grown (right.after build action) := by
  obtain ⟨call,through⟩ := action
  cases call with
  | allocate size =>
    exact ⟨trivial,valid.grown_request twin grown (fun _ => rfl) (fun _ _ => rfl) succeeds⟩
  | allocateAligned size align =>
    exact ⟨trivial,valid.grown_request twin grown (fun _ => rfl) (fun _ _ => rfl) succeeds⟩
  | allocateLayout layout =>
    exact ⟨trivial,valid.grown_request twin grown (fun _ => rfl) (fun _ _ => rfl) succeeds⟩
  | release payload? =>
    cases payload? with
    | none => exact ⟨nofun,rfl,grown⟩
    | some payload =>
      obtain ⟨owns,result,later⟩ := valid.grown_release twin grown build (allowed payload rfl) through
      refine ⟨?_,result,later⟩
      rintro _ ⟨⟩
      exact owns
  | adopt | allocateZeroed | reallocate | store | load | copy | header | arena | advance =>
    exact False.elim trades

end Grown

-- By induction on the run, with two such heaps before each step.
theorem grown_run (valid : Valid free left) (twin : Valid others right) (grown : left.Grown right)
    (trades : ∀ action ∈ actions, action.call.Trades)
    (permitted : Ledger.Permitted build left actions)
    (succeed : ∀ outcome ∈ left.outcomes build actions, outcome.Succeeds) :
    Ledger.Permitted build right actions ∧
      (right.outcomes build actions).map (·.result) =
        (left.outcomes build actions).map (·.result) := by
  induction actions generalizing left right free others with
  | nil => exact ⟨trivial,rfl⟩
  | cons action rest ih =>
    obtain ⟨first,later⟩ := List.forall_mem_cons.mp trades
    obtain ⟨allowed,others⟩ := permitted
    obtain ⟨succeeds,remain⟩ := List.forall_mem_cons.mp succeed
    obtain ⟨permits,result,stays⟩ := valid.grown_after twin grown first allowed succeeds
    obtain ⟨_,next⟩ := valid.after build allowed
    obtain ⟨_,follower⟩ := twin.after build permits
    obtain ⟨final,results⟩ := ih next follower stays later others remain
    refine ⟨⟨permits,final⟩,?_⟩
    rw [Ledger.outcomes,Ledger.outcomes,List.map_cons,List.map_cons,result,results]

end Valid

theorem Ledger.fresh_grants (build : Build) (memory : Memory) (given : Span) :
    (fresh build memory given).grants = [] := by
  unfold fresh after
  dsimp only
  split <;> rfl

theorem Reached.fresh (build : Build) (memory : Memory) (given : small.Exists) :
    Reached build (Ledger.fresh build memory small) :=
  (Reached.start memory).step fun _ => given

-- What succeeds in one arena succeeds, with the same payloads, in every arena that starts where it
-- starts and ends no earlier.
theorem Ledger.longer_arena_agrees (build : Build) (former latter : Memory) (small large : Span)
    (actions : List Action) (exist : small.Exists) (goes : large.Exists)
    (start : (fresh build former small).state.heap.arena.start =
      (fresh build latter large).state.heap.arena.start)
    (stop : (fresh build former small).state.heap.arena.stop ≤
      (fresh build latter large).state.heap.arena.stop)
    (trades : ∀ action ∈ actions, action.call.Trades)
    (permitted : Permitted build (fresh build former small) actions)
    (succeed : ∀ outcome ∈ (fresh build former small).outcomes build actions, outcome.Succeeds) :
    Permitted build (fresh build latter large) actions ∧
      ((fresh build latter large).outcomes build actions).map (·.result) =
        ((fresh build former small).outcomes build actions).map (·.result) := by
  have grown : (fresh build former small).Grown (fresh build latter large) := by
    refine ⟨start,UInt64.le_iff_toNat_le.mp stop,?_,?_⟩
    · rw [fresh_grants]
      nofun
    · rw [fresh_grants]
      nofun
  exact (Reached.fresh build former exist).valid.grown_run (Reached.fresh build latter goes).valid
    grown trades permitted succeed

-- A granule more lets what is left behind the first payload stand alone, and adds to what goes with
-- the last.
theorem exercised_growth : ((Ledger.fresh .plain {} ⟨0x10000,0x10050⟩).outcomes .plain
    [⟨.allocate 32,0⟩,⟨.release (some 0x10010),0⟩,⟨.allocate 16,0⟩,⟨.allocateAligned 9 16,0⟩]).map
      (·.result) = [.ok (.payload (some 0x10010)),.ok .done,.ok (.payload (some 0x10010)),
        .ok (.payload (some 0x10030))] := by
  obtain ⟨_,agrees⟩ := Ledger.longer_arena_agrees .plain {} {} ⟨0x10000,0x10040⟩ ⟨0x10000,0x10050⟩
    [⟨.allocate 32,0⟩,⟨.release (some 0x10010),0⟩,⟨.allocate 16,0⟩,⟨.allocateAligned 9 16,0⟩]
    (by decide +kernel) (by decide +kernel) (by decide +kernel) (by decide +kernel)
    (by decide +kernel) (by decide +kernel) (by decide +kernel)
  rw [agrees]
  decide +kernel

end FreeListHeap
