import FreeListHeap.Proofs.Lockstep
import FreeListHeap.Proofs.LowestFit

namespace FreeListHeap

variable {build : Build} {ledger left right : Ledger} {free others : List Block} {action : Action}
  {actions : List Action} {given arena : Span} {payload : Address} {one two payloads : List Address} {tag : Address × Header}

namespace Ledger

-- Gives these allocations back, one after the other.
def releases (payloads : List Address) : List Action :=
  payloads.map fun payload => ⟨.release (some payload),0⟩

-- A run that gives back all that it has taken, and nothing that was out before. It stays with one
-- arena, so a heap that manages nothing yet is not given one on the way.
structure RoundTrip (build : Build) (ledger : Ledger) (actions : List Action) : Prop where
  permitted : Permitted build ledger actions
  keeps : ∀ n payload, ledger.Owns payload → (ledger.run build (actions.take n)).Owns payload
  returns : ∀ payload, (ledger.run build actions).Owns payload → ledger.Owns payload
  vacant : ledger.state.heap.arena.isEmpty → (ledger.run build actions).state.heap.arena.isEmpty

-- There are no more stages of a run than it has actions.
theorem roundTrip_iff : ledger.RoundTrip build actions ↔ Permitted build ledger actions ∧
    (∀ n < actions.length + 1, ∀ grant ∈ ledger.grants,
      (ledger.run build (actions.take n)).Owns grant.payload) ∧
    (∀ grant ∈ (ledger.run build actions).grants, ledger.Owns grant.payload) ∧
    (ledger.state.heap.arena.isEmpty → (ledger.run build actions).state.heap.arena.isEmpty) := by
  constructor
  · intro trip
    exact ⟨trip.permitted,fun n _ grant member => trip.keeps n _ ⟨grant,member,rfl⟩,
      fun grant member => trip.returns _ ⟨grant,member,rfl⟩,trip.vacant⟩
  · rintro ⟨permitted,keeps,returns,vacant⟩
    refine ⟨permitted,?_,?_,vacant⟩
    · rintro n _ ⟨grant,member,rfl⟩
      rw [List.take_eq_take_min]
      exact keeps _ (Nat.lt_succ_of_le (Nat.min_le_right _ _)) grant member
    · rintro _ ⟨grant,member,rfl⟩
      exact returns grant member

instance (build : Build) (ledger : Ledger) (actions : List Action) :
    Decidable (ledger.RoundTrip build actions) :=
  decidable_of_iff _ roundTrip_iff.symm

theorem owned (owns : ledger.Owns payload) :
    (payload,ledger.state.memory.readHeader payload) ∈ ledger.live :=
  ⟨owns,rfl⟩

end Ledger

namespace Valid

theorem live_tags (valid : Valid free ledger) :
    ledger.live = {tag | tag ∈ ledger.grants.map Grant.tag} := by
  rw [valid.live_eq]
  exact Set.ext fun tag => List.mem_map.symm

theorem live_release (valid : Valid free ledger) (build : Build) (owns : ledger.Owns payload)
    (through : Address) :
    (ledger.after build ⟨.release (some payload),through⟩).state.heap.arena =
        ledger.state.heap.arena ∧
      (ledger.after build ⟨.release (some payload),through⟩).live =
        {tag | tag ∈ ledger.live ∧ tag.1 ≠ payload} := by
  have allowed : ledger.Allowed ⟨.release (some payload),through⟩ := by
    rintro _ ⟨⟩
    exact owns
  have accepts : build.Accepts (.release (some payload)) := .inr id
  have planned := (valid.planned_release owns through).accepted allowed accepts
  have follows := planned.follows ledger valid ⟨rfl,rfl⟩
  rw [follows.state,follows.settles]
  refine ⟨rfl,?_⟩
  ext tag
  simp [Plan.settle]

-- By induction on the allocations that are to be given back: one goes, and the others are still
-- out.
theorem live_releases (valid : Valid free ledger) (build : Build) (distinct : payloads.Nodup)
    (owned : ∀ payload ∈ payloads, ledger.Owns payload) :
    Ledger.Permitted build ledger (Ledger.releases payloads) ∧
      (ledger.run build (Ledger.releases payloads)).state.heap.arena = ledger.state.heap.arena ∧
      (ledger.run build (Ledger.releases payloads)).live =
        {tag | tag ∈ ledger.live ∧ tag.1 ∉ payloads} := by
  induction payloads generalizing ledger free with
  | nil =>
    refine ⟨trivial,rfl,?_⟩
    simp [Ledger.releases,Ledger.run]
  | cons payload rest ih =>
    obtain ⟨apart,distinct⟩ := List.nodup_cons.mp distinct
    obtain ⟨first,later⟩ := List.forall_mem_cons.mp owned
    have allowed : ledger.Allowed ⟨.release (some payload),0⟩ := by
      rintro _ ⟨⟩
      exact first
    obtain ⟨arena,live⟩ := valid.live_release build first 0
    obtain ⟨_,next⟩ := valid.after build allowed
    have still : ∀ other ∈ rest,
        (ledger.after build ⟨.release (some payload),0⟩).Owns other := by
      intro other member
      have tagged := Ledger.owned (later other member)
      have kept : (other,ledger.state.memory.readHeader other) ∈
          (ledger.after build ⟨.release (some payload),0⟩).live := by
        rw [live]
        refine ⟨tagged,?_⟩
        rintro rfl
        exact apart member
      exact kept.1
    obtain ⟨permitted,same,final⟩ := ih next distinct still
    refine ⟨⟨allowed,permitted⟩,same.trans arena,final.trans ?_⟩
    rw [live]
    ext tag
    simp [and_assoc]

-- An allocation that is out before and after an action has the header that it had.
theorem keeps (valid : Valid free ledger) (build : Build) (allowed : ledger.Allowed action)
    (tagged : tag ∈ ledger.live) (still : (ledger.after build action).Owns tag.1) :
    tag ∈ (ledger.after build action).live := by
  rcases valid.stays_or_follows build allowed with stays | ⟨plan,planned,follows⟩
  · rwa [stays]
  have kept := Ledger.owned still
  rw [follows.settles] at kept ⊢
  rcases kept with ⟨_,remains⟩ | handed
  · exact .inl ⟨tagged,remains⟩
  · have fresh := planned.fresh _ (Option.mem_def.mpr handed.symm)
    exact absurd tagged.1 fresh

theorem keeps_run (valid : Valid free ledger) (permitted : Ledger.Permitted build ledger actions)
    (tagged : tag ∈ ledger.live)
    (still : ∀ n, (ledger.run build (actions.take n)).Owns tag.1) :
    tag ∈ (ledger.run build actions).live := by
  induction actions generalizing ledger free with
  | nil => exact tagged
  | cons action rest ih =>
    obtain ⟨allowed,others⟩ := permitted
    obtain ⟨_,next⟩ := valid.after build allowed
    exact ih next others (valid.keeps build allowed tagged (still 1)) fun n => still (n + 1)

theorem arena_after (valid : Valid free ledger) (build : Build) (allowed : ledger.Allowed action)
    (managing : ¬ ledger.state.heap.arena.isEmpty) :
    (ledger.after build action).state.heap.arena = ledger.state.heap.arena := by
  rcases valid.stays_or_follows build allowed with stays | ⟨plan,planned,follows⟩
  · rw [stays]
  · rw [follows.state]
    exact planned.arena.resolve_right fun vacant => managing vacant.1

-- An arena that was taken over is never given up for another.
theorem arena_run (valid : Valid free ledger) (permitted : Ledger.Permitted build ledger actions)
    (managing : ¬ ledger.state.heap.arena.isEmpty) :
    (ledger.run build actions).state.heap.arena = ledger.state.heap.arena := by
  induction actions generalizing ledger free with
  | nil => rfl
  | cons action rest ih =>
    obtain ⟨allowed,others⟩ := permitted
    obtain ⟨_,next⟩ := valid.after build allowed
    have same := valid.arena_after build allowed managing
    rw [← same] at managing
    exact (ih next others managing).trans same

theorem nowhere (valid : Valid free ledger) (vacant : ledger.state.heap.arena.isEmpty) :
    ledger.state.heap.arena = ⟨0,0⟩ := by
  rcases valid.arena with none | ⟨_,_,_,large⟩
  · exact none
  · have empty := Span.isEmpty_iff.mp vacant
    omega

theorem round_trip (valid : Valid free ledger) (trip : ledger.RoundTrip build actions)
    (final : Valid others (ledger.run build actions)) : (ledger.run build actions).Alike ledger := by
  have there : ∀ tag ∈ ledger.live, tag ∈ (ledger.run build actions).live := fun tag tagged =>
    valid.keeps_run trip.permitted tagged fun n => trip.keeps n tag.1 tagged.1
  refine ⟨?_,Set.Subset.antisymm ?_ there⟩
  · by_cases vacant : ledger.state.heap.arena.isEmpty
    · rw [valid.nowhere vacant,final.nowhere (trip.vacant vacant)]
    · exact valid.arena_run trip.permitted vacant
  · rintro ⟨payload,header⟩ ⟨owns,reads⟩
    have tagged := Ledger.owned (trip.returns payload owns)
    have same : header = ledger.state.memory.readHeader payload := reads.symm.trans (there _ tagged).2
    rw [same]
    exact tagged

theorem same_answer (valid : Valid free left) (twin : Valid others right)
    (alike : left.Alike right) (build : Build) (size align : Word) :
    (left.state.allocateAligned build size align).result =
      (right.state.allocateAligned build size align).result := by
  have replies := (valid.tally build twin alike (.same ⟨.allocateAligned size align,0⟩) trivial).replies
  simp only [State.perform,Outcome.map] at replies
  revert replies
  cases (left.state.allocateAligned build size align).result <;>
    cases (right.state.allocateAligned build size align).result <;>
    simp [Reply.ofResult,Reply.veiled,Answer.veiled,Except.map]

-- With no allocation out, the whole arena is one block.
theorem whole_arena (valid : Valid free ledger) (managing : ¬ ledger.state.heap.arena.isEmpty)
    (nobody : ledger.grants = []) :
    free = [⟨ledger.state.heap.arena.start,ledger.state.heap.arena.length⟩] := by
  obtain ⟨_,start,stop,large⟩ := valid.arena.resolve_left fun none => managing (by rw [none]; rfl)
  obtain ⟨whole,undivided⟩ := ledger.state.heap.arena.undivided start stop large
  have tiles := valid.tiles
  rw [nobody] at tiles
  exact tiles.free_unique undivided (fun _ => Iff.rfl) valid.listed.ordered
    (List.pairwise_singleton _ _) valid.listed.whole (List.forall_mem_singleton.mpr whole)

-- There is one place then for all of the arena but a header.
theorem fits_all (valid : Valid free ledger) (managing : ¬ ledger.state.heap.arena.isEmpty)
    (nobody : ledger.grants = []) (q : Nat) :
    ledger.Fits (ledger.state.heap.arena.length.toNat - 16) 16 q ↔
      q = ledger.state.heap.arena.start.toNat + 16 := by
  obtain ⟨_,start,stop,large⟩ := valid.arena.resolve_left fun none => managing (by rw [none]; rfl)
  have length := ledger.state.heap.arena.toNat_length
  constructor
  · rintro ⟨_,front,back,_⟩
    omega
  · rintro rfl
    refine ⟨by omega,Nat.le_refl _,by omega,?_⟩
    rw [nobody]
    nofun

theorem allocate_all (valid : Valid free ledger) (build : Build)
    (managing : ¬ ledger.state.heap.arena.isEmpty) (nobody : ledger.grants = []) :
    (ledger.state.allocate build (ledger.state.heap.arena.length - headerSize)).result =
      .ok (some (ledger.state.heap.arena.start + headerSize)) := by
  obtain ⟨_,start,stop,large⟩ := valid.arena.resolve_left fun none => managing (by rw [none]; rfl)
  have length := ledger.state.heap.arena.toNat_length
  have bounded : ledger.state.heap.arena.stop.toNat < UInt64.size := UInt64.toNat_lt _
  have size : (ledger.state.heap.arena.length - headerSize).toNat =
      ledger.state.heap.arena.length.toNat - 16 := by
    rw [Word.toNat_sub (by rw [toNat_headerSize]; omega),toNat_headerSize]
  have payload : (ledger.state.heap.arena.start + headerSize).toNat =
      ledger.state.heap.arena.start.toNat + 16 := by
    rw [Word.toNat_add (by rw [toNat_headerSize]; omega),toNat_headerSize]
  have considers : build.Considers (ledger.state.heap.arena.length - headerSize)
      Request.wordAlign := by
    refine ⟨fun none => ?_,by decide,build.accepts_power (by decide)⟩
    rw [none] at size
    change 0 = _ at size
    omega
  have rounds : Word.rounded (ledger.state.heap.arena.length - headerSize).toNat 16 =
      ledger.state.heap.arena.length.toNat - 16 := by
    rw [size]
    exact Word.rounded_multiple (Nat.succ_pos 15) (by omega)
  have unit : Word.rounded Request.wordAlign.toNat 16 = 16 := by decide
  obtain ⟨answer,told,least,nowhere⟩ := valid.answer considers
  rw [rounds,unit] at least nowhere
  cases answer with
  | none => exact absurd ((valid.fits_all managing nobody _).mpr rfl) (nowhere rfl _)
  | some address =>
    have place := (valid.fits_all managing nobody _).mp (least address rfl).1
    rw [← UInt64.toNat_inj.mp (place.trans payload.symm)]
    exact told

-- A heap that has nothing out is as good as new.
theorem vacated (valid : Valid free ledger) (build : Build)
    (managing : ¬ ledger.state.heap.arena.isEmpty) (nobody : ∀ payload, ¬ ledger.Owns payload) :
    ledger.state.freeBlocks = [⟨ledger.state.heap.arena.start,ledger.state.heap.arena.length⟩] ∧
      (ledger.state.allocate build (ledger.state.heap.arena.length - headerSize)).result =
        .ok (some (ledger.state.heap.arena.start + headerSize)) := by
  have none : ledger.grants = [] := List.eq_nil_iff_forall_not_mem.mpr fun grant member =>
    nobody grant.payload ⟨grant,member,rfl⟩
  refine ⟨?_,valid.allocate_all build managing none⟩
  rw [valid.freeBlocks]
  exact valid.whole_arena managing none

theorem adopts (valid : Valid free ledger) (build : Build) (vacant : ledger.state.heap.arena.isEmpty)
    (taken : given.arena? = .ok arena) (existing : given.Exists) :
    (ledger.state.adopt build given).result = .ok (.ok ()) ∧
      (∀ payload, ¬ (ledger.after build ⟨.adopt given,0⟩).Owns payload) ∧
      (ledger.after build ⟨.adopt given,0⟩).state.heap.arena = arena ∧
      ¬ (ledger.after build ⟨.adopt given,0⟩).state.heap.arena.isEmpty := by
  have nonzero : arena.start ≠ 0 := existing arena (by rw [taken]; rfl)
  have outcome := adopt_single build vacant taken nonzero
  obtain ⟨_,nobody⟩ := valid.vacant vacant
  have large := (Span.arena?_ok taken).2.2
  have settled : ledger.after build ⟨.adopt given,0⟩ =
      ⟨ledger.state.changed arena (.single ⟨arena.start,arena.length⟩),[]⟩ := by
    rw [Ledger.after,State.perform,outcome,← nobody]
    rfl
  rw [settled,outcome]
  refine ⟨rfl,?_,rfl,fun empty => ?_⟩
  · rintro payload ⟨_,nothing,_⟩
    cases nothing
  · have backward : arena.stop.toNat ≤ arena.start.toNat := Span.isEmpty_iff.mp empty
    omega

-- Two orders of giving back the same allocations end with the same ones still out.
theorem releases_perm (valid : Valid free ledger) (build : Build) (perm : one.Perm two)
    (distinct : one.Nodup) (owned : ∀ payload ∈ one, ledger.Owns payload) :
    Ledger.Permitted build ledger (Ledger.releases one) ∧
      Ledger.Permitted build ledger (Ledger.releases two) ∧
      (ledger.run build (Ledger.releases one)).Alike
        (ledger.run build (Ledger.releases two)) := by
  obtain ⟨permitted,arena,live⟩ := valid.live_releases build distinct owned
  obtain ⟨permits,same,others⟩ := valid.live_releases build (perm.nodup_iff.mp distinct)
    fun payload member => owned payload (perm.mem_iff.mpr member)
  refine ⟨permitted,permits,arena.trans same.symm,?_⟩
  rw [live,others]
  ext tag
  exact and_congr_right fun _ => not_congr perm.mem_iff

end Valid

-- The free blocks follow from the arena and the allocations that are out, by whatever way the heap
-- has come to them, and so does all that the heap does from there on.
theorem Reached.path_independent (reached : Reached build ledger) :
    (∀ other, Reached build other → ledger.state.heap.arena = other.state.heap.arena →
      ledger.live = other.live →
        ledger.state.freeBlocks = other.state.freeBlocks ∧
          ledger.state.freeBytes = other.state.freeBytes ∧
          ∀ actions, Ledger.Permitted build ledger actions →
            Ledger.Permitted build other actions ∧
              (ledger.reports build actions).map Report.veiled =
                (other.reports build actions).map Report.veiled) ∧
      (∀ one two : List Address, one.Perm two → one.Nodup →
        (∀ payload ∈ one, ledger.Owns payload) →
          Ledger.Permitted build ledger (Ledger.releases one) ∧
            Ledger.Permitted build ledger (Ledger.releases two) ∧
            (ledger.run build (Ledger.releases one)).state.freeBlocks =
              (ledger.run build (Ledger.releases two)).state.freeBlocks) ∧
      (∀ actions, ledger.RoundTrip build actions →
        (ledger.run build actions).state.freeBlocks = ledger.state.freeBlocks ∧
          ∀ size align, ((ledger.run build actions).state.allocateAligned build size align).result =
            (ledger.state.allocateAligned build size align).result) ∧
      (¬ ledger.state.heap.arena.isEmpty → (∀ payload, ¬ ledger.Owns payload) →
        ledger.state.freeBlocks =
            [⟨ledger.state.heap.arena.start,ledger.state.heap.arena.length⟩] ∧
          (ledger.state.allocate build (ledger.state.heap.arena.length - headerSize)).result =
            .ok (some (ledger.state.heap.arena.start + headerSize))) ∧
      (∀ given arena : Span, ledger.state.heap.arena.isEmpty → given.arena? = .ok arena →
        given.Exists → let fresh := ledger.after build ⟨.adopt given,0⟩
        (ledger.state.adopt build given).result = .ok (.ok ()) ∧
          (∀ payload, ¬ fresh.Owns payload) ∧
          ∀ actions, Ledger.Permitted build fresh actions →
            (∀ payload, ¬ (fresh.run build actions).Owns payload) →
              (fresh.run build actions).state.freeBlocks = [⟨arena.start,arena.length⟩] ∧
                ((fresh.run build actions).state.allocate build (arena.length - headerSize)).result =
                  .ok (some (arena.start + headerSize))) := by
  have valid := reached.valid
  refine ⟨?_,?_,?_,fun managing nobody => valid.vacated build managing nobody,?_⟩
  · intro other arrived arena live
    have twin := arrived.valid
    have alike : ledger.Alike other := ⟨arena,live⟩
    obtain ⟨blocks,bytes⟩ := valid.same_blocks twin alike
    refine ⟨blocks,bytes,fun actions permitted => ?_⟩
    have matching : List.Forall₂ Action.Matches actions actions :=
      List.forall₂_same.mpr fun action _ => .same action
    obtain ⟨permits,reports,_⟩ := valid.lockstep twin alike matching permitted
    exact ⟨permits,reports⟩
  · intro one two perm distinct owned
    obtain ⟨permitted,permits,alike⟩ := valid.releases_perm build perm distinct owned
    have blocks := (reached.run permitted).valid.same_blocks (reached.run permits).valid alike
    exact ⟨permitted,permits,blocks.1⟩
  · intro actions trip
    have final := (reached.run trip.permitted).valid
    have alike := valid.round_trip trip final
    exact ⟨(final.same_blocks valid alike).1,final.same_answer valid alike build⟩
  · intro given arena vacant taken existing
    have allowed : ledger.Allowed ⟨.adopt given,0⟩ := fun _ => existing
    obtain ⟨adopted,nobody,manages,managing⟩ := valid.adopts build vacant taken existing
    refine ⟨adopted,nobody,fun actions permitted emptied => ?_⟩
    have next := reached.step allowed
    have same := next.valid.arena_run permitted managing
    rw [← same] at managing
    have whole := (next.run permitted).valid.vacated build managing emptied
    rw [same,manages] at whole
    exact whole

-- Two histories with the same two allocations out at the end, and from there on: both go on in the
-- same way, both orders of giving back leave one block, a round trip leaves no trace, and all of the
-- arena can be had at once, as it could when it was taken over.
theorem exercised_orders :
    let ledger := Ledger.exercised
    let other := Ledger.run .plain {} [⟨.adopt ⟨0x10010,0x1010f⟩,0⟩,⟨.allocate 20,0⟩,
      ⟨.allocateAligned 20 32,0⟩,⟨.allocate 100,0⟩,⟨.allocate 100,0⟩,⟨.release (some 0x10090),0⟩,
      ⟨.release (some 0x10020),0⟩,⟨.allocate 40,0⟩,⟨.allocate 30,0⟩,⟨.release (some 0x10020),0⟩]
    let next : List Action := [⟨.allocateAligned 30 16,0⟩,⟨.release (some 0x10060),0⟩]
    let trip : List Action := [⟨.allocate 30,0⟩,⟨.allocateAligned 10 32,0⟩,
      ⟨.release (some 0x10020),0⟩,⟨.release (some 0x100e0),0⟩]
    let emptied := ledger.run .plain (Ledger.releases [0x10060,0x10090])
    let fresh := ({} : Ledger).after .plain ⟨.adopt ⟨0x10001,0x10100⟩,0⟩
    other.state.freeBlocks = [⟨0x10010,48⟩,⟨0x100c0,64⟩] ∧ other.state.freeBytes = 112 ∧
    (other.reports .plain next).map Report.veiled =
      [⟨.answered (.payload (some 0x10020)),[⟨0x100c0,64⟩],64,[]⟩,
        ⟨.answered .done,[⟨0x10040,64⟩,⟨0x100c0,64⟩],128,[]⟩] ∧
    emptied.state.freeBlocks = [⟨0x10010,240⟩] ∧
    (ledger.run .plain (Ledger.releases [0x10090,0x10060])).state.freeBlocks = [⟨0x10010,240⟩] ∧
    ledger.RoundTrip .plain trip ∧
    (ledger.run .plain trip).state.freeBlocks = [⟨0x10010,48⟩,⟨0x100c0,64⟩] ∧
    ((ledger.run .plain trip).state.allocateAligned .plain 30 16).result = .ok (some 0x10020) ∧
    (emptied.state.allocate .plain 224).result = .ok (some 0x10020) ∧
    fresh.state.freeBlocks = [⟨0x10010,240⟩] ∧
    (fresh.state.allocate .plain 224).result = .ok (some 0x10020) := by
  intro ledger other next trip emptied fresh
  have arrived : Reached .plain other := (Reached.start {}).run (by decide +kernel)
  have blocks : ledger.state.freeBlocks = [⟨0x10010,48⟩,⟨0x100c0,64⟩] := by decide +kernel
  obtain ⟨pairs,orders,trips,_⟩ := Reached.path_independent Reached.exercised
  have alike : ledger.live = other.live := by
    rw [Reached.exercised.valid.live_tags,arrived.valid.live_tags]
    exact congrArg (fun tags : List (Address × Header) => {tag | tag ∈ tags}) (by decide +kernel)
  obtain ⟨same,bytes,goes⟩ := pairs other arrived (by decide +kernel) alike
  obtain ⟨_,reports⟩ := goes next (by decide +kernel)
  have owned : ∀ payload ∈ [(0x10060 : Address),0x10090], ledger.Owns payload :=
    List.forall_mem_cons.mpr ⟨by decide +kernel,List.forall_mem_singleton.mpr (by decide +kernel)⟩
  obtain ⟨gives,_,ends⟩ := orders [0x10060,0x10090] [0x10090,0x10060] (.swap _ _ _) (by decide) owned
  have nothing : emptied.grants = [] := List.eq_nil_of_length_eq_zero (by decide +kernel)
  have cleared : ∀ payload, ¬ emptied.Owns payload := by
    rintro payload ⟨grant,member,_⟩
    rw [nothing] at member
    cases member
  obtain ⟨_,_,_,vacated,_⟩ := Reached.path_independent (Reached.exercised.run gives)
  have left := vacated (by decide +kernel) cleared
  have manages : emptied.state.heap.arena = ⟨0x10010,0x10100⟩ := by decide +kernel
  change emptied.state.freeBlocks = _ ∧ (emptied.state.allocate _ _).result = _ at left
  rw [manages] at left
  have round : ledger.RoundTrip .plain trip := by decide +kernel
  obtain ⟨_,_,_,_,adopts⟩ := Reached.path_independent (Reached.start {} : Reached .plain _)
  obtain ⟨_,nobody,whole⟩ := adopts ⟨0x10001,0x10100⟩ ⟨0x10010,0x10100⟩ (by decide) (by decide)
    (by decide)
  obtain ⟨undivided,all⟩ := whole [] trivial nobody
  exact ⟨same.symm.trans blocks,bytes.symm.trans (by decide +kernel),
    reports.symm.trans (by decide +kernel),left.1,ends.symm.trans left.1,round,
    (trips trip round).1.trans blocks,((trips trip round).2 30 16).trans (by decide +kernel),left.2,
    undivided,all⟩

end FreeListHeap
