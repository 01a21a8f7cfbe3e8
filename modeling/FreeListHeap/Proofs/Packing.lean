import FreeListHeap.Proofs.Growth
import FreeListHeap.Proofs.PathIndependence

namespace FreeListHeap

variable {build : Build} {ledger later : Ledger} {free others : List Block} {size align : Word}
  {payload : Address} {order : List Address} {j k n q : Nat}

namespace Span

-- Where a series of equal allocations has come to after so many of them: each takes the next
-- aligned place that leaves room for its header, and then its whole granules.
def edge (arena : Span) (size align : Word) : Nat → Nat
  | 0 => arena.start.toNat
  | k + 1 => Word.rounded (arena.edge size align k + 16) (Word.rounded align.toNat 16) +
      Word.rounded size.toNat 16

def place (arena : Span) (size align : Word) (k : Nat) : Nat :=
  Word.rounded (arena.edge size align k + 16) (Word.rounded align.toNat 16)

variable (arena : Span) (size : Word) (aligned : align ≠ 0)

theorem edge_succ (align : Word) (k : Nat) : arena.edge size align (k + 1) =
    arena.place size align k + Word.rounded size.toNat 16 := rfl

include aligned

theorem place_least (k : Nat) :
    IsLeast {q | Word.rounded align.toNat 16 ∣ q ∧ arena.edge size align k + 16 ≤ q}
      (arena.place size align k) := by
  have positive : 0 < Word.rounded align.toNat 16 := by
    have granule := Word.granule_le_rounded aligned
    omega
  refine ⟨⟨Word.dvd_rounded _ _,Word.le_rounded _ positive⟩,?_⟩
  rintro q ⟨multiple,above⟩
  exact Word.rounded_le positive multiple above

theorem place_mono : Monotone (arena.place size align) := by
  refine monotone_nat_of_le_succ fun k => ?_
  have next := (arena.place_least size aligned (k + 1)).1.2
  rw [edge_succ] at next
  omega

theorem le_place (k : Nat) : arena.start.toNat + 16 ≤ arena.place size align k :=
  Nat.le_trans (arena.place_least size aligned 0).1.2 (arena.place_mono size aligned (Nat.zero_le k))

end Span

namespace Ledger

-- So many requests of one kind, one after the other, and the answer to the one that follows them.
def series (size align : Word) (n : Nat) : List Action :=
  List.replicate n ⟨.allocateAligned size align,0⟩

def answer (build : Build) (ledger : Ledger) (size align : Word) (n : Nat) :
    Except Assertion (Option Address) :=
  ((ledger.run build (series size align n)).state.allocateAligned build size align).result

-- A heap that has met so many of them: all of their places are reserved, and beyond them nothing
-- is, if what is left there can stand alone.
structure Packed (ledger : Ledger) (size align : Word) (k : Nat) : Prop where
  full : ∀ j < k, ∀ n, ledger.state.heap.arena.place size align j ≤ n + 16 →
    n < ledger.state.heap.arena.edge size align (j + 1) → ledger.Reserves n
  rest : ledger.state.heap.arena.edge size align k + 32 ≤ ledger.state.heap.arena.stop.toNat →
    ∀ n, ledger.state.heap.arena.edge size align k ≤ n → ¬ ledger.Reserves n

namespace Packed

variable (packed : ledger.Packed size align k) (sized : size ≠ 0) (aligned : align ≠ 0)

include packed aligned

-- By induction on the places that are taken: what overlaps with none of them comes after them all.
-- What is left between two of them is of no use, as no multiple of the alignment lies in it.
theorem beyond (fits : ledger.Fits (Word.rounded size.toNat 16) (Word.rounded align.toNat 16) q)
    (taken : j ≤ k) : ledger.state.heap.arena.place size align j ≤ q := by
  induction j with
  | zero => exact (Span.place_least _ size aligned 0).2 ⟨fits.multiple,fits.front⟩
  | succ j ih =>
    have before := ih (Nat.le_of_succ_le taken)
    have front := fits.front
    refine (Span.place_least _ size aligned (j + 1)).2 ⟨fits.multiple,?_⟩
    by_contra near
    obtain ⟨_,⟨grant,member,rfl⟩,has⟩ := packed.full j taken (q - 16) (by omega) (by omega)
    exact fits.clear grant member (q - 16) (Nat.le_refl _) (by omega) has

include sized

theorem fits (room : ledger.state.heap.arena.edge size align (k + 1) ≤
      ledger.state.heap.arena.stop.toNat) :
    ledger.Fits (Word.rounded size.toNat 16) (Word.rounded align.toNat 16)
      (ledger.state.heap.arena.place size align k) := by
  have granule := Word.granule_le_rounded sized
  obtain ⟨multiple,behind⟩ := (Span.place_least ledger.state.heap.arena size aligned k).1
  rw [Span.edge_succ] at room
  refine ⟨multiple,Span.le_place _ size aligned k,room,?_⟩
  intro grant member n low high has
  exact packed.rest (by omega) n (by omega) ⟨grant.payload,⟨grant,member,rfl⟩,has⟩

end Packed

-- Of such requests only those that are met add to what is out.
theorem owns_after (build : Build) (ledger : Ledger) (size align through : Word) :
    (ledger.after build ⟨.allocateAligned size align,through⟩).Owns payload ↔
      ledger.Owns payload ∨ ledger.Yields build size align payload := by
  unfold after Yields
  simp only [State.perform,Outcome.map]
  rcases (ledger.state.allocateAligned build size align).result with failed | none | met
  · simp [Except.map,Owns]
  · simp [Except.map,Owns,settle]
  · simp [Except.map,Owns,settle,granted]
    exact or_comm

theorem run_series (build : Build) (ledger : Ledger) (size align : Word) (n : Nat) :
    ledger.run build (series size align (n + 1)) =
      (ledger.run build (series size align n)).after build ⟨.allocateAligned size align,0⟩ := by
  rw [series,List.replicate_succ',run,List.foldl_append]
  rfl

theorem owns_series (build : Build) (ledger : Ledger) (size align : Word) (n : Nat) :
    (ledger.run build (series size align n)).Owns payload ↔
      ledger.Owns payload ∨ ∃ k < n, ledger.answer build size align k = .ok (some payload) := by
  induction n with
  | zero => simp [series,run]
  | succ n ih =>
    rw [run_series,owns_after,ih,or_assoc]
    refine or_congr_right ⟨?_,?_⟩
    · rintro (⟨k,less,met⟩ | met)
      · exact ⟨k,Nat.lt_succ_of_lt less,met⟩
      · exact ⟨n,Nat.lt_succ_self n,met⟩
    · rintro ⟨k,less,met⟩
      rcases Nat.lt_succ_iff_lt_or_eq.mp less with before | rfl
      · exact .inl ⟨k,before,met⟩
      · exact .inr met

theorem series_requests (size align : Word) (n : Nat) :
    ∀ action ∈ series size align n, action.call.Requests := by
  intro action member
  rw [List.eq_of_mem_replicate member]
  trivial

end Ledger

namespace Valid

section Packed

variable (valid : Valid free ledger) (packed : ledger.Packed size align k)
  (considers : build.Considers size align)

include valid packed considers

theorem packed_yields (room : ledger.state.heap.arena.edge size align (k + 1) ≤
      ledger.state.heap.arena.stop.toNat) : ∃ payload,
    ledger.Yields build size align payload ∧
      payload.toNat = ledger.state.heap.arena.place size align k := by
  have fits := packed.fits considers.sized considers.aligned room
  obtain ⟨payload,yields,below⟩ := valid.yields_of_fits considers fits
  have lowest := (valid.yields_least yields).2.1
  exact ⟨payload,yields,Nat.le_antisymm below (packed.beyond considers.aligned lowest (Nat.le_refl k))⟩

theorem packed_refuses (full : ledger.state.heap.arena.stop.toNat <
      ledger.state.heap.arena.edge size align (k + 1)) :
    (ledger.state.allocateAligned build size align).result = .ok none := by
  obtain ⟨answer,told,least,_⟩ := valid.answer considers
  cases answer with
  | none => exact told
  | some payload =>
    have fits := (least payload rfl).1
    have beyond := packed.beyond considers.aligned fits (Nat.le_refl k)
    have back := fits.back
    rw [Span.edge_succ] at full
    omega

omit considers in
-- The block that the payload lies in is the last one, so all behind the payload that cannot stand
-- alone is reserved with it, and all else stays free.
theorem packed_granting (yields : ledger.Yields build size align payload)
    (met : payload.toNat = ledger.state.heap.arena.place size align k)
    (next : Valid others (ledger.granting build ⟨payload,size,align⟩)) :
    (ledger.granting build ⟨payload,size,align⟩).Packed size align (k + 1) := by
  have arena := valid.granting_arena yields
  have aligned := (valid.yields_least yields).1.aligned
  have behind := (Span.place_least ledger.state.heap.arena size aligned k).1.2
  have edge := ledger.state.heap.arena.edge_succ size align k
  obtain ⟨block,listed,front,back,lower,upper⟩ := valid.granted_block yields
  rw [met] at front back lower upper
  constructor
  · rw [arena]
    intro j less n low high
    rcases Nat.lt_succ_iff_lt_or_eq.mp less with before | rfl
    · have reserves := packed.full j before n low high
      exact valid.reserves_of_subset next (List.subset_cons_self _ _) reserves
    · refine next.reserves_iff.mpr ⟨_,List.mem_cons_self,?_,?_⟩
      · rw [lower]
        split <;> omega
      · rw [upper]
        split <;> omega
  · rw [arena]
    intro alone n beyond reserves
    have rest := packed.rest (by omega)
    obtain ⟨grant,member,has⟩ := next.reserves_iff.mp reserves
    rcases List.mem_cons.mp member with rfl | before
    · have bounds := valid.listed.inside block listed
      have last : block.upper = ledger.state.heap.arena.stop.toNat := by
        refine Nat.le_antisymm bounds.2 (Nat.not_lt.mp fun more => ?_)
        exact rest block.upper (by omega) (valid.reserved_beside listed (by omega) more (.inr rfl))
      have ended := has.2
      rw [upper,last,if_pos (by omega)] at ended
      omega
    · exact rest n (by omega) (valid.reserves_iff.mpr ⟨grant,before,has⟩)

-- A request is met at the next place, or nothing changes.
theorem packed_after (through : Address) :
    (ledger.state.heap.arena.edge size align (k + 1) ≤ ledger.state.heap.arena.stop.toNat →
      (ledger.after build ⟨.allocateAligned size align,through⟩).Packed size align (k + 1)) ∧
    (ledger.state.heap.arena.stop.toNat < ledger.state.heap.arena.edge size align (k + 1) →
      ledger.after build ⟨.allocateAligned size align,through⟩ = ledger) := by
  constructor
  · intro room
    obtain ⟨payload,yields,met⟩ := valid.packed_yields packed considers room
    have allowed : ledger.Allowed ⟨.allocateAligned size align,through⟩ := trivial
    obtain ⟨_,next⟩ := valid.after build allowed
    rw [ledger.after_yields rfl rfl yields] at next ⊢
    exact valid.packed_granting packed yields met next
  · intro full
    obtain ⟨log,outcome⟩ := valid.refused (valid.packed_refuses packed considers full)
    refine Ledger.after_refused (congrArg (Outcome.map .payload) outcome) ?_ rfl
    intro payload met
    cases met

end Packed

end Valid

namespace Reached

variable (reached : Reached build ledger)

include reached

theorem series (size align : Word) (n : Nat) :
    Reached build (ledger.run build (Ledger.series size align n)) ∧
      (ledger.run build (Ledger.series size align n)).state.heap.arena = ledger.state.heap.arena := by
  have asks := Ledger.series_requests size align n
  have permitted := Ledger.permitted_requests build ledger asks
  exact ⟨reached.run permitted,reached.valid.requests_arena permitted asks⟩

variable (vacant : ∀ payload, ¬ ledger.Owns payload) (considers : build.Considers size align)

include vacant considers

-- By induction on the requests: each of them takes the next place, until one finds no room and
-- with it all that follow.
theorem packed (n : Nat) : ∃ k ≤ n,
    (ledger.run build (Ledger.series size align n)).Packed size align k ∧
      (k = n ∨ ledger.state.heap.arena.stop.toNat < ledger.state.heap.arena.edge size align (k + 1)) := by
  induction n with
  | zero =>
    refine ⟨0,Nat.le_refl 0,⟨nofun,?_⟩,.inl rfl⟩
    rintro _ n _ ⟨payload,owns,_⟩
    exact vacant payload owns
  | succ n ih =>
    obtain ⟨k,least,packed,reason⟩ := ih
    obtain ⟨prior,arena⟩ := reached.series size align n
    obtain ⟨meets,stays⟩ := prior.valid.packed_after packed considers 0
    rw [arena] at meets stays
    rw [Ledger.run_series]
    rcases Nat.lt_or_ge ledger.state.heap.arena.stop.toNat
      (ledger.state.heap.arena.edge size align (k + 1)) with full | room
    · rw [stays full]
      exact ⟨k,Nat.le_succ_of_le least,packed,.inr full⟩
    · obtain rfl := reason.resolve_right (Nat.not_lt.mpr room)
      exact ⟨k + 1,Nat.le_refl _,meets room,.inl rfl⟩

theorem filled :
    (∀ k, ledger.state.heap.arena.place size align k + Word.rounded size.toNat 16 ≤
        ledger.state.heap.arena.stop.toNat →
      ∃ payload, ledger.answer build size align k = .ok (some payload) ∧
        payload.toNat = ledger.state.heap.arena.place size align k) ∧
    ∀ k n, ledger.state.heap.arena.stop.toNat <
        ledger.state.heap.arena.place size align k + Word.rounded size.toNat 16 → k ≤ n →
      ledger.answer build size align n = .ok none := by
  have mono := ledger.state.heap.arena.place_mono size considers.aligned
  have edge := ledger.state.heap.arena.edge_succ size align
  constructor
  · intro k room
    obtain ⟨j,least,packed,reason⟩ := reached.packed vacant considers k
    obtain ⟨prior,arena⟩ := reached.series size align k
    have same : j = k := by
      refine reason.resolve_right fun full => ?_
      have lower := mono least
      rw [edge] at full
      omega
    subst same
    have met := prior.valid.packed_yields packed considers
    rw [arena] at met
    exact met room
  · intro k n full beyond
    obtain ⟨j,_,packed,reason⟩ := reached.packed vacant considers n
    obtain ⟨prior,arena⟩ := reached.series size align n
    refine prior.valid.packed_refuses packed considers ?_
    rw [arena]
    rcases reason with rfl | sooner
    · have lower := mono beyond
      rw [edge]
      omega
    · exact sooner

-- The arena alone decides the answers of a series that starts with nothing out.
theorem filled_alike (other : Reached build later) (empty : ∀ payload, ¬ later.Owns payload)
    (arena : later.state.heap.arena = ledger.state.heap.arena) (k : Nat) :
    later.answer build size align k = ledger.answer build size align k := by
  obtain ⟨meets,refuses⟩ := reached.filled vacant considers
  obtain ⟨met,refused⟩ := other.filled empty considers
  rw [arena] at met refused
  rcases Nat.lt_or_ge ledger.state.heap.arena.stop.toNat
    (ledger.state.heap.arena.place size align k + Word.rounded size.toNat 16) with full | room
  · rw [refused k k full (Nat.le_refl k),refuses k k full (Nat.le_refl k)]
  · obtain ⟨one,left,there⟩ := met k room
    obtain ⟨two,right,here⟩ := meets k room
    rw [left,right,UInt64.toNat_inj.mp (there.trans here.symm)]

omit considers in
theorem emptied (distinct : order.Nodup) (returned : ∀ payload, payload ∈ order ↔
      ∃ k < n, ledger.answer build size align k = .ok (some payload)) :
    Ledger.Permitted build (ledger.run build (Ledger.series size align n)) (Ledger.releases order) ∧
      ((ledger.run build (Ledger.series size align n)).run build
        (Ledger.releases order)).state.heap.arena = ledger.state.heap.arena ∧
      ∀ payload, ¬ ((ledger.run build (Ledger.series size align n)).run build
        (Ledger.releases order)).Owns payload := by
  obtain ⟨prior,arena⟩ := reached.series size align n
  obtain ⟨permitted,same,live⟩ := prior.valid.live_releases build distinct fun payload member =>
    (ledger.owns_series build size align n).mpr (.inr ((returned payload).mp member))
  refine ⟨permitted,same.trans arena,fun payload owns => ?_⟩
  have left := Ledger.owned owns
  rw [live] at left
  refine left.2 ((returned payload).mpr ?_)
  exact ((ledger.owns_series build size align n).mp left.1.1).resolve_left (vacant payload)

end Reached

-- Equal requests fill a heap that has nothing out, as a fresh one has not, from its start on
-- without a gap that could have been avoided, and are all refused once the next place is not there.
-- When what they were handed is given back, in any order, they are handed the same again.
theorem Reached.packs_exactly (reached : Reached build ledger)
    (vacant : ∀ payload, ¬ ledger.Owns payload) (sized : size ≠ 0) (aligned : align ≠ 0)
    (aligns : build.Aligns align) :
    (∀ k, ledger.state.heap.arena.place size align k + Word.rounded size.toNat 16 ≤
        ledger.state.heap.arena.stop.toNat →
      ∃ payload, ledger.answer build size align k = .ok (some payload) ∧
        payload.toNat = ledger.state.heap.arena.place size align k) ∧
    (∀ k n, ledger.state.heap.arena.stop.toNat <
        ledger.state.heap.arena.place size align k + Word.rounded size.toNat 16 → k ≤ n →
      ledger.answer build size align n = .ok none) ∧
    ∀ n (order : List Address), order.Nodup → (∀ payload, payload ∈ order ↔
        ∃ k < n, ledger.answer build size align k = .ok (some payload)) →
      Ledger.Permitted build (ledger.run build (Ledger.series size align n))
          (Ledger.releases order) ∧
        ∀ k, ((ledger.run build (Ledger.series size align n)).run build
          (Ledger.releases order)).answer build size align k =
            ledger.answer build size align k := by
  have considers : build.Considers size align :=
    Build.considers_iff.mpr ⟨sized,aligned,aligns⟩
  obtain ⟨meets,refuses⟩ := reached.filled vacant considers
  refine ⟨meets,refuses,fun n order distinct returned => ?_⟩
  obtain ⟨permitted,arena,empty⟩ := reached.emptied vacant distinct returned
  obtain ⟨prior,_⟩ := reached.series size align n
  exact ⟨permitted,reached.filled_alike vacant considers (prior.run permitted) empty arena⟩

-- A fragment in front of each of three allocations, and a granule behind the last.
theorem exercised_packing :
    let ledger := Ledger.fresh .checked {} ⟨0x10001,0x100e8⟩
    (∃ payload, ledger.answer .checked 9 64 2 = .ok (some payload) ∧ payload.toNat = 0x100c0) ∧
      ledger.answer .checked 9 64 7 = .ok none ∧
      ((ledger.run .checked (Ledger.series 9 64 5)).run .checked
        (Ledger.releases [0x10080,0x100c0,0x10040])).answer .checked 9 64 2 =
          ledger.answer .checked 9 64 2 := by
  intro ledger
  have reached : Reached .checked ledger := Reached.fresh .checked {} (by decide +kernel)
  have vacant : ∀ payload, ¬ ledger.Owns payload := by
    rintro payload ⟨grant,member,_⟩
    rw [Ledger.fresh_grants] at member
    cases member
  obtain ⟨meets,refuses,refills⟩ := Reached.packs_exactly reached vacant
    (by decide : (9 : Word) ≠ 0) (by decide : (64 : Word) ≠ 0) (fun _ => by decide +kernel)
  have arena : ledger.state.heap.arena = ⟨0x10010,0x100e0⟩ := by decide +kernel
  have answers : (List.range 5).map (ledger.answer .checked 9 64) =
      [.ok (some 0x10040),.ok (some 0x10080),.ok (some 0x100c0),.ok none,.ok none] := by
    decide +kernel
  rw [arena] at meets refuses
  refine ⟨meets 2 (by decide),refuses 3 7 (by decide) (by decide),?_⟩
  refine (refills 5 [0x10080,0x100c0,0x10040] (by decide) fun payload => ?_).2 2
  have handed : (∃ k < 5, ledger.answer .checked 9 64 k = .ok (some payload)) ↔
      .ok (some payload) ∈ (List.range 5).map (ledger.answer .checked 9 64) := by
    simp
  rw [handed,answers]
  grind

end FreeListHeap
