import FreeListHeap.Proofs.Runs

namespace FreeListHeap

variable {build : Build} {size align : Word} {request : Request} {placement : Placement}
  {blocks free : List Block} {arena : Span} {ledger : Ledger}

-- A place for a payload, told without the list of free blocks. The granule in front of it is for
-- the header.
structure Ledger.Fits (ledger : Ledger) (size align q : Nat) : Prop where
  multiple : align ∣ q
  front : ledger.state.heap.arena.start.toNat + 16 ≤ q
  back : q + size ≤ ledger.state.heap.arena.stop.toNat
  clear : ∀ grant ∈ ledger.grants, ∀ n, q - 16 ≤ n → n < q + size →
    ¬ (ledger.state.reservation grant.payload).Has n

-- The free blocks are all that the allocations leave over, and each of them is as long as can be.
theorem Valid.fits_iff (valid : Valid free ledger) (size align q : Nat) :
    ledger.Fits size align q ↔ ∃ block ∈ free, block.Admits size align q := by
  constructor
  · rintro ⟨multiple,front,back,clear⟩
    have unreserved : ∀ block ∈ ledger.grants.map Grant.block, ∀ n, q - 16 ≤ n → n < q + size →
        ¬ block.Has n := by
      intro block member
      obtain ⟨grant,granted,rfl⟩ := List.mem_map.mp member
      rw [← valid.reservation granted]
      exact clear grant granted
    obtain ⟨block,listed,low,high⟩ := valid.tiles.within valid.listed.ordered
      (by omega) (by omega) back unreserved
    exact ⟨block,listed,multiple,by omega,high⟩
  · rintro ⟨block,listed,multiple,front,back⟩
    have bounds := valid.listed.inside block listed
    refine ⟨multiple,by omega,by omega,?_⟩
    intro grant granted n low high
    rw [valid.reservation granted]
    refine (valid.apart granted block listed).not_both ?_
    exact ⟨by omega,by omega⟩

namespace Placement

theorem find?_nowhere (whole : ∀ block ∈ blocks, block.Whole) (asked : request.Whole) :
    find? request blocks = none ↔
      ∀ q, ¬ ∃ block ∈ blocks, block.Admits request.size.toNat request.align.toNat q := by
  rw [find?_none]
  constructor
  · rintro refused q ⟨block,member,admits⟩
    exact (Block.payload?_none (whole block member) asked.positive).mp (refused block member) q admits
  · intro nowhere block member
    refine (Block.payload?_none (whole block member) asked.positive).mpr fun q admits => ?_
    exact nowhere q ⟨block,member,admits⟩

-- The blocks are in ascending order, so the first that fits has the lowest place of all.
theorem find?_least (listed : Listed arena blocks) (asked : request.Whole)
    (found : find? request blocks = some placement) :
    IsLeast {q | ∃ block ∈ blocks, block.Admits request.size.toNat request.align.toNat q}
      placement.payload.toNat := by
  have member := find?_mem found
  obtain ⟨rfl,fits,_,refused⟩ := find?_some found
  have whole := listed.whole
  obtain ⟨admits,least⟩ := (Block.payload?_some (whole _ member) asked.positive).mp fits
  refine ⟨⟨placement.block,member,admits⟩,?_⟩
  rintro q ⟨block,inside,other⟩
  rcases List.mem_append.mp inside with below | later
  · have none := (Block.payload?_none (whole block inside) asked.positive).mp (refused block below)
    exact absurd other (none q)
  · rcases List.mem_cons.mp later with rfl | above
    · exact least other
    · have ordered := (List.pairwise_append.mp listed.ordered).2.1
      have beyond := (List.pairwise_cons.mp ordered).1 block above
      have front := other.front
      have back := admits.back
      unfold Block.Below at beyond
      omega

end Placement

-- A power of two is below a granule and divides it, or is made of whole granules.
theorem Word.dvd_rounded_power {align : Nat} (power : align.isPowerOfTwo) :
    align ∣ rounded align 16 := by
  obtain ⟨k,rfl⟩ := power
  rcases Nat.le_total k 4 with small | large
  · exact Nat.dvd_trans (Nat.pow_dvd_pow 2 small) (dvd_rounded _ 16)
  · rw [rounded_multiple (Nat.succ_pos 15) (Nat.pow_dvd_pow 2 large)]

-- What is rounded beyond the largest word fits nowhere.
theorem Ledger.Fits.bounded {size align q : Nat} (fits : ledger.Fits size align q) :
    size < UInt64.size ∧ align < UInt64.size := by
  have multiple := Nat.le_of_dvd (by have := fits.front; omega) fits.multiple
  have back := fits.back
  have limit : ledger.state.heap.arena.stop.toNat < UInt64.size := UInt64.toNat_lt _
  omega

theorem Valid.answer (valid : Valid free ledger) (considers : build.Considers size align) :
    ∃ answer, (ledger.state.allocateAligned build size align).result = .ok answer ∧
      (∀ payload ∈ answer, IsLeast {q | ledger.Fits (Word.rounded size.toNat 16)
        (Word.rounded align.toNat 16) q} payload.toNat) ∧
      (answer = none → ∀ q, ¬ ledger.Fits (Word.rounded size.toNat 16)
        (Word.rounded align.toNat 16) q) := by
  have allocates := valid.allocates build size align
  generalize ledger.state.allocateAligned build size align = outcome at allocates ⊢
  cases allocates with
  | nothing void =>
    rcases void with unsized | unaligned
    · exact absurd unsized considers.sized
    · exact absurd unaligned considers.aligned
  | insists _ _ failing =>
    rw [considers.agrees] at failing
    cases failing
  | overflow _ overflows =>
    refine ⟨none,rfl,nofun,fun _ q fits => ?_⟩
    have bounded := fits.bounded
    have exceeds := Request.ofBytes?_none.mp overflows
    omega
  | @noFit request _ rounds nowhere =>
    obtain ⟨sizes,aligns⟩ := Request.ofBytes?_some.mp rounds
    rw [← sizes,← aligns]
    refine ⟨none,rfl,nofun,fun _ q fits => ?_⟩
    rw [Placement.find?_nowhere valid.listed.whole (considers.whole rounds)] at nowhere
    exact nowhere q ((valid.fits_iff _ _ q).mp fits)
  | @placed request placement _ rounds found =>
    obtain ⟨sizes,aligns⟩ := Request.ofBytes?_some.mp rounds
    rw [← sizes,← aligns]
    refine ⟨some placement.payload,rfl,?_,nofun⟩
    rintro payload ⟨⟩
    simp only [valid.fits_iff]
    exact Placement.find?_least valid.listed (considers.whole rounds) found

-- An allocation lands at the lowest address where the arena has room for it, and is refused only
-- if there is no such address.
theorem Reached.lowest_fit (reached : Reached build ledger) (sized : size ≠ 0) (aligned : align ≠ 0)
    (power : build = .checked → align.toNat.isPowerOfTwo) :
    ∃ answer, (ledger.state.allocateAligned build size align).result = .ok answer ∧
      (∀ payload, answer = some payload ↔ IsLeast {q | ledger.Fits (Word.rounded size.toNat 16)
        (Word.rounded align.toNat 16) q} payload.toNat) ∧
      (answer = none ↔ ∀ q, ¬ ledger.Fits (Word.rounded size.toNat 16)
        (Word.rounded align.toNat 16) q) ∧
      (align.toNat.isPowerOfTwo → ∀ payload ∈ answer, align.toNat ∣ payload.toNat) := by
  have agrees : build.failure [.powerOfTwo align] = none := by
    cases build with
    | plain => rfl
    | checked => exact Build.checked_failure.mpr (List.forall_mem_singleton.mpr (power rfl))
  obtain ⟨answer,told,least,nowhere⟩ := reached.valid.answer ⟨sized,aligned,agrees⟩
  refine ⟨answer,told,?_,?_,?_⟩
  · intro payload
    constructor
    · exact least payload
    · intro lowest
      cases answer with
      | none => exact absurd lowest.1 (nowhere rfl _)
      | some other =>
        have same := (least other rfl).unique lowest
        rw [UInt64.toNat_inj.mp same]
  · refine ⟨nowhere,fun none => ?_⟩
    cases answer with
    | none => rfl
    | some payload => exact absurd (least payload rfl).1 (none _)
  · intro power payload member
    exact Nat.dvd_trans (Word.dvd_rounded_power power) (least payload member).1.multiple

theorem exercised_lowest_fit : IsLeast {q | Ledger.exercised.Fits 32 48 q} 0x10020 := by
  obtain ⟨answer,told,lowest,_⟩ := Reached.lowest_fit Reached.exercised
    (by decide : (30 : Word) ≠ 0) (by decide : (40 : Word) ≠ 0) nofun
  have placed : (Ledger.exercised.state.allocateAligned .plain 30 40).result =
      .ok (some 0x10020) := by decide +kernel
  have same : answer = some 0x10020 := Except.ok.inj (told.symm.trans placed)
  exact (lowest 0x10020).mp same

end FreeListHeap
