import FreeListHeap.Proofs.Listing

namespace FreeListHeap

variable {given arena : Span}

-- The largest range of whole granules inside a range of addresses.
structure Span.Trims (given arena : Span) : Prop where
  start : arena.start.toNat = Word.rounded given.start.toNat 16
  stop : arena.stop.toNat = given.stop.toNat / 16 * 16
  whole : 16 ∣ arena.start.toNat ∧ 16 ∣ arena.stop.toNat
  inside : given.start ≤ arena.start ∧ arena.stop ≤ given.stop
  largest : ∀ low high, 16 ∣ low → 16 ∣ high → given.start.toNat ≤ low →
    high ≤ given.stop.toNat → arena.start.toNat ≤ low ∧ high ≤ arena.stop.toNat

namespace Span

theorem toNat_trim_stop (given : Span) : given.trim.stop.toNat = given.stop.toNat / 16 * 16 :=
  Word.toNat_roundDown _ _

-- If no word can hold the start rounded up, it is beyond the stop all the same.
theorem toNat_trim_length (given : Span) : given.trim.length.toNat =
    given.stop.toNat / 16 * 16 - Word.rounded given.start.toNat 16 := by
  have stop := given.toNat_trim_stop
  have limit : given.trim.stop.toNat < UInt64.size := UInt64.toNat_lt _
  rw [toNat_length,stop]
  cases rounds : Word.roundUp? given.start granule with
  | none =>
    have exceeds := Word.roundUp?_none.mp rounds
    have start : given.trim.start = given.trim.stop := by
      rw [trim,rounds]
      rfl
    rw [toNat_granule] at exceeds
    rw [start,stop]
    omega
  | some start =>
    have same := Word.roundUp?_some.mp rounds
    rw [trim,rounds]
    exact congrArg _ same

theorem trims (large : Word.rounded given.start.toNat 16 + 32 ≤ given.stop.toNat / 16 * 16) :
    given.Trims given.trim := by
  have stop := given.toNat_trim_stop
  have length := given.toNat_trim_length
  rw [toNat_length,stop] at length
  have start : given.trim.start.toNat = Word.rounded given.start.toNat 16 := by omega
  have starts := Word.dvd_rounded given.start.toNat 16
  have above := Word.le_rounded given.start.toNat (Nat.succ_pos 15)
  refine ⟨start,stop,⟨by rwa [start],by omega⟩,⟨?_,?_⟩,?_⟩
  · rw [UInt64.le_iff_toNat_le,start]
    exact above
  · rw [UInt64.le_iff_toNat_le,stop]
    exact Nat.div_mul_le_self _ _
  · intro low high multiple other behind before
    refine ⟨?_,by omega⟩
    rw [start]
    exact Word.rounded_le (Nat.succ_pos 15) multiple behind

theorem arena?_small (some : given.start < given.stop)
    (small : given.stop.toNat / 16 * 16 < Word.rounded given.start.toNat 16 + 32) :
    given.arena? = .error (.tooSmall given given.trim.length) := by
  have length := given.toNat_trim_length
  rw [arena?,if_neg (by simpa [isEmpty] using some),if_pos]
  rw [UInt64.lt_iff_toNat_lt,toNat_minBlockSize]
  omega

theorem arena?_large (some : given.start < given.stop)
    (large : Word.rounded given.start.toNat 16 + 32 ≤ given.stop.toNat / 16 * 16) :
    given.arena? = .ok given.trim := by
  have length := given.toNat_trim_length
  rw [arena?,if_neg (by simpa [isEmpty] using some),if_neg]
  rw [UInt64.lt_iff_toNat_lt,toNat_minBlockSize]
  omega

-- What a range of addresses yields is the most that it has, and room for a block.
theorem arena?_trims (taken : given.arena? = .ok arena) :
    given.Trims arena ∧ arena.start.toNat + 32 ≤ arena.stop.toNat := by
  by_cases some : given.start < given.stop
  · rcases Nat.lt_or_ge (given.stop.toNat / 16 * 16) (Word.rounded given.start.toNat 16 + 32) with
      small | large
    · rw [arena?_small some small] at taken
      cases taken
    · rw [arena?_large some large] at taken
      cases taken
      have inner := trims large
      refine ⟨inner,?_⟩
      rw [inner.start,inner.stop]
      exact large
  · rw [arena?,if_pos (by simpa [isEmpty] using some)] at taken
    cases taken

end Span

end FreeListHeap
