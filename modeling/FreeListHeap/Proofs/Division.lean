import FreeListHeap.Placement
import FreeListHeap.Proofs.Tiling
import Mathlib.Order.Bounds.Basic

namespace FreeListHeap

variable {block : Block} {request : Request} {payload : Address}

-- A payload at `q` lies in the block, with room for a header in front of it.
structure Block.Admits (block : Block) (size align q : Nat) : Prop where
  multiple : align ∣ q
  front : block.lower + 16 ≤ q
  back : q + size ≤ block.upper

theorem Block.payload?_eq (whole : block.Whole) (request : Request) :
    block.payload? request =
      (Word.ofNat? (Word.rounded (block.lower + 16) request.align.toNat)).bind fun payload =>
        if payload.toNat + request.size.toNat ≤ block.upper then some payload else none := by
  have least := whole.least
  have bounded := whole.bounded
  have size := block.upper_eq
  have behind : Word.add? block.start headerSize = some (block.start + headerSize) := by
    rw [Word.add?_some,Word.toNat_add]
    rw [toNat_headerSize]
    change block.lower + 16 < _
    omega
  have shift : (block.start + headerSize).toNat = block.lower + 16 := Word.add?_some.mp behind
  rw [payload?,behind]
  simp only [Option.bind_eq_bind,Option.bind_some,Word.roundUp?,shift]
  congr 1
  funext payload
  congr 1
  rw [UInt64.le_iff_toNat_le,UInt64.le_iff_toNat_le,whole.toNat_stop,eq_iff_iff]
  constructor
  · rintro ⟨before,fits⟩
    rw [UInt64.toNat_sub_of_le _ _ (by rwa [UInt64.le_iff_toNat_le,whole.toNat_stop]),
      whole.toNat_stop] at fits
    omega
  · intro fits
    have before : payload.toNat ≤ block.upper := by omega
    refine ⟨before,?_⟩
    rw [UInt64.toNat_sub_of_le _ _ (by rwa [UInt64.le_iff_toNat_le,whole.toNat_stop]),
      whole.toNat_stop]
    omega

-- The search takes the lowest payload that the block admits.
theorem Block.payload?_some (whole : block.Whole) (positive : 0 < request.align.toNat) :
    block.payload? request = some payload ↔
      IsLeast {q | block.Admits request.size.toNat request.align.toNat q} payload.toNat := by
  rw [payload?_eq whole,Option.bind_eq_some_iff]
  constructor
  · rintro ⟨found,rounds,fits⟩
    split at fits
    · rename_i back
      cases Option.some.inj fits
      rw [Word.ofNat?_some] at rounds
      refine ⟨⟨?_,?_,back⟩,?_⟩
      · rw [rounds]
        exact Word.dvd_rounded _ _
      · rw [rounds]
        exact Word.le_rounded _ positive
      · intro q admits
        rw [rounds]
        exact Word.rounded_le positive admits.multiple admits.front
    · cases fits
  · rintro ⟨⟨multiple,front,back⟩,least⟩
    have below := Word.rounded_le positive multiple front
    have rounds : payload.toNat = Word.rounded (block.lower + 16) request.align.toNat := by
      refine Nat.le_antisymm (least ⟨Word.dvd_rounded _ _,Word.le_rounded _ positive,?_⟩) below
      omega
    exact ⟨payload,Word.ofNat?_some.mpr rounds,if_pos back⟩

theorem Block.payload?_none (whole : block.Whole) (positive : 0 < request.align.toNat) :
    block.payload? request = none ↔
      ∀ q, ¬ block.Admits request.size.toNat request.align.toNat q := by
  rw [payload?_eq whole,Option.bind_eq_none_iff]
  constructor
  · rintro refused q ⟨multiple,front,back⟩
    have below := Word.rounded_le positive multiple front
    have bounded := whole.bounded
    cases rounds : Word.ofNat? (Word.rounded (block.lower + 16) request.align.toNat) with
    | none =>
      rw [Word.ofNat?_none] at rounds
      omega
    | some payload =>
      have fails := refused payload rounds
      rw [Word.ofNat?_some] at rounds
      rw [if_pos (by omega)] at fails
      cases fails
  · intro refused payload rounds
    rw [Word.ofNat?_some] at rounds
    refine if_neg fun back => refused payload.toNat ⟨?_,?_,back⟩
    · rw [rounds]
      exact Word.dvd_rounded _ _
    · rw [rounds]
      exact Word.le_rounded _ positive

theorem Word.granule_le_rounded {word : Word} (nonzero : word ≠ 0) : 16 ≤ rounded word.toNat 16 := by
  have some : 0 < word.toNat := Nat.pos_of_ne_zero fun zero => nonzero (UInt64.toNat_inj.mp zero)
  exact Nat.le_of_dvd (Nat.lt_of_lt_of_le some (le_rounded _ (Nat.succ_pos 15))) (dvd_rounded _ 16)

namespace Request

-- What a request is once both of its numbers are rounded up.
structure Whole (request : Request) : Prop where
  size : 16 ∣ request.size.toNat
  room : 16 ≤ request.size.toNat
  align : 16 ∣ request.align.toNat
  positive : 0 < request.align.toNat

theorem ofBytes?_some {size align : Word} : ofBytes? size align = some request ↔
    request.size.toNat = Word.rounded size.toNat 16 ∧
      request.align.toNat = Word.rounded align.toNat 16 := by
  unfold ofBytes?
  rw [← toNat_granule,← Word.roundUp?_some,← Word.roundUp?_some]
  obtain ⟨up,higher⟩ := request
  cases Word.roundUp? size granule <;> cases Word.roundUp? align granule <;> simp

theorem ofBytes?_none {size align : Word} : ofBytes? size align = none ↔
    UInt64.size ≤ Word.rounded size.toNat 16 ∨ UInt64.size ≤ Word.rounded align.toNat 16 := by
  unfold ofBytes?
  rw [← toNat_granule,← Word.roundUp?_none,← Word.roundUp?_none]
  cases Word.roundUp? size granule <;> cases Word.roundUp? align granule <;> simp

theorem ofBytes?_whole {size align : Word} (rounds : ofBytes? size align = some request)
    (some : size ≠ 0) (aligned : align ≠ 0) : request.Whole := by
  obtain ⟨sizes,aligns⟩ := ofBytes?_some.mp rounds
  refine ⟨?_,?_,?_,?_⟩
  · rw [sizes]
    exact Word.dvd_rounded _ 16
  · rw [sizes]
    exact Word.granule_le_rounded some
  · rw [aligns]
    exact Word.dvd_rounded _ 16
  · rw [aligns]
    exact Nat.lt_of_lt_of_le (Nat.succ_pos 15) (Word.granule_le_rounded aligned)

end Request

namespace Placement

variable {placement : Placement} {blocks : List Block}

-- A placement as the search finds it: within its block and in whole granules.
structure Sound (placement : Placement) : Prop where
  block : placement.block.Whole
  payload : 16 ∣ placement.payload.toNat
  size : 16 ∣ placement.size.toNat
  room : 16 ≤ placement.size.toNat
  front : placement.block.lower + 16 ≤ placement.payload.toNat
  back : placement.payload.toNat + placement.size.toNat ≤ placement.block.upper

theorem find?_mem (found : find? request blocks = some placement) : placement.block ∈ blocks := by
  rw [(find?_some found).1]
  exact List.mem_append_right _ List.mem_cons_self

theorem find?_sound (found : find? request blocks = some placement)
    (whole : ∀ block ∈ blocks, block.Whole) (asked : request.Whole) : placement.Sound := by
  obtain ⟨_,fits,size,_⟩ := find?_some found
  have solid := whole _ (find?_mem found)
  obtain ⟨⟨multiple,front,back⟩,_⟩ := (Block.payload?_some solid asked.positive).mp fits
  rw [← size] at back
  refine ⟨solid,Nat.dvd_trans asked.align multiple,?_,?_,front,back⟩
  · rw [size]
    exact asked.size
  · rw [size]
    exact asked.room

theorem Sound.toNat_headerStart (sound : placement.Sound) :
    placement.headerStart.toNat = placement.payload.toNat - 16 := by
  have front := sound.front
  exact Word.toNat_sub (by rw [toNat_headerSize]; omega)

theorem Sound.toNat_payloadStop (sound : placement.Sound) :
    placement.payloadStop.toNat = placement.payload.toNat + placement.size.toNat :=
  Word.toNat_add (Nat.lt_of_le_of_lt sound.back sound.block.bounded)

theorem Sound.toNat_frontSize (sound : placement.Sound) :
    placement.frontSize.toNat = placement.payload.toNat - 16 - placement.block.lower := by
  have front := sound.front
  have start := sound.toNat_headerStart
  rw [frontSize,Word.toNat_sub,start]
  · rfl
  · rw [start]
    change placement.block.lower ≤ _
    omega

theorem Sound.toNat_tailSize (sound : placement.Sound) : placement.tailSize.toNat =
    placement.block.upper - (placement.payload.toNat + placement.size.toNat) := by
  have stop := sound.toNat_payloadStop
  rw [tailSize,Word.toNat_sub,stop,sound.block.toNat_stop]
  rw [stop,sound.block.toNat_stop]
  exact sound.back

-- Either of the outer parts stays free or is reserved along with the payload.
theorem front_cases (placement : Placement) :
    (32 ≤ placement.frontSize.toNat ∧
      placement.front? = some ⟨placement.block.start,placement.frontSize⟩ ∧
      placement.padding = 0) ∨
    (placement.frontSize.toNat < 32 ∧ placement.front? = none ∧
      placement.padding = placement.frontSize) := by
  by_cases alone : minBlockSize ≤ placement.frontSize
  · have kept : placement.front? = some ⟨placement.block.start,placement.frontSize⟩ := if_pos alone
    rw [UInt64.le_iff_toNat_le] at alone
    exact .inl ⟨alone,kept,by simp [padding,kept]⟩
  · have dropped : placement.front? = none := if_neg alone
    rw [UInt64.le_iff_toNat_le,Nat.not_le] at alone
    exact .inr ⟨alone,dropped,by simp [padding,dropped]⟩

theorem tail_cases (placement : Placement) :
    (32 ≤ placement.tailSize.toNat ∧
      placement.tail? = some ⟨placement.payloadStop,placement.tailSize⟩ ∧
      placement.reserved.stop = placement.payloadStop) ∨
    (placement.tailSize.toNat < 32 ∧ placement.tail? = none ∧
      placement.reserved.stop = placement.block.stop) := by
  by_cases alone : minBlockSize ≤ placement.tailSize
  · have kept : placement.tail? = some ⟨placement.payloadStop,placement.tailSize⟩ := if_pos alone
    rw [UInt64.le_iff_toNat_le] at alone
    exact .inl ⟨alone,kept,by simp [reserved,kept]⟩
  · have dropped : placement.tail? = none := if_neg alone
    rw [UInt64.le_iff_toNat_le,Nat.not_le] at alone
    exact .inr ⟨alone,dropped,by simp [reserved,dropped]⟩

-- At most one granule of either part is too small to stand alone.
theorem Sound.toNat_padding (sound : placement.Sound) :
    placement.padding.toNat = 0 ∨ placement.padding.toNat = 16 := by
  obtain ⟨_,_,none⟩ | ⟨small,_,all⟩ := placement.front_cases
  · rw [none]
    exact .inl rfl
  · have size := sound.toNat_frontSize
    have aligned := sound.block.aligned
    have payload := sound.payload
    rw [all]
    omega

theorem Sound.toNat_stop (sound : placement.Sound) :
    ∃ slack, (slack = 0 ∨ slack = 16) ∧ placement.reserved.stop.toNat =
      placement.payload.toNat + placement.size.toNat + slack := by
  have size := sound.toNat_tailSize
  have back := sound.back
  obtain ⟨_,_,stop⟩ | ⟨small,_,stop⟩ := placement.tail_cases
  · refine ⟨0,.inl rfl,?_⟩
    rw [stop,sound.toNat_payloadStop]
    rfl
  · have aligned := sound.block.aligned
    have granular := sound.block.granular
    have payload := sound.payload
    have whole := sound.size
    have upper := placement.block.upper_eq
    refine ⟨placement.tailSize.toNat,by omega,?_⟩
    rw [stop,sound.block.toNat_stop]
    omega

-- The block that the allocation owns, as the header in front of the payload tells it.
def reservation (placement : Placement) : Block :=
  ⟨placement.payload - headerSize - placement.padding,placement.header.size⟩

theorem Sound.padding_le (sound : placement.Sound) :
    placement.block.lower + placement.padding.toNat + 16 ≤ placement.payload.toNat := by
  have front := sound.front
  obtain ⟨_,_,none⟩ | ⟨_,_,all⟩ := placement.front_cases
  · rw [none]
    exact front
  · rw [all,sound.toNat_frontSize]
    omega

theorem Sound.reservation_lower (sound : placement.Sound) :
    placement.reservation.lower + placement.padding.toNat + 16 = placement.payload.toNat := by
  have fits := sound.padding_le
  have start := sound.toNat_headerStart
  have lower : placement.reservation.lower =
      placement.headerStart.toNat - placement.padding.toNat := Word.toNat_sub (by
    change _ ≤ placement.headerStart.toNat
    omega)
  omega

theorem Sound.toNat_size (sound : placement.Sound) : placement.header.size.toNat =
    placement.reserved.stop.toNat - placement.reservation.lower := by
  have start := sound.reservation_lower
  obtain ⟨slack,_,stop⟩ := sound.toNat_stop
  refine Word.toNat_sub ?_
  change placement.reservation.lower ≤ _
  omega

theorem Sound.reservation_upper (sound : placement.Sound) :
    placement.reservation.upper = placement.reserved.stop.toNat := by
  have size := sound.toNat_size
  have start := sound.reservation_lower
  obtain ⟨slack,_,stop⟩ := sound.toNat_stop
  change placement.reservation.lower + placement.header.size.toNat = _
  omega

theorem Sound.front_piece (sound : placement.Sound) (member : piece ∈ placement.front?) :
    piece.start = placement.block.start ∧ piece.upper + 16 = placement.payload.toNat ∧
      piece.Whole := by
  obtain ⟨large,kept,_⟩ | ⟨_,dropped,_⟩ := placement.front_cases
  · cases Option.some.inj (kept.symm.trans member)
    have size := sound.toNat_frontSize
    have front := sound.front
    have aligned := sound.block.aligned
    have payload := sound.payload
    have back := sound.back
    have bounded := sound.block.bounded
    have upper : Block.upper ⟨placement.block.start,placement.frontSize⟩ + 16 =
        placement.payload.toNat := by
      change placement.block.lower + placement.frontSize.toNat + 16 = _
      omega
    refine ⟨rfl,upper,aligned,?_,large,by omega⟩
    change 16 ∣ placement.frontSize.toNat
    omega
  · rw [dropped] at member
    cases member

theorem Sound.tail_piece (sound : placement.Sound) (member : piece ∈ placement.tail?) :
    piece.lower = placement.payload.toNat + placement.size.toNat ∧
      piece.upper = placement.block.upper ∧ piece.Whole := by
  obtain ⟨large,kept,_⟩ | ⟨_,dropped,_⟩ := placement.tail_cases
  · cases Option.some.inj (kept.symm.trans member)
    have size := sound.toNat_tailSize
    have back := sound.back
    have lower : Block.lower ⟨placement.payloadStop,placement.tailSize⟩ =
        placement.payload.toNat + placement.size.toNat := sound.toNat_payloadStop
    have upper : Block.upper ⟨placement.payloadStop,placement.tailSize⟩ = placement.block.upper := by
      rw [Block.upper_eq,lower]
      change _ + placement.tailSize.toNat = _
      omega
    have aligned := sound.block.aligned
    have granular := sound.block.granular
    have payload := sound.payload
    have whole := sound.size
    have stop := placement.block.upper_eq
    refine ⟨lower,upper,?_,?_,large,?_⟩
    · rw [lower]
      omega
    · change 16 ∣ placement.tailSize.toNat
      omega
    · rw [upper]
      exact sound.block.bounded
  · rw [dropped] at member
    cases member

-- What stays free and what is reserved share out the block.
theorem Sound.tiles (sound : placement.Sound) : Tiles placement.block.lower placement.block.upper
    (placement.reservation :: placement.pieces) := by
  have start := sound.reservation_lower
  have stop := sound.reservation_upper
  have fits := sound.padding_le
  have back := sound.back
  have behind : Tiles placement.reservation.upper placement.block.upper placement.tail?.toList := by
    obtain ⟨_,kept,ends⟩ | ⟨_,dropped,ends⟩ := placement.tail_cases
    · obtain ⟨lower,upper,_⟩ := sound.tail_piece kept
      rw [kept]
      refine .cons (.nil _) ?_ upper (Nat.le_refl _)
      rw [lower,stop,ends,sound.toNat_payloadStop]
    · rw [dropped,stop,ends,sound.block.toNat_stop]
      exact .nil _
  have reaches : placement.reservation.upper ≤ placement.block.upper := by
    obtain ⟨_,_,ends⟩ | ⟨_,_,ends⟩ := placement.tail_cases
    · rw [stop,ends,sound.toNat_payloadStop]
      exact back
    · rw [stop,ends,sound.block.toNat_stop]
  have middle : Tiles placement.reservation.lower placement.block.upper
      (placement.reservation :: placement.tail?.toList) := behind.cons rfl rfl reaches
  obtain ⟨_,kept,none⟩ | ⟨_,dropped,all⟩ := placement.front_cases
  · obtain ⟨lower,upper,_⟩ := sound.front_piece kept
    have zero : placement.padding.toNat = 0 := by rw [none]; rfl
    have whole := middle.cons (congrArg UInt64.toNat lower) (by omega) (by omega)
    refine whole.perm ?_
    rw [pieces,kept]
    exact List.Perm.swap _ _ _
  · have size := sound.toNat_frontSize
    rw [← all] at size
    have same : placement.reservation.lower = placement.block.lower := by omega
    rw [pieces,dropped]
    rwa [same] at middle

theorem Sound.reservation_whole (sound : placement.Sound) : placement.reservation.Whole := by
  have start := sound.reservation_lower
  have stop := sound.reservation_upper
  have upper := placement.reservation.upper_eq
  have payload := sound.payload
  have size := sound.size
  have room := sound.room
  have bound := (sound.tiles.inside _ List.mem_cons_self).2
  have bounded := sound.block.bounded
  have padding := sound.toNat_padding
  obtain ⟨slack,small,ends⟩ := sound.toNat_stop
  exact ⟨by omega,by omega,by omega,by omega⟩

theorem Sound.pieces_whole (sound : placement.Sound) : ∀ piece ∈ placement.pieces, piece.Whole := by
  intro piece member
  rcases List.mem_append.mp member with front | tail
  · exact (sound.front_piece (Option.mem_toList.mp front)).2.2
  · exact (sound.tail_piece (Option.mem_toList.mp tail)).2.2

theorem Sound.pieces_ordered (sound : placement.Sound) :
    placement.pieces.Pairwise Block.Below := by
  refine List.pairwise_append.mpr ⟨Option.pairwise_toList,Option.pairwise_toList,?_⟩
  intro front first tail last
  have before := (sound.front_piece (Option.mem_toList.mp first)).2.1
  have behind := (sound.tail_piece (Option.mem_toList.mp last)).1
  unfold Block.Below
  omega

end Placement

end FreeListHeap
