import EspIdf.Mmu.Region

/-!
# The MMU driver over whole runs

* `coalesce_fresh`, `reserved_fresh`, `call_spec` : what the start, a reservation and a call keep, and what a call that
  fails or maps does;
* `Sound`, `Lawful` : what is promised of a region, and of the next call;
* `allocator_law` : it holds after every sequence of calls.
-/

namespace EspIdf.Mmu

open Slots Word32

/-- At least one byte, and neither the rounding nor `paddr_start + aligned_size` wraps. -/
def Request.Admissible (soc : Soc) (req : Request) : Prop :=
  1 ≤ req.size ∧ req.size + (soc.pageSize - 1) < 2 ^ 32 ∧ req.paddrStart + alignUpBy req.size soc.pageSize < 2 ^ 32

instance (soc : Soc) (req : Request) : Decidable (req.Admissible soc) := inferInstanceAs (Decidable (_ ∧ _ ∧ _))

/-- What the call asks `esp_mmu_map_virt` for. -/
def Call.request : Call → Option Request
  | .map req _ _ => some { req with vaddrStart := 0 }
  | .mapVirt req _ => some req
  | .unmap _ => none

def Call.Admissible (soc : Soc) (c : Call) : Prop := ∀ req ∈ c.request, req.Admissible soc

/-- The blocks of a region are sorted, disjoint and inside it, and its largest gap is known. -/
structure Sound (region : MemRegion) : Prop where
  sorted : region.blocks.Pairwise fun a b => a.laddrEnd ≤ b.laddrStart
  inside : ∀ block ∈ region.blocks, region.freeHead ≤ block.laddrStart ∧ block.laddrEnd ≤ region.end ∧
    block.laddrEnd = block.laddrStart + block.size
  slot : region.maxSlotSize = region.gaps.foldr max 0

/-- What a call does: nothing if it fails, and if it maps, one block goes into one region. -/
structure Lawful (soc : Soc) (regions : List MemRegion) (c : Call) (outcome : Outcome) : Prop where
  failed : outcome.err ≠ .ok → outcome.regions = regions
  mapped : outcome.err = .ok → ∀ req ∈ c.request, ∃ id region region', regions[id]? = some region ∧
    outcome.regions = regions.set id region' ∧ Maps soc req (alignUpBy req.size soc.pageSize) region region'

section runs
variable {soc : Soc} {regions : List MemRegion}

theorem Valid.sound {region : MemRegion} (h : Valid soc region) : Sound region where
  sorted := h.chained.pairwise
  inside := by
    intro block mem
    have framed : Framed region region.blocks := h.framed.resolve_left (List.ne_nil_of_mem mem)
    have stop := h.chained.stop_le_last mem
    rw [framed.last] at stop
    refine ⟨(h.chained.le_start mem).1, stop, ?_⟩
    obtain ⟨headCaps, mid, tailCaps, split, real⟩ := framed
    rw [split] at mem
    simp only [List.mem_cons, List.mem_append, List.not_mem_nil, or_false] at mem
    rcases mem with rfl | mem | rfl
    · rfl
    · exact (real block mem).2
    · rfl
  slot := h.slot

/-- The region that is found has room, and in it the requested range is free. -/
theorem findAvailableRegion_spec {vaddrStart size i id : Nat} {caps : Caps} {target : Target}
    (found : findAvailableRegion soc vaddrStart size caps target regions i = some id) :
    ∃ k region, id = i + k ∧ regions[k]? = some region ∧ size ≤ region.maxSlotSize ∧
      (vaddrStart ≠ 0 → isRangeAvailable (soc.vaddrToLaddr vaddrStart) size region.blocks = true) := by
  induction regions generalizing i with
  | nil => cases found
  | cons region regions ih =>
    have later (found : findAvailableRegion soc vaddrStart size caps target regions (i + 1) = some id) :
        ∃ k region', id = i + k ∧ (region :: regions)[k]? = some region' ∧ size ≤ region'.maxSlotSize ∧
          (vaddrStart ≠ 0 → isRangeAvailable (soc.vaddrToLaddr vaddrStart) size region'.blocks = true) := by
      obtain ⟨k, region', rfl, at', room, available⟩ := ih found
      exact ⟨k + 1, region', by omega, at', room, available⟩
    unfold findAvailableRegion at found
    split at found
    · rename_i suited
      have room : size ≤ region.maxSlotSize := by
        unfold suits at suited
        simp only [Bool.and_eq_true, decide_eq_true_eq] at suited
        exact suited.2
      split at found
      · rename_i any
        exact ⟨0, region, (Option.some.inj found).symm, rfl, room, fun asked => absurd any asked⟩
      · split at found
        · split at found
          · rename_i available
            exact ⟨0, region, (Option.some.inj found).symm, rfl, room, fun _ => available⟩
          · cases found
        · exact later found
    · exact later found

theorem forall_mem_set {P : MemRegion → Prop} {region : MemRegion} {id : Nat} (all : ∀ r ∈ regions, P r)
    (new : P region) : ∀ r ∈ regions.set id region, P r := by
  intro r mem
  rcases List.mem_or_eq_of_mem_set mem with mem | rfl
  · exact all r mem
  · exact new

theorem set_same {region : MemRegion} {id : Nat} (there : regions[id]? = some region) :
    regions.set id region = regions := by
  obtain ⟨within, rfl⟩ := List.getElem?_eq_some_iff.mp there
  exact List.set_getElem_self within

theorem espMmuMapVirt_spec (valid : ∀ r ∈ regions, Valid soc r) {req : Request} (admissible : req.Admissible soc)
    (heap : Heap) : ∃ outcome, espMmuMapVirt soc regions req heap = some outcome ∧
      (∀ r ∈ outcome.regions, Valid soc r) ∧ (outcome.err ≠ .ok → outcome.regions = regions) ∧
      (outcome.err = .ok → ∃ id region region', regions[id]? = some region ∧
        outcome.regions = regions.set id region' ∧
        Maps soc req (alignUpBy req.size soc.pageSize) region region') := by
  obtain ⟨pos, round, short⟩ := admissible
  have alignPos := (alignUpBy_bounds pos soc.pageSize_pos round).1
  have fails (err : EspErr) (ne : err ≠ .ok) : (∀ r ∈ (failed regions err).regions, Valid soc r) ∧
      ((failed regions err).err ≠ .ok → (failed regions err).regions = regions) ∧
      ((failed regions err).err = .ok → ∃ id region region', regions[id]? = some region ∧
        (failed regions err).regions = regions.set id region' ∧
        Maps soc req (alignUpBy req.size soc.pageSize) region region') :=
    ⟨valid, fun _ => rfl, fun ok => absurd ok ne⟩
  unfold espMmuMapVirt
  split
  · exact ⟨_, rfl, fails .notSupported (by decide)⟩
  split
  · exact ⟨_, rfl, fails .invalidArg (by decide)⟩
  split
  · exact ⟨_, rfl, fails .invalidArg (by decide)⟩
  split
  · exact ⟨_, rfl, fails .invalidArg (by decide)⟩
  dsimp only
  cases found : findAvailableRegion soc req.vaddrStart (alignUpBy req.size soc.pageSize) req.caps req.target regions 0 with
  | none => exact ⟨_, rfl, fails .notFound (by decide)⟩
  | some id =>
    obtain ⟨k, region, same, there, room, available⟩ := findAvailableRegion_spec found
    obtain rfl : id = k := by omega
    obtain ⟨mapped, result, valid', kept, maps⟩ :=
      mapInRegion_spec (valid region (List.mem_of_getElem? there)) alignPos room short available heap
    dsimp only
    rw [there, Option.bind_some, result]
    refine ⟨_, rfl, forall_mem_set valid valid', fun ne => ?_, fun ok => ?_⟩
    · dsimp only at ne ⊢
      rw [kept ne, set_same there]
    · exact ⟨id, region, mapped.region, there, rfl, maps ok⟩

theorem espMmuUnmap_spec (valid : ∀ r ∈ regions, Valid soc r) (ptr : Nat) :
    (∀ r ∈ (espMmuUnmap soc regions ptr).regions, Valid soc r) ∧
      ((espMmuUnmap soc regions ptr).err ≠ .ok → (espMmuUnmap soc regions ptr).regions = regions) := by
  unfold espMmuUnmap
  split
  · exact ⟨valid, fun _ => rfl⟩
  cases findRegion (soc.vaddrToLaddr ptr) regions with
  | none => exact ⟨valid, fun _ => rfl⟩
  | some id =>
    dsimp only
    cases unmapped : regions[id]?.bind (unmapInRegion (soc.vaddrToLaddr ptr)) with
    | none => exact ⟨valid, fun _ => rfl⟩
    | some region' =>
      obtain ⟨region, there, unmapped⟩ := Option.bind_eq_some_iff.mp unmapped
      have valid' := (unmapInRegion_spec (valid region (List.mem_of_getElem? there)) unmapped).1
      exact ⟨forall_mem_set valid valid', fun ne => absurd rfl ne⟩

theorem call_spec (valid : ∀ r ∈ regions, Valid soc r) {c : Call} (admissible : c.Admissible soc) :
    ∃ outcome, call soc regions c = some outcome ∧ (∀ r ∈ outcome.regions, Valid soc r) ∧
      Lawful soc regions c outcome := by
  cases c with
  | map req outPtr heap =>
    unfold call espMmuMap
    dsimp only
    split
    · exact ⟨_, rfl, valid, fun _ => rfl, fun ok => by cases ok⟩
    · obtain ⟨outcome, result, valid', kept, maps⟩ := espMmuMapVirt_spec valid (admissible _ rfl) heap
      refine ⟨outcome, result, valid', kept, fun ok req mem => ?_⟩
      obtain rfl := Option.some.inj mem
      exact maps ok
  | mapVirt req heap =>
    obtain ⟨outcome, result, valid', kept, maps⟩ := espMmuMapVirt_spec valid (admissible _ rfl) heap
    refine ⟨outcome, result, valid', kept, fun ok req mem => ?_⟩
    obtain rfl := Option.some.inj mem
    exact maps ok
  | unmap ptr =>
    obtain ⟨valid', kept⟩ := espMmuUnmap_spec valid ptr
    exact ⟨_, rfl, valid', kept, fun _ req mem => nomatch mem⟩

theorem run_valid {calls : List Call} (valid : ∀ r ∈ regions, Valid soc r)
    (admissible : ∀ c ∈ calls, c.Admissible soc) :
    ∃ regions', run soc regions calls = some regions' ∧ ∀ r ∈ regions', Valid soc r := by
  induction calls generalizing regions with
  | nil => exact ⟨regions, rfl, valid⟩
  | cons c calls ih =>
    obtain ⟨outcome, result, valid', -⟩ := call_spec valid (admissible c List.mem_cons_self)
    unfold run
    rw [result, Option.bind_some]
    exact ih valid' fun c mem => admissible c (List.mem_cons_of_mem _ mem)

/-- Adjacent regions make one whose slot is both. -/
theorem coalesce_fresh (fresh : ∀ r ∈ regions, Fresh soc r) : ∀ r ∈ coalesce regions, Fresh soc r := by
  induction regions using coalesce.induct with
  | case1 =>
    unfold coalesce
    exact fresh
  | case2 a =>
    unfold coalesce
    exact fresh
  | case3 a b regions joined ih =>
    have freshA := fresh a List.mem_cons_self
    have freshB := fresh b (List.mem_cons_of_mem _ List.mem_cons_self)
    unfold coalesce
    rw [if_pos joined]
    refine ih fun r mem => ?_
    rcases List.mem_cons.mp mem with rfl | mem
    · have slotA := freshA.slot
      have slotB := freshB.slot
      have freeA := freshA.free_le
      have freeB := freshB.free_le
      have top := freshB.top
      have mask := soc.mask_lt
      have adjacent := joined.1
      have slot : add32 b.maxSlotSize a.maxSlotSize = b.maxSlotSize + a.maxSlotSize := add32_eq (by omega)
      refine ⟨freshB.empty, freshA.start_le, ?_, top, ?_⟩
      · dsimp only
        omega
      · dsimp only
        omega
    · exact fresh r (List.mem_cons_of_mem _ (List.mem_cons_of_mem _ mem))
  | case4 a b regions apart ih =>
    unfold coalesce
    rw [if_neg apart]
    intro r mem
    rcases List.mem_cons.mp mem with rfl | mem
    · exact fresh r List.mem_cons_self
    · exact ih (fun r mem => fresh r (List.mem_cons_of_mem _ mem)) r mem

theorem reserve_fresh (fresh : ∀ r ∈ regions, Fresh soc r) (size : Nat) (caps : Caps) (target : Target) :
    ∀ r ∈ (reserveBlockWithCaps soc regions size caps target).regions, Fresh soc r := by
  unfold reserveBlockWithCaps
  split
  · exact fresh
  dsimp only
  cases found : findAvailableRegion soc 0 (alignUpBy size soc.pageSize) caps target regions 0 with
  | none => exact fresh
  | some id =>
    obtain ⟨k, region, same, there, room, -⟩ := findAvailableRegion_spec found
    obtain rfl : id = k := by omega
    have old := fresh region (List.mem_of_getElem? there)
    dsimp only
    rw [there]
    have slot := old.slot
    have top := old.top
    have free := old.free_le
    have mask := soc.mask_lt
    have start := old.start_le
    have head : add32 region.freeHead (alignUpBy size soc.pageSize) = region.freeHead + alignUpBy size soc.pageSize :=
      add32_eq (by omega)
    have left : sub32 region.maxSlotSize (alignUpBy size soc.pageSize) =
        region.maxSlotSize - alignUpBy size soc.pageSize := sub32_eq room (by omega)
    refine forall_mem_set fresh ⟨old.empty, ?_, ?_, top, ?_⟩
    · dsimp only
      omega
    · dsimp only
      omega
    · dsimp only
      omega

theorem reserved_fresh (fresh : ∀ r ∈ regions, Fresh soc r) (reservations : List (Nat × Caps × Target)) :
    ∀ r ∈ reserved soc regions reservations, Fresh soc r := by
  induction reservations generalizing regions with
  | nil => exact fresh
  | cons reservation rest ih =>
    obtain ⟨size, caps, target⟩ := reservation
    exact ih (reserve_fresh fresh size caps target)

/-- After some reservations and any calls, no assertion has failed, every region is sound, and the next call is lawful. -/
theorem allocator_law (fresh : ∀ r ∈ regions, Fresh soc r) (reservations : List (Nat × Caps × Target))
    {calls : List Call} (admissible : ∀ c ∈ calls, c.Admissible soc) :
    ∃ regions', run soc (reserved soc regions reservations) calls = some regions' ∧ (∀ r ∈ regions', Sound r) ∧
      ∀ c, c.Admissible soc → ∃ outcome, call soc regions' c = some outcome ∧ Lawful soc regions' c outcome := by
  have start : ∀ r ∈ reserved soc regions reservations, Valid soc r := fun r mem =>
    (reserved_fresh fresh reservations r mem).valid
  obtain ⟨regions', result, valid⟩ := run_valid start admissible
  refine ⟨regions', result, fun r mem => (valid r mem).sound, fun c admissible => ?_⟩
  obtain ⟨outcome, result, -, lawful⟩ := call_spec valid admissible
  exact ⟨outcome, result, lawful⟩

end runs

theorem esp32_pageSize_pos : 0 < 0x10000 := by decide

/-- The ESP32. -/
def esp32 : Soc where
  pageSize := 0x10000
  linearAddrMask := 0x1FFFFFF
  psram := false
  laddrToVaddr := fun laddr exec _ => (if exec then 0x40000000 else 0x3E000000) ||| laddr
  pageSize_pos := esp32_pageSize_pos
  mask_lt := by decide

/-- The regions of the ESP32 for flash, with 256 KB of `.text` and 128 KB of `.rodata`. -/
def esp32Regions : List MemRegion :=
  [⟨0xD0000, 0x400000, 0x110000, 0x2F0000, 9, 1, []⟩, ⟨0x1400000, 0x1800000, 0x1420000, 0x3E0000, 26, 1, []⟩]

theorem esp32Regions_fresh : ∀ r ∈ esp32Regions, Fresh esp32 r := by
  intro r mem
  simp only [esp32Regions, List.mem_cons, List.not_mem_nil, or_false] at mem
  rcases mem with rfl | rfl
  · exact ⟨rfl, by decide, by decide, by decide, by decide⟩
  · exact ⟨rfl, by decide, by decide, by decide, by decide⟩

/-- Two pages of flash anywhere, then one at an address of its own. -/
def esp32Calls : List Call :=
  [.map ⟨0, 0x100000, 0x20000, 1, 2, false⟩ true ⟨true, true, true⟩,
    .mapVirt ⟨0x3F480000, 0x200000, 1, 1, 2, false⟩ ⟨true, true, true⟩, .unmap 0x3F430000]

theorem allocator_law_esp32 : ∃ regions', run esp32 (reserved esp32 esp32Regions [(0x10000, 2, 1)]) esp32Calls =
      some regions' ∧ (∀ r ∈ regions', Sound r) ∧
      ∀ c, c.Admissible esp32 → ∃ outcome, call esp32 regions' c = some outcome ∧ Lawful esp32 regions' c outcome := by
  refine allocator_law esp32Regions_fresh [(0x10000, 2, 1)] fun c mem req asked => ?_
  simp only [esp32Calls, List.mem_cons, List.not_mem_nil, or_false] at mem
  rcases mem with rfl | rfl | rfl
  · obtain rfl := Option.some.inj asked
    decide
  · obtain rfl := Option.some.inj asked
    decide
  · cases asked

end EspIdf.Mmu
