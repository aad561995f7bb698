import EspIdf.Lib.Slots
import EspIdf.Lib.Word32
import Mathlib.Tactic.Ring

/-!
# The MMU mapping driver of `esp_mmu_map.c`

* `Soc` : what differs between the chips;
* `MemBlock`, `MemRegion` : a mapped block, and a memory region with its blocks between two dummy blocks;
* `coalesce` : the regions of `esp_mmu_map_init`;
* `isRangeAvailable`, `findAvailableRegion` : which region a request goes to;
* `searchSlots`, `mapInRegion` : the slot of a new block, and the largest slot that is left;
* `espMmuMapVirt`, `espMmuMap`, `espMmuUnmap`, `reserveBlockWithCaps` : the calls;
* `Call`, `call`, `run` : calls one after the other.
-/

namespace EspIdf.Mmu

open Word32

/-! ## Chips, blocks and regions -/

/-- The linear addresses of every chip have at most 29 bits. -/
structure Soc where
  /-- `CONFIG_MMU_PAGE_SIZE`. -/
  pageSize : Nat
  /-- `SOC_MMU_LINEAR_ADDR_MASK`. -/
  linearAddrMask : Nat
  /-- `SOC_SPIRAM_SUPPORTED && !CONFIG_IDF_TARGET_ESP32`. -/
  psram : Bool
  /-- `mmu_ll_laddr_to_vaddr`, with the type `MMU_VADDR_INSTRUCTION` or not. -/
  laddrToVaddr : Nat → Bool → BitVec 32 → Nat
  pageSize_pos : 0 < pageSize
  mask_lt : linearAddrMask < 2 ^ 29

/-- `mmu_ll_vaddr_to_laddr`. -/
def Soc.vaddrToLaddr (soc : Soc) (vaddr : Nat) : Nat := vaddr &&& soc.linearAddrMask

/-- `ALIGN_UP_BY`. -/
def alignUpBy (num align : Nat) : Nat := add32 num (align - 1) - add32 num (align - 1) % align

abbrev Caps := BitVec 32

abbrev Target := BitVec 32

def memCapExec : Caps := 1
def memCapWrite : Caps := 4
def memCap8Bit : Caps := 16

/-- `MMU_TARGET_PSRAM0`. -/
def targetPsram0 : Target := 2

/-- `mem_block_t`. -/
structure MemBlock where
  laddrStart : Nat
  laddrEnd : Nat
  vaddrStart : Nat
  vaddrEnd : Nat
  size : Nat
  caps : Caps
  paddrStart : Nat
  paddrEnd : Nat
  target : Target
deriving DecidableEq, Repr

instance : Slots.Placed MemBlock := ⟨MemBlock.laddrStart, MemBlock.laddrEnd⟩

/-- What `heap_caps_calloc` and the two lines after it make of a dummy head or tail. -/
def MemBlock.dummy (laddr : Nat) (caps : Caps) : MemBlock where
  laddrStart := laddr
  laddrEnd := laddr
  vaddrStart := 0
  vaddrEnd := 0
  size := 0
  caps := caps
  paddrStart := 0
  paddrEnd := 0
  target := 0

/-- `mem_region_t`, whose blocks include the dummies once there are any. -/
structure MemRegion where
  start : Nat
  «end» : Nat
  freeHead : Nat
  maxSlotSize : Nat
  caps : Caps
  targets : Target
  blocks : List MemBlock
deriving DecidableEq, Repr

inductive EspErr where
  | ok
  | invalidArg
  | invalidState
  | notFound
  | notSupported
  | noMem
deriving DecidableEq, Repr

/-- What the three calls of `heap_caps_calloc` return, if they are made. -/
structure Heap where
  dummyHead : Bool
  dummyTail : Bool
  newBlock : Bool
deriving DecidableEq, Repr

/-- The arguments of `esp_mmu_map_virt`. -/
structure Request where
  vaddrStart : Nat
  paddrStart : Nat
  size : Nat
  target : Target
  caps : Caps
  /-- `ESP_MMU_MMAP_FLAG_PADDR_SHARED`. -/
  shared : Bool
deriving DecidableEq, Repr

/-- The loop of `esp_mmu_map_init` over the regions that are left when `.text` and `.rodata` have theirs: adjacent ones
of one kind become one region. -/
def coalesce : List MemRegion → List MemRegion
  | [] => []
  | [a] => [a]
  | a :: b :: regions =>
    if b.freeHead = a.end ∧ b.caps = a.caps ∧ b.targets = a.targets then
      coalesce ({ b with
        start := a.start
        freeHead := a.freeHead
        maxSlotSize := add32 b.maxSlotSize a.maxSlotSize } :: regions)
    else a :: coalesce (b :: regions)
termination_by regions => regions.length

/-! ## Which region -/

/-- `s_mem_caps_check`. -/
def memCapsCheck (caps : Caps) : Bool :=
  !(caps &&& memCapExec != 0 && (caps &&& memCap8Bit != 0 || caps &&& memCapWrite != 0))

/-- `s_is_vaddr_in_region`. -/
def isVaddrInRegion (vaddr size : Nat) (region : MemRegion) : Bool :=
  decide (region.start ≤ vaddr ∧ add32 vaddr size ≤ region.end)

/-- `s_is_block_overlapped`. -/
def isBlockOverlapped (vaddr size : Nat) (block : MemBlock) : Bool :=
  decide (vaddr < block.laddrEnd ∧ block.laddrStart < add32 vaddr size)

/-- `s_is_range_available`. -/
def isRangeAvailable (vaddr size : Nat) : List MemBlock → Bool
  | [] => true
  | block :: blocks =>
    if block.size = 0 then isRangeAvailable vaddr size blocks
    else if isBlockOverlapped vaddr size block then false
    else if add32 vaddr size ≤ block.laddrStart then true
    else isRangeAvailable vaddr size blocks

/-- The region has the capabilities, a large enough slot, and the target. -/
def suits (region : MemRegion) (size : Nat) (caps : Caps) (target : Target) : Bool :=
  region.caps &&& caps == caps && region.targets &&& target == target && decide (size ≤ region.maxSlotSize)

/-- `s_find_available_region`, from the region `i` on. -/
def findAvailableRegion (soc : Soc) (vaddrStart size : Nat) (caps : Caps) (target : Target) :
    List MemRegion → Nat → Option Nat
  | [], _ => none
  | region :: regions, i =>
    if suits region size caps target then
      if vaddrStart = 0 then some i
      else if isVaddrInRegion (soc.vaddrToLaddr vaddrStart) size region then
        if isRangeAvailable (soc.vaddrToLaddr vaddrStart) size region.blocks then some i else none
      else findAvailableRegion soc vaddrStart size caps target regions (i + 1)
    else findAvailableRegion soc vaddrStart size caps target regions (i + 1)

/-! ## A region's new block -/

/-- `s_is_enclosed`. -/
def isEnclosed (blockStart blockEnd newStart newSize : Nat) : Bool :=
  decide (blockStart ≤ newStart ∧ add32 newStart newSize ≤ blockEnd)

/-- `s_is_overlapped`. -/
def isOverlapped (blockStart blockEnd newStart newSize : Nat) : Bool :=
  decide ((newStart < blockStart ∧ blockStart < add32 newStart newSize) ∨
    (newStart < blockEnd ∧ blockEnd < add32 newStart newSize))

/-- What the loop over the physical addresses stops with. -/
inductive PaddrCheck where
  | free
  | enclosed (block : MemBlock)
  | overlapped
deriving DecidableEq, Repr

def paddrCheck (req : Request) (size : Nat) : List MemBlock → PaddrCheck
  | [] => .free
  | block :: blocks =>
    if req.target = block.target then
      if isEnclosed block.paddrStart block.paddrEnd req.paddrStart size then .enclosed block
      else if req.shared = false ∧ isOverlapped block.paddrStart block.paddrEnd req.paddrStart size = true then .overlapped
      else paddrCheck req size blocks
    else paddrCheck req size blocks

/-- `TAILQ_EMPTY`: the list with a new dummy head and tail, or what has not been allocated. -/
def withDummies (region : MemRegion) (caps : Caps) (heap : Heap) : Option (List MemBlock) :=
  if region.blocks = [] then
    if heap.dummyHead ∧ heap.dummyTail then some [.dummy region.freeHead caps, .dummy region.end caps] else none
  else some region.blocks

/-- One turn of the loop over the slots while nothing is found: where the new block starts, if it goes before `block`,
and the length that counts; `none` is the error for a range that another block maps. -/
def takeSlot (vaddrStart requestedStart requestedEnd size lastEnd : Nat) (block : MemBlock) : Option (Option Nat × Nat) :=
  let slotLen := sub32 block.laddrStart lastEnd
  if 0 < slotLen then
    if vaddrStart = 0 ∧ size ≤ slotLen then some (some lastEnd, slotLen - size)
    else if vaddrStart ≠ 0 then
      if lastEnd ≤ requestedStart ∧ requestedEnd ≤ block.laddrStart then
        some (some requestedStart, max (sub32 requestedStart lastEnd) (sub32 block.laddrStart requestedEnd))
      else if lastEnd ≤ requestedStart ∧ requestedStart < block.laddrEnd then none
      else some (none, slotLen)
    else some (none, slotLen)
  else some (none, slotLen)

/-- `found_block` as its place in the list, `new_block->laddr_start`, and `max_slot_len`. -/
structure SlotSearch where
  found : Option (Nat × Nat)
  maxSlotLen : Nat
deriving DecidableEq, Repr

/-- The loop over the slots: `i` is the place of the next block. -/
def searchSlots (vaddrStart requestedStart requestedEnd size : Nat) :
    List MemBlock → Nat → Nat → SlotSearch → Option SlotSearch
  | [], _, _, search => some search
  | block :: blocks, i, lastEnd, search =>
    match search.found with
    | some found =>
      searchSlots vaddrStart requestedStart requestedEnd size blocks (i + 1) block.laddrEnd
        ⟨some found, max (sub32 block.laddrStart lastEnd) search.maxSlotLen⟩
    | none =>
      match takeSlot vaddrStart requestedStart requestedEnd size lastEnd block with
      | none => none
      | some (start, slotLen) =>
        searchSlots vaddrStart requestedStart requestedEnd size blocks (i + 1) block.laddrEnd
          ⟨start.map fun start => (i, start), max slotLen search.maxSlotLen⟩

/-- A region after a call, the error and `*out_ptr`, if it is written. -/
structure Mapped where
  region : MemRegion
  err : EspErr
  out : Option Nat
deriving DecidableEq, Repr

def MemRegion.fail (region : MemRegion) (err : EspErr) : Mapped := ⟨region, err, none⟩

/-- The fields of the new block, once it has its place. -/
def newBlock (soc : Soc) (req : Request) (size laddrStart : Nat) : MemBlock where
  laddrStart := laddrStart
  laddrEnd := add32 laddrStart size
  vaddrStart := soc.laddrToVaddr laddrStart (req.caps &&& memCapExec != 0) req.target
  vaddrEnd := soc.laddrToVaddr (add32 laddrStart size) (req.caps &&& memCapExec != 0) req.target
  size := size
  caps := req.caps
  paddrStart := req.paddrStart
  paddrEnd := add32 req.paddrStart size
  target := req.target

/-- The requested virtual address can be had in the region, as far as the region's bounds say. -/
def isRequestValid (soc : Soc) (req : Request) (size : Nat) (region : MemRegion) : Bool :=
  let requestedStart := soc.vaddrToLaddr req.vaddrStart
  decide (req.vaddrStart = 0 ∨
    (soc.laddrToVaddr requestedStart (req.caps &&& memCapExec != 0) req.target = req.vaddrStart ∧
      region.start ≤ requestedStart ∧ add32 requestedStart size ≤ region.end ∧ region.freeHead ≤ requestedStart))

/-- `esp_mmu_map_virt` from the found region on. Where it fails, the dummies are taken out again; `none` is a failed
`assert(found)`. -/
def mapInRegion (soc : Soc) (req : Request) (size : Nat) (heap : Heap) (region : MemRegion) : Option Mapped :=
  match withDummies region req.caps heap with
  | none => some (region.fail .noMem)
  | some blocks =>
    match paddrCheck req size blocks with
    | .enclosed block =>
      some ⟨region, .invalidState, some (add32 block.vaddrStart (sub32 req.paddrStart block.paddrStart))⟩
    | .overlapped => some (region.fail .invalidArg)
    | .free =>
      if heap.newBlock = false then some (region.fail .noMem)
      else if isRequestValid soc req size region = false then some (region.fail .invalidArg)
      else
        match searchSlots req.vaddrStart (soc.vaddrToLaddr req.vaddrStart)
            (add32 (soc.vaddrToLaddr req.vaddrStart) size) size blocks 0
            ((blocks.head?.map MemBlock.laddrEnd).getD 0) ⟨none, 0⟩ with
        | none => some (region.fail .invalidArg)
        | some search =>
          search.found.map fun (i, laddrStart) =>
            let block := newBlock soc req size laddrStart
            ⟨{ region with blocks := blocks.insertIdx i block, maxSlotSize := search.maxSlotLen }, .ok,
              some block.vaddrStart⟩

/-! ## Calls -/

/-- The regions after a call, the error and `*out_ptr`, if it is written. -/
structure Outcome where
  regions : List MemRegion
  err : EspErr
  out : Option Nat
deriving DecidableEq, Repr

def failed (regions : List MemRegion) (err : EspErr) : Outcome := ⟨regions, err, none⟩

def espMmuMapVirt (soc : Soc) (regions : List MemRegion) (req : Request) (heap : Heap) : Option Outcome :=
  if soc.psram = false ∧ req.target &&& targetPsram0 ≠ 0 then some (failed regions .notSupported)
  else if req.paddrStart % soc.pageSize ≠ 0 then some (failed regions .invalidArg)
  else if req.vaddrStart % soc.pageSize ≠ 0 then some (failed regions .invalidArg)
  else if memCapsCheck req.caps = false then some (failed regions .invalidArg)
  else
    let size := alignUpBy req.size soc.pageSize
    match findAvailableRegion soc req.vaddrStart size req.caps req.target regions 0 with
    | none => some (failed regions .notFound)
    | some id =>
      (regions[id]?.bind (mapInRegion soc req size heap)).map fun mapped =>
        ⟨regions.set id mapped.region, mapped.err, mapped.out⟩

/-- `esp_mmu_map`, whose `out_ptr` may be `NULL`. -/
def espMmuMap (soc : Soc) (regions : List MemRegion) (req : Request) (outPtr : Bool) (heap : Heap) : Option Outcome :=
  if outPtr = false then some (failed regions .invalidArg)
  else espMmuMapVirt soc regions { req with vaddrStart := 0 } heap

/-- The loop of `esp_mmu_unmap`: the place of the block, which is neither the first nor the last one. -/
def findBlock (laddr : Nat) : List MemBlock → Option Nat
  | [] => none
  | _ :: blocks => (blocks.dropLast.findIdx? fun block => block.laddrStart == laddr).map (· + 1)

/-- `esp_mmu_unmap` in its region. -/
def unmapInRegion (laddr : Nat) (region : MemRegion) : Option MemRegion :=
  (findBlock laddr region.blocks).map fun i =>
    let slotLen := sub32 ((region.blocks[i + 1]?.map MemBlock.laddrStart).getD 0)
      ((region.blocks[i - 1]?.map MemBlock.laddrEnd).getD 0)
    { region with
      blocks := region.blocks.eraseIdx i
      maxSlotSize := if region.maxSlotSize < slotLen then slotLen else region.maxSlotSize }

/-- The last region that the address is in. -/
def findRegion (laddr : Nat) (regions : List MemRegion) : Option Nat :=
  regions.reverse.findIdx? (fun region => decide (region.freeHead ≤ laddr ∧ laddr < region.end)) |>.map
    fun k => regions.length - 1 - k

def espMmuUnmap (soc : Soc) (regions : List MemRegion) (ptr : Nat) : Outcome :=
  if ptr = 0 then failed regions .invalidArg
  else
    match findRegion (soc.vaddrToLaddr ptr) regions with
    | none => failed regions .notFound
    | some id =>
      match regions[id]?.bind (unmapInRegion (soc.vaddrToLaddr ptr)) with
      | none => failed regions .notFound
      | some region => ⟨regions.set id region, .ok, none⟩

/-- `esp_mmu_map_reserve_block_with_caps`, with an `out_ptr`. -/
def reserveBlockWithCaps (soc : Soc) (regions : List MemRegion) (size : Nat) (caps : Caps) (target : Target) : Outcome :=
  if memCapsCheck caps = false then failed regions .invalidArg
  else
    let size := alignUpBy size soc.pageSize
    match findAvailableRegion soc 0 size caps target regions 0 with
    | none => failed regions .notFound
    | some id =>
      match regions[id]? with
      | none => failed regions .notFound
      | some region =>
        ⟨regions.set id
            { region with freeHead := add32 region.freeHead size, maxSlotSize := sub32 region.maxSlotSize size },
          .ok, some (soc.laddrToVaddr region.freeHead (caps &&& memCapExec != 0) target)⟩

inductive Call where
  | map (req : Request) (outPtr : Bool) (heap : Heap)
  | mapVirt (req : Request) (heap : Heap)
  | unmap (ptr : Nat)
deriving DecidableEq, Repr

def call (soc : Soc) (regions : List MemRegion) : Call → Option Outcome
  | .map req outPtr heap => espMmuMap soc regions req outPtr heap
  | .mapVirt req heap => espMmuMapVirt soc regions req heap
  | .unmap ptr => some (espMmuUnmap soc regions ptr)

/-- The regions after some calls, or `none` after a failed assertion. -/
def run (soc : Soc) : List MemRegion → List Call → Option (List MemRegion)
  | regions, [] => some regions
  | regions, c :: calls => (call soc regions c).bind fun outcome => run soc outcome.regions calls

/-- The regions after some reservations. -/
def reserved (soc : Soc) : List MemRegion → List (Nat × Caps × Target) → List MemRegion
  | regions, [] => regions
  | regions, (size, caps, target) :: rest =>
    reserved soc (reserveBlockWithCaps soc regions size caps target).regions rest

end EspIdf.Mmu
