import EspIdf.Nvs.Contents
import EspIdf.Nvs.Moves

/-!
# NVS: a value that is compared, and one that is read

* `storedChunk`, `storedChunks`, `storedBlob` : the octets of a blob, chunk by chunk;
* `readChunks_spec`, `cmpChunks_spec` : both loops go through these chunks;
* `readItem_spec` : what is read, and the storage stays as it is;
* `isStored_spec` : what compares as equal.
-/

namespace EspIdf.Nvs

open Spans Crc32

/-- A text that another begins with is the other. -/
theorem IsText.eq_of_take {xs ys : List UInt8} (hx : IsText xs) (hy : IsText ys) (h : xs.take ys.length = ys) : ys = xs := by
  obtain ⟨cs, hcs, rfl⟩ := hx
  obtain ⟨ds, -, rfl⟩ := hy
  have hle : (ds ++ [0]).length ≤ (cs ++ [0]).length := by
    have hlen := congrArg List.length h
    rw [List.length_take] at hlen
    omega
  have hlast : (cs ++ [0])[ds.length]? = some 0 := by
    have hget := congrArg (·[ds.length]?) h
    rwa [List.getElem?_take_of_lt (by simp), List.getElem?_concat_length] at hget
  have heq : ds.length = cs.length := by
    rcases Nat.lt_or_ge ds.length cs.length with hlt | hge
    · rw [List.getElem?_append_left hlt] at hlast
      exact absurd rfl (hcs 0 (List.mem_of_getElem? hlast))
    · simp only [List.length_append, List.length_singleton] at hle
      omega
  rw [← h, List.take_of_length_le]
  simp [heq]

namespace Storage
variable {s : Storage} {nsIndex chunkStart : UInt8} {key : CString} {q : Query} {place : Place} {item : Item} {v : Value}

/-! ## The octets of a blob -/

/-- The octets behind a header. -/
def contentAt (s : Storage) (place : Place) (item : Item) : List UInt8 :=
  ((s.page place.page).readData (place.itemIndex + 1) (item.span - 1) item.dataSize).getD []

/-- A chunk, where it is found under its index. -/
def storedChunk (s : Storage) (nsIndex : UInt8) (key : CString) (chunkStart : UInt8) (chunkNum : Nat) : Option (List UInt8) :=
  (s.findItem (chunkQuery nsIndex key (chunkStart + .ofNat chunkNum))).place.bind fun (place, item) =>
    if chunkStart.toNat + chunkNum = item.chunkIndex.toNat then some (s.contentAt place item) else none

/-- The `n` chunks from `chunkNum` on. -/
def storedChunks (s : Storage) (nsIndex : UInt8) (key : CString) (chunkStart : UInt8) :
    (n chunkNum : Nat) → Option (List (List UInt8))
  | 0, _ => some []
  | n + 1, chunkNum =>
    (s.storedChunk nsIndex key chunkStart chunkNum).bind fun chunk =>
      (s.storedChunks nsIndex key chunkStart n (chunkNum + 1)).map (chunk :: ·)

/-- The chunks of a blob that is whole. -/
def storedBlob (s : Storage) (nsIndex : UInt8) (key : CString) : Option (List (List UInt8)) :=
  (s.findItem (query nsIndex .blobIdx key)).place.bind fun (_, item) =>
    (s.storedChunks nsIndex key item.chunkStart item.chunkCount.toNat 0).filter fun chunks =>
      chunks.flatten.length = item.blobDataSize

theorem FoundAt.layout (hv : FoundAt s q place item v) (h : s.manager.Sound) :
    Layout (s.page place.page) (s.page place.page).values := h.layout_of_value hv.page hv.value

theorem FoundAt.content (hv : FoundAt s q place item v) (h : s.manager.Sound) : s.contentAt place item = v.content := by
  have hlayout := hv.layout h
  have hfits := hlayout.flash.fits v hv.value
  have hspan : v.header.span - 1 = v.body.length := by rw [hfits.span, Nat.add_sub_cancel]
  unfold contentAt
  rw [hv.index, hv.header, hspan, readData_eq (hlayout.stored_body hv.value) hfits.body_octets]
  rfl

theorem FoundAt.variable_length (hv : FoundAt s q place item v) (hq : q.datatype.isVariableLength = true) :
    v.header.datatype.isVariableLength = true := by
  rw [Query.datatype_of_found hv.judged fun heq => by rw [heq] at hq; cases hq]
  exact hq

theorem FoundAt.content_length (hv : FoundAt s q place item v) (h : s.manager.Sound) (hq : q.datatype.isVariableLength = true) :
    (s.contentAt place item).length = item.dataSize := by
  rw [hv.content h, hv.header]
  exact ((hv.layout h).flash.fits v hv.value).content_length (hv.variable_length hq)

/-! ## Reading -/

/-- A chunk that is found is read, and nothing is erased. -/
theorem FoundAt.read (hv : FoundAt s q place item v) (h : s.manager.Sound) (hq : q.datatype.isVariableLength = true) :
    (s.page place.page).readVariableLengthItemData item place.itemIndex =
      (ESP_OK, s.page place.page, s.contentAt place item) := by
  rw [hv.content h, hv.index, hv.header]
  exact (hv.layout h).readVariable hv.value (hv.variable_length hq)

/-- The loop goes through the chunks that are stored, as far as the buffer holds them. -/
theorem readChunks_spec (h : s.manager.Sound) (dataSize n : Nat) (chunkNum : Nat) (data : List UInt8) :
    (readChunks nsIndex key chunkStart dataSize n chunkNum data s).2.2.1 = s ∧
      ((readChunks nsIndex key chunkStart dataSize n chunkNum data s).1 = ESP_OK →
        (readChunks nsIndex key chunkStart dataSize n chunkNum data s).2.1 = false ∧
          ∃ chunks, s.storedChunks nsIndex key chunkStart n chunkNum = some chunks ∧
            (readChunks nsIndex key chunkStart dataSize n chunkNum data s).2.2.2 = data ++ chunks.flatten) ∧
      ∀ chunks, s.storedChunks nsIndex key chunkStart n chunkNum = some chunks →
        (data ++ chunks.flatten).length ≤ dataSize →
          readChunks nsIndex key chunkStart dataSize n chunkNum data s = (ESP_OK, false, s, data ++ chunks.flatten) := by
  induction n generalizing chunkNum data with
  | zero =>
    refine ⟨rfl, fun _ => ⟨rfl, [], rfl, (List.append_nil data).symm⟩, fun chunks hchunks _ => ?_⟩
    obtain rfl := Option.some.inj hchunks
    exact congrArg (fun d => (ESP_OK, false, s, d)) (List.append_nil data).symm
  | succ n ih =>
    unfold readChunks storedChunks storedChunk
    dsimp only
    rw [findItem_storage h]
    cases hplace : (s.findItem (chunkQuery nsIndex key (chunkStart + .ofNat chunkNum))).place with
    | none =>
      exact ⟨rfl, fun hok => absurd hok (by exact (by decide : ESP_ERR_NVS_NOT_FOUND ≠ ESP_OK)),
        fun chunks hchunks => by cases hchunks⟩
    | some found =>
      obtain ⟨place, item⟩ := found
      obtain ⟨v, hv⟩ := findItem_place h hplace
      have hlength := hv.content_length h rfl
      obtain ⟨hstorage, hread, hall⟩ := ih (chunkNum + 1) (data ++ s.contentAt place item)
      have hset : s.setPage place.page (s.page place.page) = s := setPage_page place.page
      simp only [Option.bind_some]
      by_cases hsize : item.dataSize > dataSize - data.length
      · rw [if_pos hsize]
        refine ⟨rfl, fun hok => absurd hok (by exact (by decide : ESP_ERR_NVS_INVALID_LENGTH ≠ ESP_OK)),
          fun chunks hchunks hfits => ?_⟩
        by_cases hindex : chunkStart.toNat + chunkNum = item.chunkIndex.toNat
        · rw [if_pos hindex, Option.bind_some] at hchunks
          obtain ⟨rest, -, rfl⟩ := Option.map_eq_some_iff.mp hchunks
          rw [List.flatten_cons, List.length_append, List.length_append, hlength] at hfits
          omega
        · rw [if_neg hindex] at hchunks
          cases hchunks
      · rw [if_neg hsize, hv.read h rfl]
        simp only [ne_eq, not_true, if_false]
        rw [hset]
        by_cases hindex : chunkStart.toNat + chunkNum = item.chunkIndex.toNat
        · rw [if_neg (not_not.mpr hindex), if_pos hindex, Option.bind_some]
          refine ⟨hstorage, fun hok => ?_, fun chunks hchunks hfits => ?_⟩
          · obtain ⟨hreturned, rest, hrest, hdata⟩ := hread hok
            refine ⟨hreturned, s.contentAt place item :: rest, ?_, ?_⟩
            · rw [hrest]
              rfl
            · rw [hdata, List.flatten_cons, List.append_assoc]
          · obtain ⟨rest, hrest, rfl⟩ := Option.map_eq_some_iff.mp hchunks
            rw [List.flatten_cons, ← List.append_assoc] at hfits ⊢
            exact hall rest hrest hfits
        · rw [if_pos hindex, if_neg hindex]
          exact ⟨rfl, fun hok => absurd hok (by exact (by decide : ESP_FAIL ≠ ESP_OK)), fun chunks hchunks => by cases hchunks⟩

/-- A blob is read where it is whole and fills the buffer; then the storage stays as it is. -/
theorem readMultiPageBlob_spec (h : s.manager.Sound) (dataSize : Nat) (data : List UInt8) :
    ((s.readMultiPageBlob nsIndex key dataSize).1 = ESP_OK ∧ (s.readMultiPageBlob nsIndex key dataSize).2.2 = data ↔
        data.length = dataSize ∧ ∃ chunks, s.storedBlob nsIndex key = some chunks ∧ chunks.flatten = data) ∧
      ((s.readMultiPageBlob nsIndex key dataSize).1 = ESP_OK → (s.readMultiPageBlob nsIndex key dataSize).2.1 = s) := by
  unfold readMultiPageBlob storedBlob
  dsimp only
  rw [findItem_storage h]
  cases (s.findItem (query nsIndex .blobIdx key)).place with
  | none =>
    have hne : ESP_ERR_NVS_NOT_FOUND ≠ ESP_OK := by decide
    exact ⟨iff_of_false (fun hand => hne hand.1) fun ⟨_, _, hblob, _⟩ => (by cases hblob), fun hok => absurd hok hne⟩
  | some found =>
    obtain ⟨place, item⟩ := found
    have hfail : ESP_FAIL ≠ ESP_OK := by decide
    dsimp only
    rw [Option.bind_some]
    by_cases hsize : dataSize ≠ item.blobDataSize
    · rw [if_pos hsize]
      refine ⟨iff_of_false (fun hand => hfail hand.1) fun ⟨hlength, chunks, hblob, hdata⟩ => hsize ?_, fun hok => absurd hok hfail⟩
      rw [← hlength, ← hdata]
      exact of_decide_eq_true (Option.filter_eq_some_iff.mp hblob).2
    · obtain ⟨hstorage, hread, hall⟩ :=
        @readChunks_spec s nsIndex item.chunkStart key h dataSize item.chunkCount.toNat 0 []
      rw [if_neg hsize]
      rw [not_not] at hsize
      by_cases hok : (readChunks nsIndex key item.chunkStart dataSize item.chunkCount.toNat 0 [] s).1 = ESP_OK
      · obtain ⟨hreturned, chunks, hchunks, hdata⟩ := hread hok
        rw [List.nil_append] at hdata
        simp only [hreturned, Bool.false_eq_true, if_false, hok, ne_eq, not_true, hstorage, hdata, hchunks, Option.filter_some]
        by_cases hlength : chunks.flatten.length = dataSize
        · rw [if_neg (not_not.mpr hlength), if_pos (decide_eq_true (hlength.trans hsize))]
          refine ⟨⟨fun hand => ⟨hand.2 ▸ hlength, chunks, rfl, hand.2⟩, fun ⟨_, rest, hrest, heq⟩ => ⟨rfl, ?_⟩⟩, fun _ => rfl⟩
          rw [← heq, ← Option.some.inj hrest]
        · rw [if_pos hlength, if_neg (by rw [← hsize]; simpa using hlength)]
          exact ⟨iff_of_false (fun hand => hfail hand.1) fun ⟨_, _, hblob, _⟩ => (by cases hblob), fun hbad => absurd hbad hfail⟩
      · have hnone : ∀ chunks, s.storedChunks nsIndex key item.chunkStart item.chunkCount.toNat 0 = some chunks →
            chunks.flatten.length ≠ item.blobDataSize := by
          intro chunks hchunks heq
          have hout := hall chunks hchunks (by rw [List.nil_append, heq, hsize])
          exact hok (congrArg Prod.fst hout)
        have hblob : ¬∃ chunks, (s.storedChunks nsIndex key item.chunkStart item.chunkCount.toNat 0).filter
            (fun chunks => chunks.flatten.length = item.blobDataSize) = some chunks := by
          rintro ⟨chunks, hchunks⟩
          obtain ⟨hsome, heq⟩ := Option.filter_eq_some_iff.mp hchunks
          exact hnone chunks hsome (of_decide_eq_true heq)
        refine ⟨iff_of_false (fun hand => ?_) fun ⟨_, chunks, hchunks, _⟩ => hblob ⟨chunks, hchunks⟩, fun hbad => ?_⟩
        · have hgoal := hand.1
          split_ifs at hgoal
          · exact hok hgoal
          · exact hfail hgoal
          · exact hok hgoal
        · split_ifs at hbad
          · exact absurd hbad hok
          · exact absurd hbad hfail
          · exact absurd hbad hok

/-! ## Comparing -/

/-- A chunk with the CRC of what `data` begins with; without octets the garbage has to be right. -/
def Agrees (garbage : UInt32) (data chunk : List UInt8) : Prop :=
  crc32Le 0xffffffff (data.take chunk.length) = crc32Le 0xffffffff chunk ∧
    (chunk = [] → garbage = crc32Le 0xffffffff [])

section compare
variable {garbage : UInt32} {data : List UInt8}

theorem take_drop_append {xs ys : List UInt8} {offset : Nat} :
    (data.drop offset).take (xs ++ ys).length = xs ++ ys ↔
      (data.drop offset).take xs.length = xs ∧ (data.drop (offset + xs.length)).take ys.length = ys := by
  rw [List.length_append, List.take_add, ← List.drop_drop]
  constructor
  · intro heq
    refine List.append_inj heq ?_
    rw [List.length_take, Nat.min_eq_left]
    by_contra hshort
    have hlen := congrArg List.length heq
    rw [List.length_append, List.length_append, List.length_take, List.length_take, List.length_drop (i := xs.length)] at hlen
    omega
  · rintro ⟨h0, h1⟩
    rw [h0, h1]

/-- A chunk that is found compares as equal where it agrees with `data`, and is at its place. -/
theorem FoundAt.cmp (hv : FoundAt s q place item v) (h : s.manager.Sound) (hq : q.datatype.isVariableLength = true)
    (garbage : UInt32) (data : List UInt8) :
    (s.onPage place.page (·.cmpItem garbage q data)).2 = s ∧
      ((s.onPage place.page (·.cmpItem garbage q data)).1 = ESP_OK ↔
        data.take (s.contentAt place item).length = s.contentAt place item ∧
          (s.contentAt place item = [] → garbage = crc32Le 0xffffffff [])) := by
  obtain ⟨hpage, herr⟩ := (hv.layout h).cmpItem_variable hv.value (hv.variable_length hq) hq hv.again garbage data
  rw [hv.content h]
  refine ⟨?_, herr⟩
  rw [onPage_snd, hpage, setPage_page]

theorem FoundAt.crc (hv : FoundAt s q place item v) (h : s.manager.Sound) (hq : q.datatype.isVariableLength = true) :
    item.dataCrc32 = crc32Le 0xffffffff (s.contentAt place item) := by
  rw [hv.content h, hv.header]
  exact (((hv.layout h).flash.sound v hv.value).checked (hv.variable_length hq)).symm

/-- The loop goes through the chunks that are stored, as far as they agree with `data`. -/
theorem cmpChunks_spec (h : s.manager.Sound) (n chunkNum offset : Nat) :
    (cmpChunks garbage nsIndex key chunkStart data n chunkNum offset s).2.2.2 = s ∧
      ((cmpChunks garbage nsIndex key chunkStart data n chunkNum offset s).1 = ESP_OK →
        (cmpChunks garbage nsIndex key chunkStart data n chunkNum offset s).2.1 = false ∧
          ∃ chunks, s.storedChunks nsIndex key chunkStart n chunkNum = some chunks ∧
            (cmpChunks garbage nsIndex key chunkStart data n chunkNum offset s).2.2.1 = offset + chunks.flatten.length ∧
            (data.drop offset).take chunks.flatten.length = chunks.flatten ∧ ∀ chunk ∈ chunks, Agrees garbage data chunk) ∧
      ∀ chunks, s.storedChunks nsIndex key chunkStart n chunkNum = some chunks →
        (data.drop offset).take chunks.flatten.length = chunks.flatten → (∀ chunk ∈ chunks, Agrees garbage data chunk) →
          cmpChunks garbage nsIndex key chunkStart data n chunkNum offset s =
            (ESP_OK, false, offset + chunks.flatten.length, s) := by
  induction n generalizing chunkNum offset with
  | zero =>
    refine ⟨rfl, fun _ => ⟨rfl, [], rfl, rfl, rfl, fun chunk hmem => absurd hmem List.not_mem_nil⟩, fun chunks hchunks _ _ => ?_⟩
    obtain rfl := Option.some.inj hchunks
    rfl
  | succ n ih =>
    have hdiffers : ESP_ERR_NVS_CONTENT_DIFFERS ≠ ESP_OK := by decide
    unfold cmpChunks storedChunks storedChunk
    dsimp only
    rw [findItem_storage h]
    cases hplace : (s.findItem (chunkQuery nsIndex key (chunkStart + .ofNat chunkNum))).place with
    | none =>
      exact ⟨rfl, fun hok => absurd hok (by exact (by decide : ESP_ERR_NVS_NOT_FOUND ≠ ESP_OK)),
        fun chunks hchunks => by cases hchunks⟩
    | some found =>
      obtain ⟨place, item⟩ := found
      obtain ⟨v, hv⟩ := findItem_place h hplace
      have hlength := hv.content_length h rfl
      have hcrc := hv.crc h rfl
      obtain ⟨hstorage, hok, hall⟩ := ih (chunkNum + 1) (offset + item.dataSize)
      obtain ⟨hcmp, hcmpok⟩ := hv.cmp h rfl garbage ((data.drop offset).take item.dataSize)
      have htake : ((data.drop offset).take item.dataSize).take (s.contentAt place item).length =
          (data.drop offset).take (s.contentAt place item).length := by
        rw [hlength, List.take_take, Nat.min_self]
      rw [htake] at hcmpok
      -- the chunks that follow from the one that is found
      have hcons : ∀ chunks, (if chunkStart.toNat + chunkNum = item.chunkIndex.toNat then
          some (s.contentAt place item) else none).bind (fun chunk =>
            (s.storedChunks nsIndex key chunkStart n (chunkNum + 1)).map (chunk :: ·)) = some chunks ↔
          chunkStart.toNat + chunkNum = item.chunkIndex.toNat ∧
            ∃ rest, s.storedChunks nsIndex key chunkStart n (chunkNum + 1) = some rest ∧
              s.contentAt place item :: rest = chunks := by
        intro chunks
        by_cases hindex : chunkStart.toNat + chunkNum = item.chunkIndex.toNat
        · rw [if_pos hindex, Option.bind_some, Option.map_eq_some_iff]
          exact ⟨fun hrest => ⟨hindex, hrest⟩, And.right⟩
        · rw [if_neg hindex]
          exact iff_of_false (fun hbad => by cases hbad) fun hand => hindex hand.1
      simp only [Option.bind_some, hcons]
      by_cases hsize : item.dataSize > data.length - offset
      · rw [if_pos hsize]
        refine ⟨rfl, fun hbad => absurd hbad hdiffers, ?_⟩
        rintro chunks ⟨-, rest, -, rfl⟩ hfits -
        have hlen := congrArg List.length (take_drop_append.mp hfits).1
        rw [List.length_take, List.length_drop, hlength] at hlen
        omega
      rw [if_neg hsize]
      by_cases hdiffer : crc32Le 0xffffffff (data.take item.dataSize) ≠ item.dataCrc32
      · rw [if_pos hdiffer]
        refine ⟨rfl, fun hbad => absurd hbad hdiffers, ?_⟩
        rintro chunks ⟨-, rest, -, rfl⟩ - hagrees
        have hfirst := (hagrees _ List.mem_cons_self).1
        rw [hlength, ← hcrc] at hfirst
        exact absurd hfirst hdiffer
      rw [if_neg hdiffer]
      by_cases herr : (s.onPage place.page (·.cmpItem garbage (chunkQuery nsIndex key (chunkStart + .ofNat chunkNum))
          ((data.drop offset).take item.dataSize))).1 ≠ ESP_OK
      · rw [if_pos herr, hcmp]
        refine ⟨rfl, fun hbad => absurd hbad herr, ?_⟩
        rintro chunks ⟨-, rest, -, rfl⟩ hfits hagrees
        exact absurd (hcmpok.mpr ⟨(take_drop_append.mp hfits).1, (hagrees _ List.mem_cons_self).2⟩) herr
      have hhere := hcmpok.mp (not_not.mp herr)
      rw [if_neg herr, hcmp]
      by_cases hindex : chunkStart.toNat + chunkNum = item.chunkIndex.toNat
      · rw [if_neg (not_not.mpr hindex)]
        refine ⟨hstorage, fun hbad => ?_, ?_⟩
        · obtain ⟨hreturned, rest, hrest, hoffset, hsame, hagrees⟩ := hok hbad
          refine ⟨hreturned, _, ⟨hindex, rest, hrest, rfl⟩, ?_, ?_, List.forall_mem_cons.mpr ⟨⟨?_, hhere.2⟩, hagrees⟩⟩
          · rw [hoffset, List.flatten_cons, List.length_append, hlength, Nat.add_assoc]
          · rw [List.flatten_cons]
            exact take_drop_append.mpr ⟨hhere.1, hlength.symm ▸ hsame⟩
          · rw [hlength, ← hcrc]
            exact not_not.mp hdiffer
        · rintro chunks ⟨-, rest, hrest, rfl⟩ hfits hagrees
          rw [List.flatten_cons] at hfits ⊢
          have hbehind := (take_drop_append.mp hfits).2
          rw [hlength] at hbehind
          rw [hall rest hrest hbehind fun chunk hmem => hagrees chunk (List.mem_cons_of_mem _ hmem), List.length_append,
            hlength, Nat.add_assoc]
      · rw [if_pos hindex]
        refine ⟨rfl, fun hbad => absurd hbad (by exact (by decide : ESP_FAIL ≠ ESP_OK)), ?_⟩
        rintro chunks ⟨hgood, -⟩
        exact absurd hgood hindex

/-- A blob compares as equal where it is whole, is `data`, and each of its chunks agrees with `data`. -/
theorem cmpMultiPageBlob_spec (h : s.manager.Sound) :
    (cmpMultiPageBlob garbage s nsIndex key data).2 = s ∧
      ((cmpMultiPageBlob garbage s nsIndex key data).1 = ESP_OK ↔
        ∃ chunks, s.storedBlob nsIndex key = some chunks ∧ chunks.flatten = data ∧
          ∀ chunk ∈ chunks, Agrees garbage data chunk) := by
  unfold cmpMultiPageBlob storedBlob
  dsimp only
  rw [findItem_storage h]
  cases (s.findItem (query nsIndex .blobIdx key)).place with
  | none =>
    exact ⟨rfl, iff_of_false (by exact (by decide : ESP_ERR_NVS_NOT_FOUND ≠ ESP_OK)) fun ⟨_, hblob, _⟩ => by cases hblob⟩
  | some found =>
    obtain ⟨place, item⟩ := found
    have hfail : ESP_FAIL ≠ ESP_OK := by decide
    dsimp only
    rw [Option.bind_some]
    by_cases hsize : data.length ≠ item.blobDataSize
    · rw [if_pos hsize]
      refine ⟨rfl, iff_of_false (by exact (by decide : ESP_ERR_NVS_CONTENT_DIFFERS ≠ ESP_OK)) ?_⟩
      rintro ⟨chunks, hblob, rfl, -⟩
      exact hsize (of_decide_eq_true (Option.filter_eq_some_iff.mp hblob).2)
    · obtain ⟨hstorage, hread, hall⟩ :=
        @cmpChunks_spec s nsIndex item.chunkStart key garbage data h item.chunkCount.toNat 0 0
      rw [if_neg hsize, hstorage]
      rw [not_not] at hsize
      by_cases hok : (cmpChunks garbage nsIndex key item.chunkStart data item.chunkCount.toNat 0 0 s).1 = ESP_OK
      · obtain ⟨hreturned, chunks, hchunks, hoffset, hsame, hagrees⟩ := hread hok
        rw [List.drop_zero] at hsame
        rw [Nat.zero_add] at hoffset
        simp only [hreturned, Bool.false_eq_true, if_false, hok, hoffset, hchunks, Option.filter_some]
        by_cases hlength : chunks.flatten.length = data.length
        · rw [if_neg (not_not.mpr hlength), if_pos (decide_eq_true (hlength.trans hsize))]
          refine ⟨rfl, iff_of_true rfl ⟨chunks, rfl, ?_, hagrees⟩⟩
          rw [← hsame, hlength, List.take_length]
        · rw [if_pos hlength, if_neg (by rw [← hsize]; simpa using hlength)]
          exact ⟨rfl, iff_of_false hfail fun ⟨_, hblob, _⟩ => by cases hblob⟩
      · have hnone : ¬∃ chunks, (s.storedChunks nsIndex key item.chunkStart item.chunkCount.toNat 0).filter
            (fun chunks => chunks.flatten.length = item.blobDataSize) = some chunks ∧ chunks.flatten = data ∧
              ∀ chunk ∈ chunks, Agrees garbage data chunk := by
          rintro ⟨chunks, hblob, hdata, hagrees⟩
          have hout := hall chunks (Option.filter_eq_some_iff.mp hblob).1
            (by rw [List.drop_zero, hdata, List.take_length]) hagrees
          exact hok (congrArg Prod.fst hout)
        refine ⟨by split_ifs <;> rfl, iff_of_false ?_ hnone⟩
        split_ifs
        · exact hok
        · exact hfail
        · exact hok

end compare

/-! ## Values of any type -/

/-- What the handles write: a number in its own size, a text with its NUL, or octets. -/
inductive IsValue : ItemType → List UInt8 → Prop
  | primitive {datatype : ItemType} {data : List UInt8} (htype : datatype ∈ ItemType.primitive)
      (hlength : data.length = datatype.alignment) : IsValue datatype data
  | text {data : List UInt8} (htext : IsText data) : IsValue .sz data
  | blob (data : List UInt8) : IsValue .blob data

section item
variable {datatype : ItemType} {data : List UInt8} {garbage : UInt32}

/-- A blob that cannot be read is erased, and nothing else happens. -/
theorem readMultiPageBlob_trimmed (h : s.manager.Sound) (dataSize : Nat) :
    Trimmed s (s.readMultiPageBlob nsIndex key dataSize).2.1 := by
  unfold readMultiPageBlob
  dsimp only
  rw [findItem_storage h]
  cases (s.findItem (query nsIndex .blobIdx key)).place with
  | none => exact .refl s
  | some found =>
    obtain ⟨place, item⟩ := found
    obtain ⟨hstorage, -⟩ := @readChunks_spec s nsIndex item.chunkStart key h dataSize item.chunkCount.toNat 0 []
    have hkept : ∀ err : EspErr, Trimmed s (if err ≠ ESP_OK then (s.eraseMultiPageBlob nsIndex key true VER_ANY).2 else s) := by
      intro err
      split_ifs
      · exact eraseMultiPageBlob_trimmed h VER_ANY
      · exact .refl s
    dsimp only
    rw [hstorage]
    by_cases hsize : dataSize ≠ item.blobDataSize
    · rw [if_pos hsize]
      exact .refl s
    rw [if_neg hsize]
    by_cases hreturned : (readChunks nsIndex key item.chunkStart dataSize item.chunkCount.toNat 0 [] s).2.1 = true
    · rw [if_pos hreturned]
      exact .refl s
    rw [if_neg hreturned]
    split
    · exact hkept _
    · exact hkept _

/-- There is no blob without an index. -/
theorem findItem_blob (h : s.manager.Sound) : (s.findItem (query nsIndex .blob key)).place = none := by
  cases hplace : (s.findItem (query nsIndex .blob key)).place with
  | none => rfl
  | some found =>
    obtain ⟨v, hv⟩ := findItem_place h hplace
    have hblob := Query.datatype_of_found hv.judged ItemType.noConfusion
    exact absurd hblob ((hv.layout h).flash.sound v hv.value).indexed

theorem readItem_blob (h : s.manager.Sound) (hactive : s.active = true) (dataSize : Nat) :
    ((s.readItem nsIndex .blob key dataSize).1 = ESP_OK ∧ (s.readItem nsIndex .blob key dataSize).2.2 = data ↔
        (s.readMultiPageBlob nsIndex key dataSize).1 = ESP_OK ∧ (s.readMultiPageBlob nsIndex key dataSize).2.2 = data) ∧
      (s.readItem nsIndex .blob key dataSize).2.1 = (s.readMultiPageBlob nsIndex key dataSize).2.1 := by
  have htrimmed := @readMultiPageBlob_trimmed s nsIndex key h dataSize
  have hsound := htrimmed.sound h
  unfold readItem
  simp only [hactive, Bool.not_true, Bool.false_eq_true, if_false, if_true]
  by_cases hnone : (s.readMultiPageBlob nsIndex key dataSize).1 ≠ ESP_ERR_NVS_NOT_FOUND
  · rw [if_pos hnone]
    exact ⟨Iff.rfl, rfl⟩
  · rw [if_neg hnone, findItem_blob hsound, findItem_storage hsound]
    have hne : ESP_ERR_NVS_NOT_FOUND ≠ ESP_OK := by decide
    rw [not_not] at hnone
    exact ⟨iff_of_false (fun hand => hne hand.1) fun hand => hne (hnone.symm.trans hand.1), rfl⟩

/-- A value that is no blob is on one page. -/
theorem readItem_single (h : s.manager.Sound) (hactive : s.active = true) (hblob : datatype ≠ .blob) (dataSize : Nat) :
    s.readItem nsIndex datatype key dataSize =
      match (s.findItem (query nsIndex datatype key)).place with
      | none => (ESP_ERR_NVS_NOT_FOUND, s, [])
      | some (place, _) =>
        (((s.page place.page).readItem (query nsIndex datatype key) dataSize).1,
          s.setPage place.page ((s.page place.page).readItem (query nsIndex datatype key) dataSize).2.1,
          ((s.page place.page).readItem (query nsIndex datatype key) dataSize).2.2) := by
  unfold readItem
  simp only [hactive, Bool.not_true, Bool.false_eq_true, if_false, hblob]
  rw [if_neg (not_not.mpr rfl)]
  cases hplace : (s.findItem (query nsIndex datatype key)).place with
  | none => rw [findItem_storage h]
  | some found => rw [findItem_storage h]

/-- What is read of a value that is no blob, and what compares as equal. -/
theorem single_spec (h : s.manager.Sound) (hvalue : IsValue datatype data) (hblob : datatype ≠ .blob)
    (hplace : (s.findItem (query nsIndex datatype key)).place = some (place, item)) :
    ((s.page place.page).cmpItem garbage (query nsIndex datatype key) data).2 = s.page place.page ∧
      (((s.page place.page).cmpItem garbage (query nsIndex datatype key) data).1 = ESP_OK ↔
        ((s.page place.page).readItem (query nsIndex datatype key) data.length).1 = ESP_OK ∧
          ((s.page place.page).readItem (query nsIndex datatype key) data.length).2.2 = data) := by
  obtain ⟨v, hv⟩ := findItem_place h hplace
  have hlayout := hv.layout h
  have hinvalid : ESP_ERR_NVS_INVALID_LENGTH ≠ ESP_OK := by decide
  have hmismatch : ESP_ERR_NVS_TYPE_MISMATCH ≠ ESP_OK := by decide
  cases hvalue with
  | blob data => exact absurd rfl hblob
  | primitive htype hlength =>
    have hvar := (primitive_kinds htype).1
    obtain ⟨hpage, hcmp⟩ := hlayout.cmpItem_primitive hvar hv.again garbage data
    refine ⟨hpage, hcmp.trans ?_⟩
    have hsize : ¬data.length ≠ (query nsIndex datatype key).datatype.alignment := not_not.mpr hlength
    rw [hlayout.readItem_primitive hvar hv.again, if_neg hsize]
    exact ⟨fun hand => ⟨rfl, hand.2.symm⟩, fun hand => ⟨hlength, hand.2.symm⟩⟩
  | text htext =>
    have hvar := hv.variable_length rfl
    obtain ⟨hpage, hcmp⟩ := hlayout.cmpItem_variable hv.value hvar rfl hv.again garbage data
    have htype : v.header.datatype = .sz := Query.datatype_of_found hv.judged ItemType.noConfusion
    have hcontent := (hlayout.flash.sound v hv.value).text htype
    refine ⟨hpage, hcmp.trans ?_⟩
    rw [hlayout.readItem_variable hv.value hvar rfl hv.again]
    constructor
    · rintro ⟨hhead, -⟩
      have heq := htext.eq_of_take hcontent hhead
      rw [heq, if_neg (Nat.lt_irrefl _)]
      exact ⟨rfl, rfl⟩
    · rintro ⟨hok, hdata⟩
      split_ifs at hok hdata
      · exact absurd hok hinvalid
      · have heq : v.content = data := hdata
        rw [heq, List.take_length]
        refine ⟨rfl, fun hnil => ?_⟩
        obtain ⟨chars, -, hchars⟩ := htext
        rw [hnil] at hchars
        exact absurd hchars.symm (List.append_ne_nil_of_right_ne_nil chars (List.cons_ne_nil 0 []))

/-- Where no value of the type is found, nothing is compared. -/
theorem isStored_none (h : s.manager.Sound)
    (hplace : (s.findItem (query nsIndex (if datatype = .blob then .blobIdx else datatype) key)).place = none) :
    (isStored garbage s nsIndex datatype key data).1 = false ∧ (isStored garbage s nsIndex datatype key data).2.1 = s := by
  unfold isStored findOld
  dsimp only
  rw [hplace, findItem_storage h]
  dsimp only
  rw [findItem_storage h]
  cases (s.findItem (query nsIndex .any key)).place with
  | none => exact ⟨rfl, rfl⟩
  | some found => exact ⟨rfl, rfl⟩

theorem isStored_some (h : s.manager.Sound)
    (hplace : (s.findItem (query nsIndex (if datatype = .blob then .blobIdx else datatype) key)).place = some (place, item)) :
    ∃ seqNumber, isStored garbage s nsIndex datatype key data =
      (decide ((cmpOld garbage s nsIndex datatype key data ⟨place, item, seqNumber⟩).1 = ESP_OK),
        (cmpOld garbage s nsIndex datatype key data ⟨place, item, seqNumber⟩).2, some ⟨place, item, seqNumber⟩, true) := by
  unfold isStored findOld
  dsimp only
  rw [hplace, findItem_storage h]
  exact ⟨_, rfl⟩

/-- A value counts as stored where it is read as such, and each chunk of a blob agrees with the beginning of `data`. -/
theorem isStored_spec (h : s.manager.Sound) (hactive : s.active = true) (hvalue : IsValue datatype data) :
    (isStored garbage s nsIndex datatype key data).2.1 = s ∧
      ((isStored garbage s nsIndex datatype key data).1 = true ↔
        ((s.readItem nsIndex datatype key data.length).1 = ESP_OK ∧ (s.readItem nsIndex datatype key data.length).2.2 = data) ∧
          (datatype = .blob → ∀ chunks, s.storedBlob nsIndex key = some chunks → chunks.flatten = data →
            ∀ chunk ∈ chunks, Agrees garbage data chunk)) := by
  by_cases hblob : datatype = .blob
  · subst hblob
    obtain ⟨hread, -⟩ := (@readMultiPageBlob_spec s nsIndex key h data.length data)
    obtain ⟨hcmp, hcmpok⟩ := @cmpMultiPageBlob_spec s nsIndex key garbage data h
    rw [(readItem_blob h hactive data.length).1, hread]
    simp only [true_implies, true_and]
    have hiff : ((∃ chunks, s.storedBlob nsIndex key = some chunks ∧ chunks.flatten = data) ∧
          ∀ chunks, s.storedBlob nsIndex key = some chunks → chunks.flatten = data →
            ∀ chunk ∈ chunks, Agrees garbage data chunk) ↔
        ∃ chunks, s.storedBlob nsIndex key = some chunks ∧ chunks.flatten = data ∧
          ∀ chunk ∈ chunks, Agrees garbage data chunk := by
      constructor
      · rintro ⟨⟨chunks, hchunks, hdata⟩, hall⟩
        exact ⟨chunks, hchunks, hdata, hall chunks hchunks hdata⟩
      · rintro ⟨chunks, hchunks, hdata, hall⟩
        refine ⟨⟨chunks, hchunks, hdata⟩, fun chunks' hchunks' _ => ?_⟩
        rw [hchunks] at hchunks'
        exact Option.some.inj hchunks' ▸ hall
    rw [hiff, ← hcmpok]
    cases hplace : (s.findItem (query nsIndex .blobIdx key)).place with
    | none =>
      obtain ⟨hstored, hstorage⟩ := @isStored_none s nsIndex key .blob data garbage h hplace
      refine ⟨hstorage, iff_of_false (by rw [hstored]; exact Bool.false_ne_true) fun hok => ?_⟩
      obtain ⟨chunks, hchunks, -⟩ := hcmpok.mp hok
      unfold storedBlob at hchunks
      rw [hplace] at hchunks
      cases hchunks
    | some found =>
      obtain ⟨seqNumber, hstored⟩ := @isStored_some s nsIndex key found.1 found.2 .blob data garbage h hplace
      rw [hstored]
      unfold cmpOld
      simp only [if_true, decide_eq_true_eq]
      exact ⟨hcmp, trivial⟩
  · have hquery : query nsIndex (if datatype = .blob then .blobIdx else datatype) key = query nsIndex datatype key := by
      rw [if_neg hblob]
    rw [readItem_single h hactive hblob]
    cases hplace : (s.findItem (query nsIndex datatype key)).place with
    | none =>
      obtain ⟨hstored, hstorage⟩ := @isStored_none s nsIndex key datatype data garbage h (hquery.symm ▸ hplace)
      exact ⟨hstorage, iff_of_false (by rw [hstored]; exact Bool.false_ne_true) fun hand =>
        absurd hand.1.1 (by exact (by decide : ESP_ERR_NVS_NOT_FOUND ≠ ESP_OK))⟩
    | some found =>
      obtain ⟨place, item⟩ := found
      obtain ⟨seqNumber, hstored⟩ := @isStored_some s nsIndex key place item datatype data garbage h (hquery.symm ▸ hplace)
      obtain ⟨hpage, hcmp⟩ := @single_spec s nsIndex key place item datatype data garbage h hvalue hblob hplace
      rw [hstored]
      unfold cmpOld
      rw [if_neg hblob]
      refine ⟨?_, ?_⟩
      · rw [onPage_snd]
        dsimp only
        rw [hpage, setPage_page]
      · rw [decide_eq_true_eq]
        exact hcmp.trans ⟨fun hok => ⟨hok, fun hbad => absurd hbad hblob⟩, And.left⟩

end item

end Storage

end EspIdf.Nvs
