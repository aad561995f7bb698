import EspIdf.Nvs.Updates

/-!
# NVS: what a value reads as

* `Query.datatype_of_found` : the type of what is found;
* `Value.Fits.size`, `Value.Fits.content_length` : the entries are as many as the octets need;
* `readData_eq`, `readVariableLengthItemData_eq` : a value is read as its octets;
* `cmpData_eq`, `cmpItem_iff` : a comparison is with these octets, and with the garbage where there are none.
-/

namespace EspIdf.Nvs

open Spans Crc32

theorem crc32Le_append (crc : UInt32) (xs ys : List UInt8) : crc32Le crc (xs ++ ys) = crc32Le (crc32Le crc xs) ys := by
  unfold crc32Le
  rw [List.foldl_append, UInt32.not_not]

/-- What is found has the type that was asked for. -/
theorem Query.datatype_of_found {q : Query} {item : Item} (h : q.judge item = .found) (hany : q.datatype ≠ .any) :
    item.datatype = q.datatype := by
  by_contra hne
  unfold Query.judge at h
  split_ifs at h
  all_goals simp_all

/-! ## Sizes -/

section size
variable {v : Value}

theorem Value.Fits.size (h : v.Fits) (hvar : v.header.datatype.isVariableLength = true) :
    v.body.length = (v.header.dataSize + ENTRY_SIZE - 1) / ENTRY_SIZE := by
  have hcons := h.consistent
  have hspan := h.span
  have hprim : v.header.datatype ∉ ItemType.primitive := fun hmem => by
    rw [(primitive_kinds hmem).1] at hvar
    cases hvar
  have hindex : v.header.datatype ≠ .blobIdx := fun heq => by
    rw [heq] at hvar
    cases hvar
  unfold Item.checkHeaderConsistency at hcons
  rw [if_neg hprim, if_neg hindex, if_pos hvar] at hcons
  split_ifs at hcons with hcrc hchunk hsize hroom
  have heq := of_decide_eq_true hcons
  unfold ENTRY_SIZE ENTRY_COUNT at *
  omega

theorem flatMap_rawData_length {items : List Item} (h : ∀ item ∈ items, item.rawData.length = ENTRY_SIZE) :
    (items.flatMap Item.rawData).length = items.length * ENTRY_SIZE := by
  induction items with
  | nil => rfl
  | cons item items ih =>
    rw [List.flatMap_cons, List.length_append, h item List.mem_cons_self, ih fun x hx => h x (List.mem_cons_of_mem item hx),
      List.length_cons, Nat.succ_mul, Nat.add_comm]

theorem Value.Fits.body_octets (h : v.Fits) : ∀ item ∈ v.body, item.rawData.length = ENTRY_SIZE := fun item hitem =>
  h.octets item (List.mem_cons_of_mem v.header hitem)

theorem Value.Fits.dataSize_le (h : v.Fits) (hvar : v.header.datatype.isVariableLength = true) :
    v.header.dataSize ≤ v.body.length * ENTRY_SIZE := by
  rw [h.size hvar]
  unfold ENTRY_SIZE
  omega

theorem Value.Fits.content_length (h : v.Fits) (hvar : v.header.datatype.isVariableLength = true) :
    v.content.length = v.header.dataSize := by
  unfold Value.content
  rw [List.length_take, flatMap_rawData_length h.body_octets, Nat.min_eq_left (h.dataSize_le hvar)]

/-- There is no entry behind the header exactly where there are no octets. -/
theorem Value.Fits.body_nil (h : v.Fits) (hvar : v.header.datatype.isVariableLength = true) :
    v.header.span - 1 = 0 ↔ v.content = [] := by
  rw [← List.length_eq_zero_iff, h.content_length hvar, h.span, Nat.add_sub_cancel, h.size hvar]
  unfold ENTRY_SIZE
  omega

end size

/-! ## Entries that are read -/

section read
variable {p : Page} {items : List Item} {i left : Nat}

theorem readData_eq (hitems : ∀ (j : Nat) item, items[j]? = some item → p.readEntry (i + j) = some item)
    (hoctets : ∀ item ∈ items, item.rawData.length = ENTRY_SIZE) :
    p.readData i items.length left = some ((items.flatMap Item.rawData).take left) := by
  induction items generalizing i left with
  | nil =>
    rw [List.flatMap_nil, List.take_nil]
    rfl
  | cons item items ih =>
    have hread : p.readEntry i = some item := hitems 0 item rfl
    have hlength := hoctets item List.mem_cons_self
    have hrest := @ih (i + 1) (left - min left ENTRY_SIZE)
      (fun j x hx => by rw [Nat.add_assoc, Nat.add_comm 1 j]; exact hitems (j + 1) x hx)
      fun x hx => hoctets x (List.mem_cons_of_mem item hx)
    have htake : item.rawData.take (min left ENTRY_SIZE) = item.rawData.take left := by
      rw [← hlength, ← List.take_eq_take_min]
    rw [List.length_cons, Page.readData, hread, Option.bind_some, hrest, Option.map_some, List.flatMap_cons, List.take_append,
      htake, hlength]
    congr 3
    unfold ENTRY_SIZE
    omega

/-- The octets are compared one entry after the other, and the CRC is that of all. -/
theorem cmpData_eq (hitems : ∀ (j : Nat) item, items[j]? = some item → p.readEntry (i + j) = some item)
    (hoctets : ∀ item ∈ items, item.rawData.length = ENTRY_SIZE) (data : List UInt8) (crc : UInt32) :
    ((p.cmpData i items.length left data crc).1 = ESP_OK ↔
        data.take ((items.flatMap Item.rawData).take left).length = (items.flatMap Item.rawData).take left) ∧
      ((p.cmpData i items.length left data crc).1 = ESP_OK →
        (p.cmpData i items.length left data crc).2 = crc32Le crc ((items.flatMap Item.rawData).take left)) := by
  induction items generalizing i left data crc with
  | nil =>
    rw [List.flatMap_nil, List.take_nil]
    refine ⟨iff_of_true rfl rfl, fun _ => ?_⟩
    unfold crc32Le
    rw [List.foldl_nil, UInt32.not_not]
    rfl
  | cons item items ih =>
    have hread : p.readEntry i = some item := hitems 0 item rfl
    have hlength := hoctets item List.mem_cons_self
    have hrest := @ih (i + 1) (left - min left ENTRY_SIZE)
      (fun j x hx => by rw [Nat.add_assoc, Nat.add_comm 1 j]; exact hitems (j + 1) x hx)
      (fun x hx => hoctets x (List.mem_cons_of_mem item hx)) (data.drop (min left ENTRY_SIZE))
      (crc32Le crc (item.rawData.take (min left ENTRY_SIZE)))
    have hsplit : ((item :: items).flatMap Item.rawData).take left =
        item.rawData.take (min left ENTRY_SIZE) ++ (items.flatMap Item.rawData).take (left - min left ENTRY_SIZE) := by
      have htake : item.rawData.take (min left ENTRY_SIZE) = item.rawData.take left := by
        rw [← hlength, ← List.take_eq_take_min]
      rw [List.flatMap_cons, List.take_append, htake, hlength]
      congr 2
      unfold ENTRY_SIZE
      omega
    have hfirst : (item.rawData.take (min left ENTRY_SIZE)).length = min left ENTRY_SIZE := by
      rw [List.length_take, hlength, Nat.min_assoc, Nat.min_self]
    have htwo : ∀ ys : List UInt8, data.take (min left ENTRY_SIZE + ys.length) =
        item.rawData.take (min left ENTRY_SIZE) ++ ys ↔
          data.take (min left ENTRY_SIZE) = item.rawData.take (min left ENTRY_SIZE) ∧
            (data.drop (min left ENTRY_SIZE)).take ys.length = ys := by
      intro ys
      rw [List.take_add]
      constructor
      · intro heq
        have hlong : min left ENTRY_SIZE ≤ data.length := by
          by_contra hshort
          have hlen := congrArg List.length heq
          rw [List.length_append, List.length_append, hfirst, List.length_take, List.length_take, List.length_drop] at hlen
          omega
        exact List.append_inj heq (by rw [hfirst, List.length_take, Nat.min_eq_left hlong])
      · rintro ⟨h0, h1⟩
        rw [h0, h1]
    rw [List.length_cons, Page.cmpData, hread, hsplit, List.length_append, hfirst, htwo]
    dsimp only
    by_cases hsame : data.take (min left ENTRY_SIZE) ≠ item.rawData.take (min left ENTRY_SIZE)
    · rw [if_pos hsame]
      have hne : ESP_ERR_NVS_CONTENT_DIFFERS ≠ ESP_OK := by decide
      exact ⟨iff_of_false hne fun hand => hsame hand.1, fun hok => absurd hok hne⟩
    · have heq := not_not.mp hsame
      rw [if_neg hsame, crc32Le_append]
      exact ⟨hrest.1.trans ⟨fun hys => ⟨heq, hys⟩, And.right⟩, hrest.2⟩

end read

/-! ## Values that are read -/

section value
variable {p : Page} {vs : List Value} {v : Value} {q : Query} {data : List UInt8} {garbage : UInt32}

theorem Indexed.stored_body {indexed : List Value} (h : Indexed p vs indexed) (hv : v ∈ vs) (j : Nat) (item : Item)
    (hitem : v.body[j]? = some item) : p.readEntry (v.index + 1 + j) = some item := by
  rw [Nat.add_assoc, Nat.add_comm 1 j]
  exact h.flash.stored v hv (j + 1) item hitem

theorem Indexed.valid {indexed : List Value} (h : Indexed p vs indexed) : p.state ≠ .invalid := by
  rcases h.state with hs | hs | hs <;> rw [hs] <;> decide

/-- A value is read as its octets, and its CRC is right. -/
theorem Layout.readVariable (h : Layout p vs) (hv : v ∈ vs) (hvar : v.header.datatype.isVariableLength = true) :
    p.readVariableLengthItemData v.header v.index = (ESP_OK, p, v.content) := by
  have hfits := h.flash.fits v hv
  have hspan : v.header.span - 1 = v.body.length := by rw [hfits.span, Nat.add_sub_cancel]
  unfold Page.readVariableLengthItemData
  rw [if_neg h.valid, hspan, readData_eq (h.stored_body hv) hfits.body_octets]
  exact if_neg (not_not.mpr ((h.flash.sound v hv).checked hvar))

theorem Layout.readItem_variable (h : Layout p vs) (hv : v ∈ vs) (hvar : v.header.datatype.isVariableLength = true)
    (hq : q.datatype.isVariableLength = true) (hfound : p.findItem q 0 blankEntry = ⟨ESP_OK, p, v.index, v.header⟩)
    (dataSize : Nat) :
    p.readItem q dataSize =
      if dataSize < v.content.length then (ESP_ERR_NVS_INVALID_LENGTH, p, []) else (ESP_OK, p, v.content) := by
  unfold Page.readItem
  rw [if_neg h.valid, hfound, (h.flash.fits v hv).content_length hvar]
  simp only [ne_eq, not_true, if_false, hq, Bool.not_true, Bool.false_eq_true, h.readVariable hv hvar]

theorem Layout.readItem_primitive (h : Layout p vs) (hq : q.datatype.isVariableLength = false)
    (hfound : p.findItem q 0 blankEntry = ⟨ESP_OK, p, v.index, v.header⟩) (dataSize : Nat) :
    p.readItem q dataSize =
      if dataSize ≠ q.datatype.alignment then (ESP_ERR_NVS_TYPE_MISMATCH, p, [])
      else (ESP_OK, p, v.header.data.take dataSize) := by
  unfold Page.readItem
  rw [if_neg h.valid, hfound]
  simp only [ne_eq, not_true, if_false, hq, Bool.not_false, if_true]

/-- A value compares as equal where `data` begins with its octets; without octets the garbage decides. -/
theorem Layout.cmpItem_variable (h : Layout p vs) (hv : v ∈ vs) (hvar : v.header.datatype.isVariableLength = true)
    (hq : q.datatype.isVariableLength = true) (hfound : p.findItem q 0 blankEntry = ⟨ESP_OK, p, v.index, v.header⟩)
    (garbage : UInt32) (data : List UInt8) :
    (p.cmpItem garbage q data).2 = p ∧
      ((p.cmpItem garbage q data).1 = ESP_OK ↔
        data.take v.content.length = v.content ∧ (v.content = [] → garbage = crc32Le 0xffffffff [])) := by
  have hfits := h.flash.fits v hv
  have hchecked := (h.flash.sound v hv).checked hvar
  have hlength := hfits.content_length hvar
  have hspan : v.header.span - 1 = v.body.length := by rw [hfits.span, Nat.add_sub_cancel]
  have hcmp := @cmpData_eq p v.body (v.index + 1) v.header.dataSize (h.stored_body hv) hfits.body_octets data
    (if v.header.span - 1 = 0 then garbage else 0xffffffff)
  have hcontent : (v.body.flatMap Item.rawData).take v.header.dataSize = v.content := rfl
  have hdiffers : ESP_ERR_NVS_CONTENT_DIFFERS ≠ ESP_OK := by decide
  rw [← hspan, hcontent] at hcmp
  unfold Page.cmpItem
  rw [if_neg h.valid, hfound]
  simp only [ne_eq, not_true, if_false, hq, Bool.not_true, Bool.false_eq_true]
  by_cases hshort : data.length < v.header.dataSize
  · rw [if_pos hshort]
    refine ⟨rfl, iff_of_false (by exact (by decide : ESP_ERR_NVS_INVALID_LENGTH ≠ ESP_OK)) fun hand => ?_⟩
    have hlen := congrArg List.length hand.1
    rw [List.length_take] at hlen
    omega
  · rw [if_neg hshort]
    by_cases hcrc : crc32Le 0xffffffff (data.take v.header.dataSize) = v.header.dataCrc32
    · rw [if_neg (not_not.mpr hcrc)]
      by_cases hok : (p.cmpData (v.index + 1) (v.header.span - 1) v.header.dataSize data
          (if v.header.span - 1 = 0 then garbage else 0xffffffff)).1 = ESP_OK
      · rw [if_neg (not_not.mpr hok), hcmp.2 hok, ← hchecked]
        have htake := hcmp.1.mp hok
        by_cases hnil : v.content = []
        · rw [if_pos ((hfits.body_nil hvar).mpr hnil), hnil]
          have hempty : crc32Le garbage [] = garbage := by
            unfold crc32Le
            rw [List.foldl_nil, UInt32.not_not]
          rw [hempty]
          split_ifs with hgarbage
          · exact ⟨rfl, iff_of_true rfl ⟨rfl, fun _ => hgarbage⟩⟩
          · exact ⟨rfl, iff_of_false hdiffers fun hand => hgarbage (hand.2 rfl)⟩
        · rw [if_neg fun hzero => hnil ((hfits.body_nil hvar).mp hzero), if_neg (not_not.mpr rfl)]
          exact ⟨rfl, iff_of_true rfl ⟨htake, fun heq => absurd heq hnil⟩⟩
      · rw [if_pos hok]
        exact ⟨rfl, iff_of_false hok fun hand => hok (hcmp.1.mpr hand.1)⟩
    · rw [if_pos hcrc]
      refine ⟨rfl, iff_of_false hdiffers fun hand => hcrc ?_⟩
      rw [← hlength, hand.1, hchecked]

theorem Layout.cmpItem_primitive (h : Layout p vs) (hq : q.datatype.isVariableLength = false)
    (hfound : p.findItem q 0 blankEntry = ⟨ESP_OK, p, v.index, v.header⟩) (garbage : UInt32) (data : List UInt8) :
    (p.cmpItem garbage q data).2 = p ∧
      ((p.cmpItem garbage q data).1 = ESP_OK ↔
        data.length = q.datatype.alignment ∧ data = v.header.data.take data.length) := by
  unfold Page.cmpItem
  rw [if_neg h.valid, hfound]
  simp only [ne_eq, not_true, if_false, hq, Bool.not_false, if_true]
  split_ifs with hlength hdata
  · exact ⟨rfl, iff_of_true rfl ⟨hlength, hdata⟩⟩
  · exact ⟨rfl, iff_of_false (by exact (by decide : ESP_ERR_NVS_CONTENT_DIFFERS ≠ ESP_OK)) fun hand => hdata hand.2⟩
  · exact ⟨rfl, iff_of_false (by exact (by decide : ESP_ERR_NVS_TYPE_MISMATCH ≠ ESP_OK)) fun hand => hlength hand.1⟩

end value

end EspIdf.Nvs
