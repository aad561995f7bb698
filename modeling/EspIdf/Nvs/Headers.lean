import EspIdf.Nvs.Page

/-!
# NVS: the headers that are written

* `Item.assembled` : a header from its fields, and the fields of that;
* `sealed_eq` : what `writeItem` puts together is one;
* `consistent_primitive`, `consistent_varLength`, `consistent_blobIdx` : it is valid where it is written.
-/

namespace EspIdf.Nvs

open Word32 Crc32

namespace Item

/-- A header from its fields: the code of its type, the field of the key and that of the data. -/
def assembled (nsIndex code span chunkIndex : UInt8) (crc : UInt32) (key data : List UInt8) : Item :=
  ⟨[nsIndex, code, span, chunkIndex] ++ leBytes crc ++ (key ++ data)⟩

section assembled
variable {nsIndex code span chunkIndex : UInt8} {crc : UInt32} {key data : List UInt8}

@[simp] theorem assembled_nsIndex : (assembled nsIndex code span chunkIndex crc key data).nsIndex = nsIndex := rfl

@[simp] theorem assembled_datatype : (assembled nsIndex code span chunkIndex crc key data).datatype = .ofCode code := rfl

@[simp] theorem assembled_span : (assembled nsIndex code span chunkIndex crc key data).span = span.toNat := rfl

@[simp] theorem assembled_chunkIndex :
    (assembled nsIndex code span chunkIndex crc key data).chunkIndex = chunkIndex := rfl

@[simp] theorem assembled_crc32 : (assembled nsIndex code span chunkIndex crc key data).crc32 = crc := leWord_leBytes crc

theorem assembled_key (hkey : key.length = 16) : (assembled nsIndex code span chunkIndex crc key data).key = key :=
  List.take_left' hkey

theorem assembled_octet (hkey : key.length = 16) (j : Nat) :
    (assembled nsIndex code span chunkIndex crc key data).octet (24 + j) = data.getD j 0 := by
  change ([nsIndex, code, span, chunkIndex] ++ leBytes crc ++ (key ++ data)).getD (24 + j) 0 = data.getD j 0
  have hpre : ([nsIndex, code, span, chunkIndex] ++ leBytes crc ++ key).length = 24 := by
    simp [hkey]
  rw [← List.append_assoc, List.getD_append_right _ _ _ _ (by omega), hpre, Nat.add_sub_cancel_left]

theorem assembled_data (hkey : key.length = 16) (hdata : data.length = 8) :
    (assembled nsIndex code span chunkIndex crc key data).data = data := by
  change ((key ++ data).drop 16).take 8 = data
  rw [List.drop_left' hkey, List.take_of_length_le (Nat.le_of_eq hdata)]

theorem assembled_length (hkey : key.length = 16) (hdata : data.length = 8) :
    (assembled nsIndex code span chunkIndex crc key data).rawData.length = ENTRY_SIZE := by
  change ([nsIndex, code, span, chunkIndex] ++ leBytes crc ++ (key ++ data)).length = ENTRY_SIZE
  simp [hkey, hdata, ENTRY_SIZE]

theorem assembled_calculateCrc32 (hkey : key.length = 16) (hdata : data.length = 8) :
    (assembled nsIndex code span chunkIndex crc key data).calculateCrc32 =
      crc32Le (crc32Le (crc32Le 0xffffffff [nsIndex, code, span, chunkIndex]) key) data := by
  unfold calculateCrc32
  rw [assembled_key hkey, assembled_data hkey hdata]
  rfl

end assembled

variable {nsIndex chunkIdx : UInt8} {datatype : ItemType} {span : Nat} {key : CString} {data : List UInt8}

theorem keyField_length : (keyField key).length = 16 := by
  unfold keyField
  have hle : (key.chars.take MAX_KEY_LENGTH).length ≤ 15 := List.length_take_le _ _
  rw [List.length_append, List.length_replicate]
  omega

/-- The field of the data, filled up. -/
def dataField (data : List UInt8) : List UInt8 := data ++ List.replicate (8 - data.length) 0xff

theorem dataField_length (h : data.length ≤ 8) : (dataField data).length = 8 := by
  unfold dataField
  rw [List.length_append, List.length_replicate]
  omega

theorem dataField_of_length (h : data.length = 8) : dataField data = data := by
  unfold dataField
  rw [h]
  exact List.append_nil _

theorem withData_eq : (new nsIndex datatype span key chunkIdx).withData data =
    assembled nsIndex datatype.code (.ofNat span) chunkIdx 0 (keyField key) (dataField data) := by
  have hpre : ([nsIndex, datatype.code, .ofNat span, chunkIdx] ++ List.replicate 4 0 ++ keyField key).length = 24 := by
    simp [keyField_length]
  have hraw : (new nsIndex datatype span key chunkIdx).rawData =
      [nsIndex, datatype.code, .ofNat span, chunkIdx] ++ List.replicate 4 0 ++ keyField key ++
        List.replicate 8 0xff := rfl
  have hzero : leBytes 0 = List.replicate 4 0 := by decide
  unfold withData assembled dataField
  rw [hraw, List.take_left' hpre, ← List.drop_drop, List.drop_left' hpre, List.drop_replicate, hzero]
  simp only [List.append_assoc]

theorem assembled_sealed {code span' : UInt8} {crc : UInt32} {field value : List UInt8} (hfield : field.length = 16)
    (hvalue : value.length = 8) :
    (assembled nsIndex code span' chunkIdx crc field value).sealed =
      assembled nsIndex code span' chunkIdx
        (crc32Le (crc32Le (crc32Le 0xffffffff [nsIndex, code, span', chunkIdx]) field) value) field value := by
  unfold sealed
  rw [assembled_calculateCrc32 hfield hvalue]
  rfl

/-- What `writeItem` puts together. -/
theorem sealed_eq (h : data.length ≤ 8) : ((new nsIndex datatype span key chunkIdx).withData data).sealed =
    assembled nsIndex datatype.code (.ofNat span) chunkIdx
      (crc32Le (crc32Le (crc32Le 0xffffffff [nsIndex, datatype.code, .ofNat span, chunkIdx]) (keyField key))
        (dataField data)) (keyField key) (dataField data) := by
  rw [withData_eq, assembled_sealed keyField_length (dataField_length h)]

/-- The CRC of a header that is written is right. -/
theorem sealed_crc32 (h : data.length ≤ 8) :
    ((new nsIndex datatype span key chunkIdx).withData data).sealed.crc32 =
      ((new nsIndex datatype span key chunkIdx).withData data).sealed.calculateCrc32 := by
  rw [sealed_eq h, assembled_crc32, assembled_calculateCrc32 keyField_length (dataField_length h)]

theorem sealed_length (h : data.length ≤ 8) :
    ((new nsIndex datatype span key chunkIdx).withData data).sealed.rawData.length = ENTRY_SIZE := by
  rw [sealed_eq h, assembled_length keyField_length (dataField_length h)]

theorem sealed_datatype (h : data.length ≤ 8) (htype : datatype ∈ ItemType.all) :
    ((new nsIndex datatype span key chunkIdx).withData data).sealed.datatype = datatype := by
  rw [sealed_eq h, assembled_datatype, ItemType.ofCode_code htype]

theorem sealed_span (h : data.length ≤ 8) (hspan : span < 2 ^ 8) :
    ((new nsIndex datatype span key chunkIdx).withData data).sealed.span = span := by
  rw [sealed_eq h, assembled_span, UInt8.toNat_ofNat', Nat.mod_eq_of_lt hspan]

theorem sealed_chunkIndex (h : data.length ≤ 8) :
    ((new nsIndex datatype span key chunkIdx).withData data).sealed.chunkIndex = chunkIdx := by
  rw [sealed_eq h, assembled_chunkIndex]

theorem sealed_nsIndex (h : data.length ≤ 8) :
    ((new nsIndex datatype span key chunkIdx).withData data).sealed.nsIndex = nsIndex := by
  rw [sealed_eq h, assembled_nsIndex]

theorem sealed_key (h : data.length ≤ 8) :
    ((new nsIndex datatype span key chunkIdx).withData data).sealed.key = keyField key := by
  rw [sealed_eq h, assembled_key keyField_length]

theorem sealed_octet (h : data.length ≤ 8) (j : Nat) :
    ((new nsIndex datatype span key chunkIdx).withData data).sealed.octet (24 + j) = (dataField data).getD j 0 := by
  rw [sealed_eq h, assembled_octet keyField_length]

/-- The hash of a value depends on its namespace, its key and its chunk. -/
theorem hash24_sealed (h : data.length ≤ 8) (datatype' : ItemType) (span' : Nat) :
    hash24 ((new nsIndex datatype span key chunkIdx).withData data).sealed =
      hash24 (new nsIndex datatype' span' key chunkIdx) := by
  have hkey : (new nsIndex datatype' span' key chunkIdx).key = keyField key := by
    change ((keyField key ++ List.replicate 8 0xff)).take 16 = keyField key
    exact List.take_left' keyField_length
  unfold hash24 calculateCrc32WithoutValue
  rw [sealed_nsIndex h, sealed_key h, sealed_chunkIndex h, hkey]
  rfl

/-! ## Valid headers -/

theorem varLengthData_length : (varLengthData data).length = 8 := rfl

theorem blobIndexData_length {dataSize : Nat} {chunkCount chunkStart : UInt8} :
    (blobIndexData dataSize chunkCount chunkStart).length = 8 := rfl

theorem varLength_dataSize (h : data.length < 2 ^ 16) :
    ((new nsIndex datatype span key chunkIdx).withData (varLengthData data)).sealed.dataSize = data.length := by
  unfold dataSize
  have hoctet := @sealed_octet nsIndex chunkIdx datatype span key _ (Nat.le_of_eq (@varLengthData_length data))
  rw [hoctet 0, hoctet 1, dataField_of_length varLengthData_length]
  change (UInt8.ofNat data.length).toNat + 2 ^ 8 * (UInt8.ofNat (data.length / 2 ^ 8)).toNat = data.length
  rw [UInt8.toNat_ofNat', UInt8.toNat_ofNat']
  omega

theorem varLength_dataCrc32 :
    ((new nsIndex datatype span key chunkIdx).withData (varLengthData data)).sealed.dataCrc32 =
      crc32Le 0xffffffff data := by
  have hoctet := @sealed_octet nsIndex chunkIdx datatype span key _ (Nat.le_of_eq (@varLengthData_length data))
  rw [dataField_of_length varLengthData_length] at hoctet
  unfold dataCrc32 wordAt
  rw [hoctet 4, hoctet 5, hoctet 6, hoctet 7]
  exact leWord_leBytes _

section index
variable {dataSize : Nat} {chunkCount chunkStart : UInt8}

theorem index_octet (j : Nat) :
    ((new nsIndex datatype span key chunkIdx).withData (blobIndexData dataSize chunkCount chunkStart)).sealed.octet
      (24 + j) = (blobIndexData dataSize chunkCount chunkStart).getD j 0 := by
  rw [sealed_octet (Nat.le_of_eq blobIndexData_length), dataField_of_length blobIndexData_length]

theorem index_dataSize (h : dataSize < 2 ^ 32) :
    ((new nsIndex datatype span key chunkIdx).withData
      (blobIndexData dataSize chunkCount chunkStart)).sealed.blobDataSize = dataSize := by
  unfold blobDataSize wordAt
  rw [index_octet 0, index_octet 1, index_octet 2, index_octet 3]
  have hword : leWord ((blobIndexData dataSize chunkCount chunkStart).getD 0 0)
      ((blobIndexData dataSize chunkCount chunkStart).getD 1 0)
      ((blobIndexData dataSize chunkCount chunkStart).getD 2 0)
      ((blobIndexData dataSize chunkCount chunkStart).getD 3 0) = .ofNat dataSize := leWord_leBytes _
  rw [hword, toNat_ofNat_of_lt h]

end index

section consistent
variable {i : Nat}

theorem consistent_primitive (h : data.length ≤ 8) (htype : datatype ∈ ItemType.primitive) :
    ((new nsIndex datatype 1 key chunkIdx).withData data).sealed.checkHeaderConsistency i = true := by
  have hall : datatype ∈ ItemType.all := by
    revert datatype
    decide
  unfold checkHeaderConsistency
  rw [if_neg (not_not.mpr (sealed_crc32 h)), sealed_datatype h hall, if_pos htype, sealed_span h (by decide)]
  rfl

theorem consistent_varLength (htype : datatype = .sz ∨ datatype = .blobData ∧ chunkIdx ≠ CHUNK_ANY)
    (hfit : i + (1 + (data.length + ENTRY_SIZE - 1) / ENTRY_SIZE) ≤ ENTRY_COUNT) :
    ((new nsIndex datatype (1 + (data.length + ENTRY_SIZE - 1) / ENTRY_SIZE) key chunkIdx).withData
      (varLengthData data)).sealed.checkHeaderConsistency i = true := by
  have hlen := Nat.le_of_eq (@varLengthData_length data)
  have hall : datatype ∈ ItemType.all := by
    rcases htype with rfl | ⟨rfl, -⟩ <;> decide
  have hprim : datatype ∉ ItemType.primitive := by
    rcases htype with rfl | ⟨rfl, -⟩ <;> decide
  have hindex : datatype ≠ .blobIdx := by
    rcases htype with rfl | ⟨rfl, -⟩ <;> decide
  have hvar : datatype.isVariableLength = true := by
    rcases htype with rfl | ⟨rfl, -⟩ <;> decide
  have hchunk : ¬(datatype = .blobData ∧ chunkIdx = CHUNK_ANY) := by
    rcases htype with rfl | ⟨-, hne⟩
    · simp
    · exact fun hand => hne hand.2
  unfold ENTRY_SIZE ENTRY_COUNT at hfit
  unfold checkHeaderConsistency
  rw [if_neg (not_not.mpr (sealed_crc32 hlen)), sealed_datatype hlen hall, if_neg hprim, if_neg hindex, if_pos hvar,
    sealed_chunkIndex hlen, if_neg hchunk, varLength_dataSize (by omega),
    sealed_span hlen (by unfold ENTRY_SIZE; omega)]
  unfold ENTRY_SIZE ENTRY_COUNT
  rw [if_neg (by omega), if_neg (by omega)]
  simp only [decide_eq_true_eq]
  omega

theorem consistent_blobIdx {dataSize : Nat} {chunkCount chunkStart : UInt8}
    (hsize : dataSize ≤ 255 / 2 * (ENTRY_COUNT - 1) * ENTRY_SIZE) :
    ((new nsIndex .blobIdx 1 key CHUNK_ANY).withData
      (blobIndexData dataSize chunkCount chunkStart)).sealed.checkHeaderConsistency i = true := by
  have hlen := Nat.le_of_eq (@blobIndexData_length dataSize chunkCount chunkStart)
  have hword : dataSize < 2 ^ 32 := Nat.lt_of_le_of_lt hsize (by decide)
  unfold checkHeaderConsistency
  rw [if_neg (not_not.mpr (sealed_crc32 hlen)), sealed_datatype hlen (by decide), if_neg (by decide), if_pos rfl,
    sealed_span hlen (by decide), if_neg (by decide), sealed_chunkIndex hlen, if_neg (by decide), index_dataSize hword]
  exact decide_eq_true hsize

end consistent

/-- A valid header stays one on an entry before. -/
theorem consistent_earlier {item : Item} {i j : Nat} (h : item.checkHeaderConsistency i = true) (hji : j ≤ i) :
    item.checkHeaderConsistency j = true := by
  unfold checkHeaderConsistency at h ⊢
  by_cases hcrc : item.crc32 ≠ item.calculateCrc32
  · rw [if_pos hcrc] at h
    cases h
  rw [if_neg hcrc] at h ⊢
  by_cases hprim : item.datatype ∈ ItemType.primitive
  · rwa [if_pos hprim] at h ⊢
  rw [if_neg hprim] at h ⊢
  by_cases hindex : item.datatype = .blobIdx
  · rwa [if_pos hindex] at h ⊢
  rw [if_neg hindex] at h ⊢
  by_cases hvar : item.datatype.isVariableLength
  · rw [if_pos hvar] at h ⊢
    split_ifs at h with hchunk hsize hspan
    unfold ENTRY_SIZE ENTRY_COUNT at hsize hspan ⊢
    rw [if_neg hchunk, if_neg (by omega), if_neg (by omega)]
    exact h
  · rwa [if_neg hvar] at h ⊢

theorem consistent_span {item : Item} {i : Nat} (h : item.checkHeaderConsistency i = true) : 0 < item.span := by
  unfold checkHeaderConsistency at h
  split_ifs at h with h1 h2 h3 h4 h5 h6 h7 h8 h9
  · exact Nat.lt_of_lt_of_eq Nat.one_pos (of_decide_eq_true h).symm
  · exact Nat.lt_of_lt_of_eq Nat.one_pos (not_not.mp h4).symm
  · have hspan := of_decide_eq_true h
    unfold ENTRY_SIZE ENTRY_COUNT at *
    omega

end Item

theorem blankEntry_inconsistent (i : Nat) : blankEntry.checkHeaderConsistency i = false := by
  have hcrc : blankEntry.crc32 ≠ blankEntry.calculateCrc32 := by decide +kernel
  exact if_pos hcrc

end EspIdf.Nvs
