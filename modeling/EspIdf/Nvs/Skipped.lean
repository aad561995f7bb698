import EspIdf.Nvs.Runs

/-!
# NVS: writes that are skipped

* `writeItem_skips_iff` : a write is skipped where the value is stored, apart from blobs with a chunk that does not agree
  with the beginning of the new value;
* `equal_blob_is_rewritten` : a blob of two chunks that is written anew although it is equal.
-/

namespace EspIdf.Nvs.Storage

/-- The comparison is equal exactly where the value is read, if and only if each chunk of a blob that is equal has the CRC of
what the new value begins with, and is not empty unless the garbage is its CRC. -/
theorem writeItem_skips_iff {n : Nat} {s : Storage} (h : Reachable n s) {datatype : ItemType} {data : List UInt8}
    (hvalue : IsValue datatype data) (garbage : UInt32) (nsIndex : UInt8) (key : CString) (purge : Bool) :
    ((((isStored garbage s nsIndex datatype key data).1 = true ↔
          (s.readItem nsIndex datatype key data.length).1 = ESP_OK ∧
            (s.readItem nsIndex datatype key data.length).2.2 = data) ↔
        (datatype = .blob → ∀ chunks, s.storedBlob nsIndex key = some chunks → chunks.flatten = data →
          ∀ chunk ∈ chunks, Agrees garbage data chunk))) ∧
      ((isStored garbage s nsIndex datatype key data).1 = true →
        writeItem garbage s nsIndex datatype key data purge = (ESP_OK, s)) := by
  have hkept := h.intact
  obtain ⟨hstorage, hstored⟩ := @isStored_spec s nsIndex key datatype data garbage hkept.sound hkept.active hvalue
  refine ⟨?_, fun htrue => ?_⟩
  · rw [hstored]
    refine ⟨fun hiff hblob chunks hchunks hdata => ?_, fun hagrees => ⟨And.left, fun hread => ⟨hread, hagrees⟩⟩⟩
    subst hblob
    have hread := (readItem_blob hkept.sound hkept.active data.length).1.mpr
      ((readMultiPageBlob_spec hkept.sound data.length data).1.mpr ⟨rfl, chunks, hchunks, hdata⟩)
    exact (hiff.mpr hread).2 rfl chunks hchunks hdata
  · unfold writeItem
    rw [hkept.active]
    dsimp only
    rw [if_neg (by simp), if_pos htrue, hstorage]

/-! ## A blob that is written anew -/

theorem singleton_nonzero {c : UInt8} (hc : c ≠ 0) : ∀ d ∈ [c], d ≠ 0 := fun _ hd => List.mem_singleton.mp hd ▸ hc

def fillKey : CString := ⟨[97], singleton_nonzero (by decide)⟩

def cutKey : CString := ⟨[98], singleton_nonzero (by decide)⟩

/-- A text that takes 111 entries of a page with its header. -/
def fillText : List UInt8 := List.replicate 3488 1 ++ [0]

/-- A blob with one octet more than there is room for behind that text. -/
def cutData : List UInt8 := 1 :: List.replicate 448 0

def started : Storage := (Storage.init (List.replicate 3 .erased)).2

def filled : Storage := (Op.perform started (.writeItem 0 1 .sz fillKey fillText true)).2

def cut : Storage := (Op.perform filled (.writeItem 0 1 .blob cutKey cutData true)).2

theorem fillText_text : IsText fillText :=
  ⟨List.replicate 3488 1, fun c hc => by rw [List.eq_of_mem_replicate hc]; decide, rfl⟩

set_option maxRecDepth 100000 in
theorem started_reachable : Reachable 3 started := .init (Prod.ext (by decide +kernel) rfl)

set_option maxRecDepth 100000 in
theorem filled_reachable : Reachable 3 filled :=
  started_reachable.perform (.writeItem 0 1 .sz fillKey fillText true) (IsValue.text fillText_text) nofun nofun
    (by decide +kernel)

set_option maxRecDepth 100000 in
theorem cut_run : cut.manager.seqNumber < 2 ^ 32 ∧ (isStored 0 cut 1 .blob cutKey cutData).1 = false ∧
    (cut.readItem 1 .blob cutKey cutData.length).1 = ESP_OK ∧ (cut.readItem 1 .blob cutKey cutData.length).2.2 = cutData := by
  decide +kernel

theorem cut_reachable : Reachable 3 cut := by
  have hlength : filled.manager.pages.length = 3 := filled_reachable.intact.length
  have hroom : filled.manager.roomy.card ≤ 127 := by
    refine Nat.le_trans PageManager.roomy_card_le ?_
    rw [hlength]
    decide
  have hnumber := cut_run.1
  unfold cut at hnumber ⊢
  exact filled_reachable.perform (.writeItem 0 1 .blob cutKey cutData true) (IsValue.blob cutData) (fun _ => hroom) nofun
    hnumber

theorem writeItem_skips_cut : ((isStored 0 cut 1 .blob cutKey cutData).1 = true ↔
      (cut.readItem 1 .blob cutKey cutData.length).1 = ESP_OK ∧ (cut.readItem 1 .blob cutKey cutData.length).2.2 = cutData) ↔
    (ItemType.blob = .blob → ∀ chunks, cut.storedBlob 1 cutKey = some chunks → chunks.flatten = cutData →
      ∀ chunk ∈ chunks, Agrees 0 cutData chunk) :=
  (writeItem_skips_iff cut_reachable (.blob cutData) 0 1 cutKey true).1

/-- A blob of two chunks is read as it was written, and compares as different. -/
theorem equal_blob_is_rewritten : ∃ s, Reachable 3 s ∧ ∃ data key, IsValue .blob data ∧
    ¬((isStored 0 s 1 .blob key data).1 = true ↔
      (s.readItem 1 .blob key data.length).1 = ESP_OK ∧ (s.readItem 1 .blob key data.length).2.2 = data) := by
  refine ⟨cut, cut_reachable, cutData, cutKey, .blob cutData, fun hiff => ?_⟩
  have hstored := hiff.mpr cut_run.2.2
  rw [cut_run.2.1] at hstored
  exact Bool.false_ne_true hstored

end EspIdf.Nvs.Storage
