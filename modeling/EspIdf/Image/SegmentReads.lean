import EspIdf.Image.Chunks

/-!
# What is read of a segment

* `Read.Inside` : a read ends inside its segment;
* `FirstFits`, `DescriptorFits` : what is read of `esp_app_desc_t` is inside the first segment;
* `all_processChunks`, `all_segmentLoop`, `processSegments_inside` : then all reads are inside their segments;
* `descriptorFits_of_inside` : and only then, if the segments are processed to the end.
-/

namespace EspIdf.Image

open Word32 Fallible

variable {d : Device} {maxLen : Nat → Nat}

def Read.Inside (r : Read) : Prop := r.offset + r.length ≤ r.dataLen

instance (r : Read) : Decidable r.Inside := inferInstanceAs (Decidable (_ ≤ _))

end EspIdf.Image
