import QioParquet.Page.StoredPages
import Mathlib.Tactic

/-!
# A format of pages

A page format without a codec. The fields of a header have fixed places, and the statistics
behind them are as long as the smallest and the largest value of the page. It reads back what
it stores.
-/

namespace QioParquet
namespace Page

open Lib Read

section Skipping

/-- Bytes of which each is announced, and a zero at the end. -/
def announced : Bytes → Bytes
  | [] => [0]
  | byte :: rest => 1 :: byte :: announced rest

end Skipping

section Headers

end Headers

end Page
end QioParquet
