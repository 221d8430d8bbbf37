import Mathlib.Data.List.Sort

/-! When a list that is sorted by one relation is in order by another. -/
namespace SortedBy

open List

variable {α : Type*} {r e : α → α → Prop} [DecidableRel r] {l : List α}

end SortedBy
