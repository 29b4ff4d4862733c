import Mathlib.Data.Int.Basic
import Mathlib.Data.List.Basic

/- The places that a bisection passes. It has the bounds of an interval of places, both included,
   and goes on to the right or to the left of the middle one. -/
namespace Gxemul.Lib

/-- The places, in their order. -/
def passes (right : Nat → Bool) : Nat → Int → Int → List Nat
  | 0, _, _ => []
  | fuel + 1, lo, hi =>
    if lo ≤ hi then
      let i := ((lo + hi) / 2).toNat
      i :: if right i then passes right fuel (i + 1) hi else passes right fuel lo (i - 1)
    else []

/-- The middle of an interval is in it. -/
theorem middle_mem {lo hi : Int} (hlo : 0 ≤ lo) (hle : lo ≤ hi) :
    (((lo + hi) / 2).toNat : Int) = (lo + hi) / 2 ∧ lo ≤ (lo + hi) / 2 ∧ (lo + hi) / 2 ≤ hi := by
  omega

end Gxemul.Lib
