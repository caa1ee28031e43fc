/-!
# Frame sizes
-/

namespace Playout

structure Size where
  width : UInt32
  height : UInt32
deriving DecidableEq

namespace Size

def isEmpty (s : Size) : Bool := s.width == 0 || s.height == 0

def text (s : Size) : String := toString s.width.toNat ++ "x" ++ toString s.height.toNat

theorem isEmpty_eq_false_iff {s : Size} :
    s.isEmpty = false ↔ 0 < s.width.toNat ∧ 0 < s.height.toNat := by
  simp only [isEmpty, Bool.or_eq_false_iff, beq_eq_false_iff_ne, ne_eq, ← UInt32.toNat_inj,
    UInt32.toNat_zero]
  omega

end Size

end Playout
