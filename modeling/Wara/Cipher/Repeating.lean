import Mathlib.Data.List.GetD

/-!
# Xor with a repeating key

Every byte is xored with the byte of the key at its index, the key starting over
at its end. Doing it twice gives the bytes back; and a known text that is at
least as long as the key gives the key away.
-/

namespace Cipher

def xorRepeating (key bs : List UInt8) : List UInt8 :=
  bs.mapIdx fun i b => b ^^^ key.getD (i % key.length) 0

variable {key bs : List UInt8}

@[simp] theorem length_xorRepeating : (xorRepeating key bs).length = bs.length :=
  List.length_mapIdx

@[simp] theorem xorRepeating_xorRepeating : xorRepeating key (xorRepeating key bs) = bs := by
  unfold xorRepeating
  rw [List.mapIdx_mapIdx]
  refine List.ext_getElem List.length_mapIdx fun i h₁ h₂ => ?_
  rw [List.getElem_mapIdx, Function.comp_apply, UInt8.xor_assoc, UInt8.xor_self, UInt8.xor_zero]

/-- The first `n` bytes of the key stream, from a text and what it was turned into. -/
def recoverKey (n : Nat) (text cipher : List UInt8) : List UInt8 :=
  (List.zipWith (· ^^^ ·) text cipher).take n

/-- **A known text gives the key away.** -/
theorem recoverKey_eq (h : key.length ≤ bs.length) :
    recoverKey key.length bs (xorRepeating key bs) = key := by
  have hlength : (recoverKey key.length bs (xorRepeating key bs)).length = key.length := by
    simp only [recoverKey, List.length_take, List.length_zipWith, length_xorRepeating]
    omega
  refine List.ext_getElem hlength fun i h₁ h₂ => ?_
  simp only [recoverKey, xorRepeating, List.getElem_take, List.getElem_zipWith,
    List.getElem_mapIdx, Nat.mod_eq_of_lt h₂]
  rw [← UInt8.xor_assoc, UInt8.xor_self, UInt8.zero_xor, List.getD_eq_getElem _ _ h₂]

end Cipher
