import Mathlib.Algebra.Order.Ring.Nat

/-!
# Fixed-width words as bytes

`leBytes w n` is the `w`-byte little-endian image of `n` and `ofLeBytes` its
reader; the big-endian image is the reverse. The two are inverse on words of
width `w` in one direction and on byte strings of length `w` in the other, so a
fixed-width field has exactly one spelling.
-/

namespace Reyao.Lib

/-- The `w` low bytes of `n`, least significant first. -/
def leBytes : Nat → Nat → List UInt8
  | 0, _ => []
  | w + 1, n => UInt8.ofNat n :: leBytes w (n / 256)

/-- The number a little-endian byte string denotes. -/
def ofLeBytes : List UInt8 → Nat
  | [] => 0
  | b :: bs => b.toNat + 256 * ofLeBytes bs

/-- The word of width `w` with its bytes in the opposite order. -/
def swapBytes (w n : Nat) : Nat :=
  ofLeBytes (leBytes w n).reverse

@[simp] theorem length_leBytes (w n : Nat) : (leBytes w n).length = w := by
  induction w generalizing n with
  | zero => rfl
  | succ w ih => rw [leBytes, List.length_cons, ih]

theorem ofLeBytes_leBytes (w n : Nat) : ofLeBytes (leBytes w n) = n % 256 ^ w := by
  induction w generalizing n with
  | zero => rw [leBytes, ofLeBytes, Nat.pow_zero, Nat.mod_one]
  | succ w ih =>
      have split : n % 256 ^ (w + 1) = n % 256 + 256 * (n / 256 % 256 ^ w) := by
        rw [Nat.pow_succ', Nat.mod_mul]
      rw [leBytes, ofLeBytes, ih, UInt8.toNat_ofNat', split]

theorem leBytes_ofLeBytes (bs : List UInt8) : leBytes bs.length (ofLeBytes bs) = bs := by
  induction bs with
  | nil => rfl
  | cons b bs ih =>
      have byte : b.toNat < 256 := b.toNat_lt
      have head : UInt8.ofNat (b.toNat + 256 * ofLeBytes bs) = b := by
        apply UInt8.toNat_inj.mp
        rw [UInt8.toNat_ofNat']
        omega
      have tail : (b.toNat + 256 * ofLeBytes bs) / 256 = ofLeBytes bs := by omega
      rw [List.length_cons, ofLeBytes, leBytes, head, tail, ih]

theorem ofLeBytes_lt (bs : List UInt8) : ofLeBytes bs < 256 ^ bs.length := by
  induction bs with
  | nil => exact Nat.one_pos
  | cons b bs ih =>
      have byte : b.toNat < 256 := b.toNat_lt
      rw [ofLeBytes, List.length_cons, Nat.pow_succ']
      omega

theorem leBytes_swapBytes (w n : Nat) : leBytes w (swapBytes w n) = (leBytes w n).reverse := by
  have width : (leBytes w n).reverse.length = w := by rw [List.length_reverse, length_leBytes]
  have image := leBytes_ofLeBytes (leBytes w n).reverse
  rwa [width] at image

end Reyao.Lib
