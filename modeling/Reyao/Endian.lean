import Reyao.Cxx
import Reyao.Lib.ByteWords

/-!
# Byte order (`endian.h`)

Integers of `w` bytes are natural numbers below `256 ^ w`, signed ones through
their two's complement pattern. `ByteOrder.store` is the memory image of an
integer on a host of the given order, `ByteOrder.load` its reader.
-/

namespace Reyao

open Lib

/-- The byte order of a host, or of the data in a `ByteArray`. -/
inductive ByteOrder : Type
  | little
  | big
  deriving DecidableEq, Repr

def ByteOrder.other : ByteOrder → ByteOrder
  | .little => .big
  | .big => .little

/-- The preprocessor's `BYTE_ORDER` on a host. -/
def ByteOrder.macroValue : ByteOrder → Nat
  | .little => 1234
  | .big => 4321

/-- `BIG_ORDER` is defined nowhere, so `#if` reads it as zero. -/
def bigOrder : Nat := 0

/-- The bytes of a `w`-byte integer in memory. -/
def ByteOrder.store (host : ByteOrder) (w n : Nat) : Bytes :=
  match host with
  | .little => leBytes w n
  | .big => (leBytes w n).reverse

/-- The integer whose bytes in memory are `bs`. -/
def ByteOrder.load (host : ByteOrder) (bs : Bytes) : Nat :=
  match host with
  | .little => ofLeBytes bs
  | .big => ofLeBytes bs.reverse

/-- `byteSwap` on an integer of `w` bytes. -/
def byteSwap (w n : Nat) : Nat := swapBytes w n

/-- `byteSwapOnLittleEndian`, as the `#if BYTE_ORDER == BIG_ORDER` in the header
selects it. -/
def byteSwapOnLittleEndian (host : ByteOrder) (w n : Nat) : Nat :=
  if host.macroValue = bigOrder then n else byteSwap w n

/-- `byteSwapOnBigEndian`, selected by the same test. -/
def byteSwapOnBigEndian (host : ByteOrder) (w n : Nat) : Nat :=
  if host.macroValue = bigOrder then byteSwap w n else n

/-- The two's complement pattern of a `w`-byte signed integer. -/
def pattern (w : Nat) (i : Int) : Nat := (i % (256 ^ w : Nat)).toNat

/-- The signed integer of a `w`-byte pattern. -/
def signed (w n : Nat) : Int := (n : Int).bmod (256 ^ w)

@[simp] theorem ByteOrder.length_store (host : ByteOrder) (w n : Nat) :
    (host.store w n).length = w := by
  cases host
  · exact length_leBytes w n
  · rw [store, List.length_reverse, length_leBytes]

theorem ByteOrder.load_store (host : ByteOrder) (w n : Nat) :
    host.load (host.store w n) = n % 256 ^ w := by
  cases host
  · exact ofLeBytes_leBytes w n
  · rw [store, load, List.reverse_reverse, ofLeBytes_leBytes]

theorem ByteOrder.load_lt (host : ByteOrder) (bs : Bytes) : host.load bs < 256 ^ bs.length := by
  cases host
  · exact ofLeBytes_lt bs
  · rw [load, ← List.length_reverse]
    exact ofLeBytes_lt bs.reverse

theorem ByteOrder.store_load {host : ByteOrder} {w : Nat} {bs : Bytes} (width : bs.length = w) :
    host.store w (host.load bs) = bs := by
  subst width
  cases host
  · exact leBytes_ofLeBytes bs
  · rw [store, load, ← List.length_reverse, leBytes_ofLeBytes, List.reverse_reverse]

/-- Storing a swapped integer stores the bytes of the other order. -/
theorem ByteOrder.store_byteSwap (host : ByteOrder) (w n : Nat) :
    host.store w (byteSwap w n) = (host.store w n).reverse := by
  cases host
  · exact leBytes_swapBytes w n
  · rw [store, store, byteSwap, leBytes_swapBytes]

theorem ByteOrder.store_swap_of_ne {order host : ByteOrder} (ne : order ≠ host) (w n : Nat) :
    host.store w (byteSwap w n) = order.store w n := by
  rw [store_byteSwap]
  cases order <;> cases host
  · exact absurd rfl ne
  · rw [store, store, List.reverse_reverse]
  · rfl
  · exact absurd rfl ne

theorem ByteOrder.other_ne (order : ByteOrder) : order.other ≠ order := by
  cases order <;> decide

/-- `BYTE_ORDER` is zero on no host, so each takes the `#else` branch. -/
theorem byteSwapOnLittleEndian_eq (host : ByteOrder) (w n : Nat) :
    byteSwapOnLittleEndian host w n = byteSwap w n := by
  cases host <;> exact if_neg (by decide)

/-- What is stored after `byteSwapOnLittleEndian` is in the order that is not the
host's. -/
theorem ByteOrder.store_byteSwapOnLittleEndian (host : ByteOrder) (w n : Nat) :
    host.store w (byteSwapOnLittleEndian host w n) = host.other.store w n := by
  rw [byteSwapOnLittleEndian_eq, store_swap_of_ne host.other_ne]

/-- Swapping exactly when the orders differ stores in the wanted order on every
host. -/
theorem ByteOrder.store_in_order (order host : ByteOrder) (w n : Nat) :
    host.store w (if order ≠ host then byteSwap w n else n) = order.store w n := by
  by_cases eq : order = host
  · rw [if_neg (not_not_intro eq), eq]
  · rw [if_pos eq, store_swap_of_ne eq]

/-- Swapping exactly when the orders differ loads in the wanted order on every
host. -/
theorem ByteOrder.load_in_order (order host : ByteOrder) {w : Nat} {bs : Bytes}
    (width : bs.length = w) :
    (if order ≠ host then byteSwap w (host.load bs) else host.load bs) = order.load bs := by
  by_cases eq : order = host
  · rw [if_neg (not_not_intro eq), eq]
  · rw [if_pos eq, byteSwap, swapBytes]
    cases order <;> cases host
    · exact absurd rfl eq
    · rw [load, load, ← width, ← List.length_reverse, leBytes_ofLeBytes, List.reverse_reverse]
    · rw [load, load, ← width, leBytes_ofLeBytes]
    · exact absurd rfl eq

theorem pattern_natCast {w k : Nat} (small : k < 256 ^ w) : pattern w (k : Int) = k := by
  rw [pattern, ← Int.natCast_mod, Int.toNat_natCast, Nat.mod_eq_of_lt small]

theorem signed_of_lt {n : Nat} (small : n < 2 ^ 31) : signed 4 n = n := by
  rw [signed, Int.bmod_def]
  omega

/-- A non-negative `int32_t` has the pattern it was read from. -/
theorem eq_of_signed_eq {n k : Nat} (word : n < 256 ^ 4) (value : signed 4 n = k) : n = k := by
  rw [signed, Int.bmod_def] at value
  omega

end Reyao
