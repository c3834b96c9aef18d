import Mathlib.Data.List.TakeWhile
import Mathlib.Data.Nat.Digits.Lemmas
import Mathlib.Tactic.IntervalCases

/-!
# C++ conventions of the model

The pieces of the language and its standard library that the modelled code
leans on: how a call can leave other than by returning, the conversions between
`int` and `size_t`, C strings compared without case, and `std::stoi`.

A `std::string` or a character range is a list of bytes. A position or a size
is a natural number: no object of the program reaches `2^64` bytes, so the only
places where `size_t` arithmetic can wrap are a difference that goes below zero
and a sum with a converted negative `int`, and those wrap explicitly here.
-/

namespace Reyao

abbrev Bytes : Type := List UInt8

/-- Decided over the bytes that are there, not over all bytes. -/
instance {p : UInt8 → Prop} [DecidablePred p] (s : Bytes) : Decidable (∀ b ∈ s, p b) :=
  List.decidableBAll p s

/-- The bytes of a string literal of the source. -/
def ascii (s : String) : Bytes :=
  s.toList.map fun c => UInt8.ofNat c.toNat

/-- How a call leaves other than by returning. The first three are C++
exceptions with their texts; a failed `assert` and a memory access outside its
object end the program. -/
inductive Fault : Type
  | outOfRange (what : String)
  | lengthError (what : String)
  | invalidArgument (what : String)
  | assertFailed
  | outOfBounds
  deriving DecidableEq, Repr

/-! ## Integer conversions -/

/-- Conversion of a `size_t` (or any wider integer) to `int`. -/
def toInt (n : Int) : Int := n.bmod (2 ^ 32)

/-- Conversion of an `int` to `size_t`. -/
def toSize (i : Int) : Nat := (i % 2 ^ 64).toNat

/-- `a - b` in `size_t`. -/
def sizeSub (a b : Nat) : Nat := if b ≤ a then a - b else a + 2 ^ 64 - b

/-- `n + i` in `size_t` for an `int` operand `i`. -/
def sizeAdd (n : Nat) (i : Int) : Nat :=
  if 0 ≤ n + i then (n + i).toNat else (n + i + 2 ^ 64).toNat

/-- `max_size()` of a `std::string`. -/
def maxSize : Nat := 2 ^ 62 - 1

theorem toInt_of_lt {n : Nat} (small : n < 2 ^ 31) : toInt n = n := by
  rw [toInt, Int.bmod_def]
  omega

theorem toInt_le_iff (n k : Nat) : toInt n ≤ k ↔ ¬(n % 2 ^ 32 < 2 ^ 31 ∧ k < n % 2 ^ 32) := by
  rw [toInt, Int.bmod_def]
  omega

/-- A size compared as an `int`, decided over the natural numbers. -/
instance decidableToIntLe (n k : Nat) : Decidable (toInt n ≤ k) :=
  decidable_of_iff _ (toInt_le_iff n k).symm

theorem sizeSub_of_le {a b : Nat} (le : b ≤ a) : sizeSub a b = a - b := if_pos le

theorem sizeAdd_natCast (n k : Nat) : sizeAdd n (k : Int) = n + k := by
  rw [sizeAdd, if_pos (by omega)]
  omega

theorem toSize_natCast {k : Nat} (small : k < 2 ^ 64) : toSize (k : Int) = k := by
  rw [toSize]
  omega

/-! ## Sequencing of fallible calls -/

section

variable {ε σ α β : Type}

theorem bind_ok {x : EStateM ε σ α} {f : α → EStateM ε σ β} {s t : σ} {a : α}
    (first : x s = .ok a t) : (x >>= f) s = f a t := by
  change EStateM.bind x f s = f a t
  rw [EStateM.bind, first]

theorem get_bind (f : σ → EStateM ε σ β) (s : σ) :
    ((get : EStateM ε σ σ) >>= f) s = f s s := rfl

/-- A sequence that returned went through a return of its first part. -/
theorem bind_eq_ok {x : EStateM ε σ α} {f : α → EStateM ε σ β} {s u : σ} {b : β}
    (whole : (x >>= f) s = .ok b u) : ∃ a t, x s = .ok a t ∧ f a t = .ok b u := by
  cases first : x s with
  | ok a t => exact ⟨a, t, rfl, (bind_ok first).symm.trans whole⟩
  | error e t =>
      change EStateM.bind x f s = .ok b u at whole
      rw [EStateM.bind, first] at whole
      cases whole

theorem bind_error {x : EStateM ε σ α} {f : α → EStateM ε σ β} {s t : σ} {e : ε}
    (first : x s = .error e t) : (x >>= f) s = .error e t := by
  change EStateM.bind x f s = .error e t
  rw [EStateM.bind, first]

/-- A bind depends on what its first part does here. -/
theorem bind_congr_here {x y : EStateM ε σ α} {f : α → EStateM ε σ β} {s : σ} (same : x s = y s) :
    (x >>= f) s = (y >>= f) s := by
  cases ran : y s with
  | ok a t => rw [bind_ok ran, bind_ok (same.trans ran)]
  | error e t => rw [bind_error ran, bind_error (same.trans ran)]

end

/-! ## C strings -/

/-- The C string a byte string denotes: the bytes before the first NUL. -/
def cstr (s : Bytes) : Bytes := s.takeWhile (· ≠ 0)

def tolower (c : UInt8) : UInt8 := if 65 ≤ c ∧ c ≤ 90 then c + 32 else c

def toupper (c : UInt8) : UInt8 := if 97 ≤ c ∧ c ≤ 122 then c - 32 else c

/-- What `strcasecmp` compares: the C string with letters lowered, in
lexicographic order of bytes. -/
def foldCase (s : Bytes) : Bytes := (cstr s).map tolower

/-- `strcasecmp(a.c_str(), b.c_str()) == 0`. -/
def eqIgnoreCase (a b : Bytes) : Bool := foldCase a == foldCase b

/-! ## Decimal numerals -/

def isspace (c : UInt8) : Bool := c == 32 || (9 ≤ c && c ≤ 13)

def isdigit (c : UInt8) : Bool := 48 ≤ c && c ≤ 57

/-- The value of a string of decimal digits. -/
def decimalValue (ds : Bytes) : Nat :=
  ds.foldl (fun acc c => acc * 10 + (c.toNat - 48)) 0

/-- The optional sign `strtol` accepts, and what follows it. -/
def splitSign : Bytes → Bool × Bytes
  | 45 :: rest => (true, rest)
  | 43 :: rest => (false, rest)
  | rest => (false, rest)

/-- `std::stoi(s)`: leading white space, an optional sign and a run of digits;
whatever follows the digits is ignored. -/
def stoi (s : Bytes) : Except Fault Int :=
  let signed := splitSign (s.dropWhile isspace)
  let digits := signed.2.takeWhile isdigit
  let value : Int := if signed.1 then -(decimalValue digits : Int) else decimalValue digits
  if digits = [] then .error (.invalidArgument "stoi")
  else if value < -(2 ^ 31) ∨ 2 ^ 31 ≤ value then .error (.outOfRange "stoi")
  else .ok value

/-- An unsigned number as `operator<<` prints it. -/
def showNat (n : Nat) : Bytes :=
  if n = 0 then [48] else (Nat.digits 10 n).reverse.map fun d => UInt8.ofNat (48 + d)

/-- `std::to_string` of an `int`. -/
def showInt (i : Int) : Bytes :=
  if i < 0 then 45 :: showNat i.natAbs else showNat i.natAbs

theorem showNat_digit {n : Nat} {c : UInt8} (member : c ∈ showNat n) : isdigit c = true := by
  rw [showNat] at member
  split at member
  · rw [List.mem_singleton] at member
    subst member
    decide
  · obtain ⟨d, digit, rfl⟩ := List.mem_map.mp member
    have small : d < 10 := Nat.digits_lt_base (by decide) (List.mem_reverse.mp digit)
    interval_cases d <;> decide

theorem decimalValue_showNat (n : Nat) : decimalValue (showNat n) = n := by
  rw [showNat]
  split
  · rename_i zero
    rw [zero]
    rfl
  · rename_i nonzero
    have value : ∀ ds : List Nat, (∀ d ∈ ds, d < 10) →
        decimalValue (ds.reverse.map fun d => UInt8.ofNat (48 + d)) = Nat.ofDigits 10 ds := by
      intro ds small
      induction ds with
      | nil => rfl
      | cons d ds ih =>
          have digit : d < 10 := small d List.mem_cons_self
          have back : (UInt8.ofNat (48 + d)).toNat - 48 = d := by
            rw [UInt8.toNat_ofNat']
            omega
          have rest := ih fun e member => small e (List.mem_cons_of_mem d member)
          rw [decimalValue] at rest ⊢
          rw [List.reverse_cons, List.map_append, List.foldl_append, rest, List.map_singleton,
            List.foldl_cons, List.foldl_nil, back, Nat.ofDigits_cons]
          omega
    rw [value _ fun d member => Nat.digits_lt_base (by decide) member, Nat.ofDigits_digits]

theorem showNat_ne_nil (n : Nat) : showNat n ≠ [] := by
  rw [showNat]
  split
  · exact List.cons_ne_nil _ _
  · rename_i nonzero
    simp only [ne_eq, List.map_eq_nil_iff, List.reverse_eq_nil_iff]
    exact Nat.digits_ne_nil_iff_ne_zero.mpr nonzero

/-- A digit is no white space and no sign. -/
theorem splitSign_digit {c : UInt8} (digit : isdigit c = true) (rest : Bytes) :
    splitSign ((c :: rest).dropWhile isspace) = (false, c :: rest) := by
  have visible : ¬(isspace c = true) := by
    intro blank
    simp only [isdigit, isspace, Bool.and_eq_true, Bool.or_eq_true, beq_iff_eq,
      decide_eq_true_eq, UInt8.le_iff_toNat_le] at digit blank
    rcases blank with rfl | both
    · exact absurd digit.1 (by decide)
    · have low : (48 : UInt8).toNat = 48 := rfl
      have high : (13 : UInt8).toNat = 13 := rfl
      omega
  rw [List.dropWhile_cons_of_neg visible]
  unfold splitSign
  split
  · rename_i minus
    cases minus
    exact absurd digit (by decide)
  · rename_i plus
    cases plus
    exact absurd digit (by decide)
  · rfl

/-- What `std::stoi` returns is an `int`. -/
theorem stoi_range {s : Bytes} {n : Int} (number : stoi s = .ok n) :
    -(2 ^ 31) ≤ n ∧ n < 2 ^ 31 := by
  obtain ⟨digits, value, read⟩ : ∃ (digits : Bytes) (value : Int), stoi s =
      if digits = [] then .error (.invalidArgument "stoi")
      else if value < -(2 ^ 31) ∨ 2 ^ 31 ≤ value then .error (.outOfRange "stoi")
      else .ok value := ⟨_, _, rfl⟩
  rw [read] at number
  split at number
  · cases number
  · split at number
    · cases number
    · cases number
      omega

/-- `std::stoi` finds no number in white space. -/
theorem stoi_space {s : Bytes} (space : ∀ c ∈ s, isspace c = true) :
    stoi s = .error (.invalidArgument "stoi") := by
  rw [stoi, List.dropWhile_eq_nil_iff.mpr space]
  rfl

/-- `std::stoi` on a run of digits between white space and what is no digit: the number,
unless it is no `int`. -/
theorem stoi_digits {pre ds post : Bytes} (space : ∀ c ∈ pre, isspace c = true)
    (digits : ∀ c ∈ ds, isdigit c = true) (some_digit : ds ≠ [])
    (stops : ∀ c ∈ post.head?, isdigit c = false) :
    stoi (pre ++ (ds ++ post)) =
      if decimalValue ds < 2 ^ 31 then .ok (decimalValue ds : Int)
      else .error (.outOfRange "stoi") := by
  have signed : splitSign ((pre ++ (ds ++ post)).dropWhile isspace) = (false, ds ++ post) := by
    obtain ⟨c, rest, rfl⟩ := List.exists_cons_of_ne_nil some_digit
    rw [List.dropWhile_append_of_pos space, List.cons_append]
    exact splitSign_digit (digits c List.mem_cons_self) (rest ++ post)
  have all : (ds ++ post).takeWhile isdigit = ds := by
    rw [List.takeWhile_append_of_pos digits]
    cases post with
    | nil => rw [List.takeWhile_nil, List.append_nil]
    | cons c post =>
        have other : ¬(isdigit c = true) := by
          rw [stops c rfl]
          exact Bool.false_ne_true
        rw [List.takeWhile_cons_of_neg other, List.append_nil]
  simp only [stoi, signed, all, some_digit, if_false, Bool.false_eq_true]
  by_cases small : decimalValue ds < 2 ^ 31
  · rw [if_pos small, if_neg (by omega)]
  · rw [if_neg small, if_pos (by omega)]

/-- `std::stoi` on a printed number: the number, unless it is no `int`. -/
theorem stoi_showNat (n : Nat) : stoi (showNat n) =
    if n < 2 ^ 31 then .ok (n : Int) else .error (.outOfRange "stoi") := by
  have read : stoi ([] ++ (showNat n ++ [])) = _ := stoi_digits (by simp)
    (fun c => showNat_digit (n := n) (c := c)) (showNat_ne_nil n) (by simp)
  rw [List.nil_append, List.append_nil, decimalValue_showNat] at read
  exact read

end Reyao
