import Mathlib.Algebra.Group.Int.Defs
import Mathlib.Algebra.Group.Nat.Defs
import Mathlib.Data.Int.Init

/-!
# Machine integers

The values of a C integer type are integers in its range. A conversion to a
signed type of `b` bits is `toSigned b`, to an unsigned one `toUnsigned b`; what
a computation in such a type gives is the conversion of what it gives in the
integers.

`WordSize` is the width of `size_t`, and `exceeds` is `a > n` for a signed
64-bit `a` and a `size_t` `n`: the usual arithmetic conversions make both signed
where `size_t` has 32 bits, and both unsigned where it has 64.
-/

namespace Machine

/-- Conversion to a signed type of `b` bits. -/
def toSigned (b : Nat) (x : Int) : Int := x.bmod (2 ^ b)

/-- Conversion to an unsigned type of `b` bits. -/
def toUnsigned (b : Nat) (x : Int) : Nat := (x % 2 ^ b).toNat

/-- The values of a signed type of `b` bits. -/
def Fits (b : Nat) (x : Int) : Prop := -2 ^ b ≤ 2 * x ∧ 2 * x < 2 ^ b

instance (b : Nat) (x : Int) : Decidable (Fits b x) := inferInstanceAs (Decidable (_ ∧ _))

/-! ## Conversions -/

theorem toSigned_of_fits {b : Nat} {x : Int} (h : Fits b x) : toSigned b x = x := by
  obtain ⟨hle, hlt⟩ := h
  have hpos : 0 < 2 ^ b := Nat.two_pow_pos b
  have hpow : ((2 ^ b : Nat) : Int) = 2 ^ b := by norm_cast
  rw [toSigned, Int.bmod_eq_iff hpos, hpow]
  refine ⟨by omega, by omega, ?_⟩
  rw [Int.sub_self]
  exact Int.dvd_zero _

theorem toUnsigned_of_lt {b : Nat} {x : Int} (h₀ : 0 ≤ x) (h : x < 2 ^ b) :
    (toUnsigned b x : Int) = x := by
  rw [toUnsigned, Int.emod_eq_of_lt h₀ h, Int.toNat_of_nonneg h₀]

/-- A negative value wraps around once. -/
theorem toUnsigned_of_neg {b : Nat} {x : Int} (h : x < 0) (hle : -2 ^ b ≤ x) :
    (toUnsigned b x : Int) = x + 2 ^ b := by
  have hmod : x % 2 ^ b = x + 2 ^ b := by
    rw [← Int.add_emod_right]
    exact Int.emod_eq_of_lt (by omega) (by omega)
  rw [toUnsigned, hmod, Int.toNat_of_nonneg (by omega)]

/-- On the way through a wider unsigned type nothing is lost. -/
theorem toSigned_toUnsigned {b w : Nat} (hw : b ≤ w) (x : Int) :
    toSigned b (toUnsigned w x) = toSigned b x := by
  have hpos : (0 : Int) < 2 ^ w := Int.pow_pos (by decide)
  have hdvd : ((2 ^ b : Nat) : Int) ∣ 2 ^ w := by
    have hpow : ((2 ^ w : Nat) : Int) = 2 ^ w := by norm_cast
    rw [← hpow]
    exact Int.natCast_dvd_natCast.mpr (Nat.pow_dvd_pow 2 hw)
  rw [toUnsigned, Int.toNat_of_nonneg (Int.emod_nonneg _ (by omega)), toSigned, toSigned]
  rw [← Int.emod_bmod, Int.emod_emod_of_dvd _ hdvd, Int.emod_bmod]

/-- Unsigned subtraction does not ask which of the values with one remainder it gets. -/
theorem toUnsigned_sub_toUnsigned (b : Nat) (x y : Int) :
    toUnsigned b (x - toUnsigned b y) = toUnsigned b (x - y) := by
  have hpos : (0 : Int) < 2 ^ b := Int.pow_pos (by decide)
  rw [toUnsigned, toUnsigned, toUnsigned, Int.toNat_of_nonneg (Int.emod_nonneg _ (by omega))]
  rw [Int.sub_emod, Int.emod_emod, ← Int.sub_emod]

/-- A value that fits comes back. -/
theorem toSigned_toUnsigned_of_fits {b w : Nat} (hw : b ≤ w) {x : Int} (h : Fits b x) :
    toSigned b (toUnsigned w x) = x := by
  rw [toSigned_toUnsigned hw, toSigned_of_fits h]

/-! ## The width of `size_t` -/

inductive WordSize where
  | w32
  | w64
  deriving DecidableEq, Repr

def WordSize.bits : WordSize → Nat
  | .w32 => 32
  | .w64 => 64

/-- An `int` goes through a `size_t`. -/
theorem WordSize.int_le_bits (w : WordSize) : 32 ≤ w.bits := by
  cases w <;> decide

theorem WordSize.int_le_two_pow (w : WordSize) : (2 : Int) ^ 32 ≤ 2 ^ w.bits := by
  cases w <;> decide

/-- `a > n` for a signed 64-bit `a` and a `size_t` `n`. -/
def exceeds (w : WordSize) (a : Int) (n : Nat) : Bool :=
  match w with
  -- the signed 64-bit type has every value of a 32-bit `size_t`
  | .w32 => n < a
  | .w64 => n < toUnsigned 64 a

theorem exceeds_of_nonneg (w : WordSize) {a : Int} (n : Nat) (h₀ : 0 ≤ a) (h : Fits 64 a) :
    exceeds w a n = true ↔ (n : Int) < a := by
  cases w with
  | w32 => exact decide_eq_true_iff
  | w64 =>
    have hu := toUnsigned_of_lt (b := 64) h₀ (by unfold Fits at h; omega)
    rw [exceeds, decide_eq_true_iff]
    omega

theorem exceeds_w32 (a : Int) (n : Nat) : exceeds .w32 a n = true ↔ (n : Int) < a :=
  decide_eq_true_iff

/-- A negative value is larger than every `n` that could be signed. -/
theorem exceeds_w64_of_neg {a : Int} {n : Nat} (h₀ : a < 0) (h : Fits 64 a) (hn : n < 2 ^ 63) :
    exceeds .w64 a n = true := by
  unfold Fits at h
  have hu := toUnsigned_of_neg (b := 64) h₀ (by omega)
  rw [exceeds, decide_eq_true_iff]
  omega

end Machine
