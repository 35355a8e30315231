import Mathlib.Data.List.TakeWhile
import CiaServer.Machine.Integers

/-!
# Decimal numbers in strings

`decimalInt` says which strings are a decimal integer that fits an `int`: an
optional sign, at least one digit, and nothing else. `stoi` is `std::stoi`: it
skips blanks, reads a sign and digits as far as they go, and does not look at
what follows. It reads every decimal integer as it is meant
(`stoi_of_decimalInt`), and numbers from the beginnings of many other strings.
-/

namespace Machine

/-- `isspace` in the "C" locale. -/
def isSpace (b : UInt8) : Bool := b == 0x20 || (0x09 ≤ b && b ≤ 0x0d)

/-- `isdigit`. -/
def isDigit (b : UInt8) : Bool := 0x30 ≤ b && b ≤ 0x39

/-- The value of a row of digits. -/
def digitsValue (ds : List UInt8) : Nat := ds.foldl (fun n b => 10 * n + (b.toNat - 0x30)) 0

/-- Whether there is a minus sign, and what follows the sign if there is one. -/
def splitSign : List UInt8 → Bool × List UInt8
  | [] => (false, [])
  | b :: bs => if b = 0x2d then (true, bs) else if b = 0x2b then (false, bs) else (false, b :: bs)

/-- The number of a sign and a row of digits. -/
def signedValue (neg : Bool) (ds : List UInt8) : Int :=
  if neg then -(digitsValue ds) else digitsValue ds

/-- The integer a string is. -/
def decimalInt (s : List UInt8) : Option Int :=
  let p := splitSign s
  if p.2 ≠ [] ∧ p.2.all isDigit = true ∧ Fits 32 (signedValue p.1 p.2) then
    some (signedValue p.1 p.2)
  else none

/-- What `std::stoi` throws. -/
inductive StoiError where
  | invalidArgument
  | outOfRange
  deriving DecidableEq, Repr

/-- `std::stoi`. -/
def stoi (s : List UInt8) : Except StoiError Int :=
  let p := splitSign (s.dropWhile isSpace)
  let ds := p.2.takeWhile isDigit
  if ds = [] then .error .invalidArgument
  else if Fits 32 (signedValue p.1 ds) then .ok (signedValue p.1 ds)
  else .error .outOfRange

/-! ## What `stoi` reads -/

theorem fits_of_stoi {s : List UInt8} {n : Int} (h : stoi s = .ok n) : Fits 32 n := by
  simp only [stoi] at h
  split at h
  · cases h
  · split at h
    · next hf =>
      cases h
      exact hf
    · cases h

theorem decimalInt_eq_some {s : List UInt8} {n : Int} (h : decimalInt s = some n) :
    (splitSign s).2 ≠ [] ∧ (splitSign s).2.all isDigit = true ∧ Fits 32 n ∧
      signedValue (splitSign s).1 (splitSign s).2 = n := by
  simp only [decimalInt] at h
  split at h
  · next hc =>
    cases h
    exact ⟨hc.1, hc.2.1, hc.2.2, rfl⟩
  · cases h

theorem not_isSpace_of_isDigit {b : UInt8} (h : isDigit b = true) : isSpace b = false := by
  simp only [isDigit, Bool.and_eq_true, decide_eq_true_eq, UInt8.le_iff_toNat_le] at h
  obtain ⟨h₁, h₂⟩ := h
  simp only [isSpace, Bool.or_eq_false_iff, beq_eq_false_iff_ne, Bool.and_eq_false_iff,
    decide_eq_false_iff_not, UInt8.le_iff_toNat_le]
  change 48 ≤ b.toNat at h₁
  refine ⟨?_, Or.inr ?_⟩
  · rintro rfl
    exact absurd h₁ (by decide)
  · change ¬b.toNat ≤ 13
    omega

/-- A sign with digits behind it has no blanks before it. -/
theorem dropWhile_isSpace_of_digits {s : List UInt8}
    (hd : (splitSign s).2.all isDigit = true) : s.dropWhile isSpace = s := by
  cases s with
  | nil => rfl
  | cons b bs =>
    have hb : isSpace b = false := by
      simp only [splitSign] at hd
      split at hd
      · next hm =>
        rw [hm]
        rfl
      · split at hd
        · next hp =>
          rw [hp]
          rfl
        · rw [List.all_cons, Bool.and_eq_true] at hd
          exact not_isSpace_of_isDigit hd.1
    rw [List.dropWhile_cons_of_neg (by rw [hb]; exact Bool.false_ne_true)]

/-- **A decimal integer is read as it is meant.** -/
theorem stoi_of_decimalInt {s : List UInt8} {n : Int} (h : decimalInt s = some n) :
    stoi s = .ok n := by
  obtain ⟨hne, hd, hf, hn⟩ := decimalInt_eq_some h
  have htake : (splitSign s).2.takeWhile isDigit = (splitSign s).2 := by
    rw [List.takeWhile_eq_self_iff]
    exact List.all_eq_true.mp hd
  unfold stoi
  rw [dropWhile_isSpace_of_digits hd]
  simp only [htake, hn, if_neg hne, if_pos hf]

theorem decimalInt_nil : decimalInt [] = none := rfl

theorem stoi_nil : stoi [] = .error .invalidArgument := rfl

end Machine
