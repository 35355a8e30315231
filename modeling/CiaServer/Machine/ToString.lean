import CiaServer.Machine.Decimal

/-!
# Numbers as strings

`toDecimal` is `std::to_string` of an unsigned number. It writes nothing but
digits, and what it writes is read back (`decimalInt_toDecimal`), by `stoi` too,
as long as it fits an `int`.
-/

namespace Machine

/-- `std::to_string` of an unsigned number. -/
def toDecimal (n : Nat) : List UInt8 := (Nat.toDigits 10 n).map fun c => UInt8.ofNat c.toNat

theorem toNat_of_digit {c : Char} (h : c.isDigit = true) :
    (UInt8.ofNat c.toNat).toNat = c.toNat ∧ 48 ≤ c.toNat ∧ c.toNat ≤ 57 := by
  obtain ⟨hle, hge⟩ : 48 ≤ c.toNat ∧ c.toNat ≤ 57 := Char.isDigit_iff_toNat.mp h
  refine ⟨?_, hle, hge⟩
  rw [UInt8.toNat_ofNat']
  omega

theorem isDigit_of_mem {n : Nat} {c : Char} (h : c ∈ Nat.toDigits 10 n) : c.isDigit = true :=
  Nat.isDigit_of_mem_toDigits (by decide) (by decide) h

theorem toDecimal_digits (n : Nat) : (toDecimal n).all isDigit = true := by
  refine List.all_eq_true.mpr fun b hb => ?_
  obtain ⟨c, hc, rfl⟩ := List.mem_map.mp hb
  obtain ⟨heq, hle, hge⟩ := toNat_of_digit (isDigit_of_mem hc)
  simp only [isDigit, Bool.and_eq_true, decide_eq_true_eq, UInt8.le_iff_toNat_le, heq]
  exact ⟨hle, hge⟩

theorem toDecimal_ne_nil (n : Nat) : toDecimal n ≠ [] := by
  intro h
  exact Nat.toDigits_ne_nil (List.map_eq_nil_iff.mp h)

/-- The digits have the value of the number. -/
theorem digitsValue_toDecimal (n : Nat) : digitsValue (toDecimal n) = n := by
  have hfold : ∀ (cs : List Char) (k : Nat), (∀ c ∈ cs, c.isDigit = true) →
      (cs.map fun c => UInt8.ofNat c.toNat).foldl (fun n b => 10 * n + (b.toNat - 0x30)) k
        = Nat.ofDigitChars 10 cs k := by
    intro cs
    induction cs with
    | nil =>
      intro k _
      rw [Nat.ofDigitChars_nil]
      rfl
    | cons c cs ih =>
      intro k h
      obtain ⟨heq, _⟩ := toNat_of_digit (h c (List.mem_cons_self ..))
      rw [List.map_cons, List.foldl_cons, heq, Nat.ofDigitChars_cons]
      exact ih _ fun d hd => h d (List.mem_cons_of_mem _ hd)
  rw [digitsValue, toDecimal, hfold _ _ fun c hc => isDigit_of_mem hc]
  exact Nat.ofDigitChars_ten_toDigits

/-- There is no sign before the digits. -/
theorem splitSign_toDecimal (n : Nat) : splitSign (toDecimal n) = (false, toDecimal n) := by
  have hall := toDecimal_digits n
  generalize toDecimal n = ds at hall
  cases ds with
  | nil => rfl
  | cons b bs =>
    rw [List.all_cons, Bool.and_eq_true] at hall
    have hminus : b ≠ 0x2d := by
      rintro rfl
      exact absurd hall.1 (by decide)
    have hplus : b ≠ 0x2b := by
      rintro rfl
      exact absurd hall.1 (by decide)
    rw [splitSign, if_neg hminus, if_neg hplus]

/-- **What `to_string` writes is read back.** -/
theorem decimalInt_toDecimal {n : Nat} (h : n < 2 ^ 31) : decimalInt (toDecimal n) = some (n : Int) := by
  have hvalue : signedValue false (toDecimal n) = n := by
    rw [signedValue, if_neg Bool.false_ne_true, digitsValue_toDecimal]
  have hfits : Fits 32 (n : Int) := by
    unfold Fits
    omega
  rw [decimalInt, splitSign_toDecimal]
  dsimp only
  rw [hvalue, if_pos ⟨toDecimal_ne_nil n, toDecimal_digits n, hfits⟩]

end Machine
