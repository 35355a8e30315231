import Mathlib.Algebra.GroupWithZero.Nat
import Mathlib.Data.List.Basic

/-!
# Varints and length-delimited fields

The part of the protocol buffer wire format a message of strings needs: base-128
varints of up to 64 bits, the tag `8 * number + type` in front of a field, and
length-delimited values (type 2). A reader of 32-bit varints reads a 64-bit one
and keeps its low 32 bits.
-/

namespace Wire

/-- The groups of 7 bits of `n`, least significant first, at most `k` behind
the first. -/
def encodeGroups : Nat → Nat → List UInt8
  | 0, n => [UInt8.ofNat n]
  | k + 1, n =>
    if n < 128 then [UInt8.ofNat n]
    else UInt8.ofNat (n % 128 + 128) :: encodeGroups k (n / 128)

/-- A varint: at most ten bytes. -/
def encodeVarint (n : Nat) : List UInt8 := encodeGroups 9 n

def decodeGroups : Nat → List UInt8 → Option (Nat × List UInt8)
  | _, [] => none
  | 0, b :: bs => if b.toNat < 128 then some (b.toNat, bs) else none
  | k + 1, b :: bs =>
    if b.toNat < 128 then some (b.toNat, bs)
    else (decodeGroups k bs).map fun p => (b.toNat - 128 + 128 * p.1, p.2)

/-- Reads a varint of 32 bits, and what follows it. -/
def decodeVarint32 (bs : List UInt8) : Option (Nat × List UInt8) :=
  (decodeGroups 9 bs).map fun p => (p.1 % 2 ^ 32, p.2)

/-- How many bytes the varint of a 32-bit number has. -/
def varintSize32 (n : Nat) : Nat :=
  if n < 2 ^ 7 then 1 else if n < 2 ^ 14 then 2 else if n < 2 ^ 21 then 3
  else if n < 2 ^ 28 then 4 else 5

/-- The tag of a length-delimited field. -/
def stringTag (number : Nat) : Nat := 8 * number + 2

/-- A string field: its tag, its length, its bytes. -/
def encodeString (number : Nat) (s : List UInt8) : List UInt8 :=
  encodeVarint (stringTag number) ++ encodeVarint s.length ++ s

/-- Reads a length and that many bytes, and returns what follows them. -/
def decodeString (bs : List UInt8) : Option (List UInt8 × List UInt8) :=
  match decodeVarint32 bs with
  | none => none
  | some (n, bs') => if n ≤ bs'.length then some (bs'.take n, bs'.drop n) else none

/-! ## Reading back what was written -/

theorem decodeGroups_encodeGroups :
    ∀ {k n : Nat}, n < 128 ^ (k + 1) → ∀ bs : List UInt8,
      decodeGroups k (encodeGroups k n ++ bs) = some (n, bs)
  | 0, n, h, bs => by
    have hn : (UInt8.ofNat n).toNat = n := by
      rw [UInt8.toNat_ofNat']
      omega
    simp only [encodeGroups, List.cons_append, List.nil_append, decodeGroups, hn]
    rw [if_pos (by omega)]
  | k + 1, n, h, bs => by
    unfold encodeGroups
    split
    · next hlt =>
      have hn : (UInt8.ofNat n).toNat = n := by
        rw [UInt8.toNat_ofNat']
        omega
      simp only [List.cons_append, List.nil_append, decodeGroups, hn, if_pos hlt]
    · next hge =>
      -- the high bit says that another group follows
      have hn : (UInt8.ofNat (n % 128 + 128)).toNat = n % 128 + 128 := by
        rw [UInt8.toNat_ofNat']
        omega
      have hd : n / 128 < 128 ^ (k + 1) := by
        rw [Nat.div_lt_iff_lt_mul (by decide), ← Nat.pow_succ]
        exact h
      simp only [List.cons_append, decodeGroups, hn]
      rw [if_neg (by omega), decodeGroups_encodeGroups hd, Option.map_some]
      have : n % 128 + 128 - 128 + 128 * (n / 128) = n := by omega
      rw [this]

theorem decodeVarint32_encodeVarint {n : Nat} (h : n < 2 ^ 32) (bs : List UInt8) :
    decodeVarint32 (encodeVarint n ++ bs) = some (n, bs) := by
  have hn : n < 128 ^ (9 + 1) := by omega
  rw [decodeVarint32, encodeVarint, decodeGroups_encodeGroups hn, Option.map_some,
    Nat.mod_eq_of_lt h]

theorem decodeString_encode {s : List UInt8} (h : s.length < 2 ^ 32) (bs : List UInt8) :
    decodeString (encodeVarint s.length ++ (s ++ bs)) = some (s, bs) := by
  rw [decodeString, decodeVarint32_encodeVarint h]
  simp only [List.take_left, List.drop_left]
  rw [if_pos (by rw [List.length_append]; omega)]

/-- Reading a varint moves forward. -/
theorem length_of_decodeGroups :
    ∀ {k n : Nat} {bs bs' : List UInt8}, decodeGroups k bs = some (n, bs') →
      bs'.length ≤ bs.length
  | _, _, [], _, h => by simp [decodeGroups] at h
  | 0, _, b :: bs, _, h => by
    unfold decodeGroups at h
    split at h <;> cases h
    exact Nat.le_succ _
  | k + 1, _, b :: bs, _, h => by
    unfold decodeGroups at h
    split at h
    · cases h
      exact Nat.le_succ _
    · simp only [Option.map_eq_some_iff] at h
      obtain ⟨⟨v, r⟩, hg, he⟩ := h
      cases he
      exact Nat.le_succ_of_le (length_of_decodeGroups hg)

theorem length_of_decodeVarint32 {bs bs' : List UInt8} {n : Nat}
    (h : decodeVarint32 bs = some (n, bs')) : bs'.length ≤ bs.length := by
  simp only [decodeVarint32, Option.map_eq_some_iff] at h
  obtain ⟨⟨v, r⟩, hg, he⟩ := h
  cases he
  exact length_of_decodeGroups hg

/-- A string that was read, and what follows it, are no longer than the input. -/
theorem length_of_decodeString {bs bs' s : List UInt8} (h : decodeString bs = some (s, bs')) :
    s.length ≤ bs.length ∧ bs'.length ≤ bs.length := by
  unfold decodeString at h
  split at h
  · cases h
  · next n r hv =>
    have hr := length_of_decodeVarint32 hv
    split at h <;> cases h
    rw [List.length_take, List.length_drop]
    omega

/-! ## Sizes -/

theorem length_encodeGroups_of_lt (k : Nat) {n : Nat} (h : n < 128) :
    (encodeGroups k n).length = 1 := by
  cases k with
  | zero => rfl
  | succ k => rw [encodeGroups, if_pos h]; rfl

theorem length_encodeGroups_of_le (k : Nat) {n : Nat} (h : 128 ≤ n) :
    (encodeGroups (k + 1) n).length = (encodeGroups k (n / 128)).length + 1 := by
  rw [encodeGroups, if_neg (by omega), List.length_cons]

/-- **The size of a varint is the length of its encoding.** -/
theorem length_encodeVarint {n : Nat} (h : n < 2 ^ 32) :
    (encodeVarint n).length = varintSize32 n := by
  unfold encodeVarint varintSize32
  split
  · exact length_encodeGroups_of_lt 9 (by omega)
  · rw [length_encodeGroups_of_le 8 (by omega)]
    split
    · rw [length_encodeGroups_of_lt 8 (by omega)]
    · rw [length_encodeGroups_of_le 7 (by omega)]
      split
      · rw [length_encodeGroups_of_lt 7 (by omega)]
      · rw [length_encodeGroups_of_le 6 (by omega)]
        split
        · rw [length_encodeGroups_of_lt 6 (by omega)]
        · rw [length_encodeGroups_of_le 5 (by omega), length_encodeGroups_of_lt 5 (by omega)]

theorem encodeVarint_ne_nil (n : Nat) : encodeVarint n ≠ [] := by
  unfold encodeVarint encodeGroups
  split <;> exact nofun

/-- What `j + 1` bytes hold is a number of `j + 1` groups of 7 bits. -/
theorem lt_of_decodeGroups : ∀ {k n : Nat} {bs bs' : List UInt8},
    decodeGroups k bs = some (n, bs') → ∃ j, bs.length = bs'.length + (j + 1) ∧ n < 128 ^ (j + 1)
  | _, _, [], _, h => by simp [decodeGroups] at h
  | 0, _, b :: bs, _, h => by
    unfold decodeGroups at h
    split at h <;> cases h
    exact ⟨0, rfl, by omega⟩
  | k + 1, _, b :: bs, bs', h => by
    unfold decodeGroups at h
    split at h
    · cases h
      exact ⟨0, rfl, by omega⟩
    · simp only [Option.map_eq_some_iff] at h
      obtain ⟨⟨v, r⟩, hg, he⟩ := h
      cases he
      obtain ⟨j, hlen, hv⟩ := lt_of_decodeGroups hg
      refine ⟨j + 1, by rw [List.length_cons, hlen]; rfl, ?_⟩
      -- the first byte holds less than 128
      have hb := b.toNat_lt
      have hpow : 128 ^ (j + 1 + 1) = 128 ^ (j + 1) * 128 := Nat.pow_succ ..
      dsimp only
      omega

theorem length_encodeGroups_le : ∀ {k j n : Nat}, n < 128 ^ (j + 1) →
    (encodeGroups k n).length ≤ j + 1
  | 0, _, _, _ => Nat.succ_le_succ (Nat.zero_le _)
  | k + 1, j, n, h => by
    by_cases hlt : n < 128
    · rw [length_encodeGroups_of_lt (k + 1) hlt]
      omega
    · rw [length_encodeGroups_of_le k (by omega)]
      cases j with
      | zero => exact absurd h (by omega)
      | succ j =>
        have hd : n / 128 < 128 ^ (j + 1) := by
          rw [Nat.div_lt_iff_lt_mul (by decide), ← Nat.pow_succ]
          exact h
        exact Nat.succ_le_succ (length_encodeGroups_le hd)

/-- A varint that was read is written anew in no more bytes. -/
theorem size_of_decodeVarint32 {bs bs' : List UInt8} {n : Nat}
    (h : decodeVarint32 bs = some (n, bs')) :
    n < 2 ^ 32 ∧ 0 < varintSize32 n ∧ varintSize32 n + bs'.length ≤ bs.length := by
  simp only [decodeVarint32, Option.map_eq_some_iff] at h
  obtain ⟨⟨v, r⟩, hg, he⟩ := h
  cases he
  obtain ⟨j, hlen, hv⟩ := lt_of_decodeGroups hg
  have hlt : v % 2 ^ 32 < 2 ^ 32 := Nat.mod_lt v (by decide)
  have hle : (encodeVarint (v % 2 ^ 32)).length ≤ j + 1 :=
    length_encodeGroups_le (Nat.lt_of_le_of_lt (Nat.mod_le v (2 ^ 32)) hv)
  have hpos := List.length_pos_iff.mpr (encodeVarint_ne_nil (v % 2 ^ 32))
  rw [length_encodeVarint hlt] at hle hpos
  exact ⟨hlt, hpos, by dsimp only at hlen ⊢; omega⟩

/-- So is a string that was read. -/
theorem size_of_decodeString {bs bs' s : List UInt8} (h : decodeString bs = some (s, bs')) :
    s.length < 2 ^ 32 ∧ 0 < varintSize32 s.length ∧
      varintSize32 s.length + s.length + bs'.length ≤ bs.length := by
  unfold decodeString at h
  split at h
  · cases h
  · next n r hv =>
    obtain ⟨hlt, hpos, hle⟩ := size_of_decodeVarint32 hv
    split at h <;> cases h
    next hn =>
      rw [List.length_take, List.length_drop, Nat.min_eq_left hn]
      exact ⟨hlt, hpos, by omega⟩

end Wire
