import Mathlib.Algebra.GroupWithZero.Nat
import Mathlib.Data.List.Basic

/-!
# Fixed-width integers in bytes, and writing into a buffer

`be k n` and `le k n` are the `k` bytes of `n` in the two byte orders, `readBE`
and `readLE` read them back. A program that swaps the bytes of what it loads
(`ntohl`, `htonl`) reads and writes big-endian on a machine of either order:
`networkToHost_load`, `store_hostToNetwork`.

`overwrite buf off bs` is `memcpy(buf + off, bs, bs.length)`; it means that
only where the bytes fit (`off + bs.length ≤ buf.length`).
-/

namespace Wire

/-! ## Byte orders -/

/-- The `k` low bytes of `n`, least significant first. -/
def le : Nat → Nat → List UInt8
  | 0, _ => []
  | k + 1, n => UInt8.ofNat n :: le k (n / 256)

/-- The `k` low bytes of `n`, most significant first. -/
def be (k n : Nat) : List UInt8 := (le k n).reverse

def readLE : List UInt8 → Nat
  | [] => 0
  | b :: bs => b.toNat + 256 * readLE bs

def readBE (bs : List UInt8) : Nat := readLE bs.reverse

@[simp] theorem length_le (k n : Nat) : (le k n).length = k := by
  induction k generalizing n with
  | zero => rfl
  | succ k ih => rw [le, List.length_cons, ih]

@[simp] theorem length_be (k n : Nat) : (be k n).length = k := by
  rw [be, List.length_reverse, length_le]

theorem readLE_le {k n : Nat} (h : n < 256 ^ k) : readLE (le k n) = n := by
  induction k generalizing n with
  | zero =>
    rw [Nat.pow_zero] at h
    rw [le, readLE]
    omega
  | succ k ih =>
    have hd : n / 256 < 256 ^ k := by
      rw [Nat.div_lt_iff_lt_mul (by decide), ← Nat.pow_succ]
      exact h
    rw [le, readLE, ih hd, UInt8.toNat_ofNat']
    omega

theorem readBE_be {k n : Nat} (h : n < 256 ^ k) : readBE (be k n) = n := by
  rw [readBE, be, List.reverse_reverse, readLE_le h]

/-- What was read is written back the same. -/
theorem le_readLE (bs : List UInt8) : le bs.length (readLE bs) = bs := by
  induction bs with
  | nil => rfl
  | cons b bs ih =>
    have hb : b.toNat < 256 := b.toNat_lt
    rw [List.length_cons, le, readLE]
    congr 1
    · refine UInt8.toNat_inj.mp ?_
      rw [UInt8.toNat_ofNat']
      omega
    · rw [show (b.toNat + 256 * readLE bs) / 256 = readLE bs by omega, ih]

theorem be_readBE (bs : List UInt8) : be bs.length (readBE bs) = bs := by
  have h := le_readLE bs.reverse
  rw [List.length_reverse] at h
  rw [be, readBE, h, List.reverse_reverse]

/-! ## Machine words -/

/-- The byte order of a machine. -/
inductive ByteOrder where
  | little
  | big
  deriving DecidableEq, Repr

/-- The word a machine loads from 4 bytes. -/
def load : ByteOrder → List UInt8 → Nat
  | .little, bs => readLE bs
  | .big, bs => readBE bs

/-- The 4 bytes a machine stores a word as. -/
def store : ByteOrder → Nat → List UInt8
  | .little, n => le 4 n
  | .big, n => be 4 n

/-- `ntohl`: swaps the four bytes on a little-endian machine. -/
def networkToHost : ByteOrder → Nat → Nat
  | .little, n => readBE (le 4 n)
  | .big, n => n

/-- `htonl`, the same function. -/
def hostToNetwork (o : ByteOrder) (n : Nat) : Nat := networkToHost o n

theorem networkToHost_load (o : ByteOrder) {bs : List UInt8} (h : bs.length = 4) :
    networkToHost o (load o bs) = readBE bs := by
  cases o with
  | little => rw [networkToHost, load, ← h, le_readLE]
  | big => rfl

theorem store_hostToNetwork (o : ByteOrder) (n : Nat) : store o (hostToNetwork o n) = be 4 n := by
  cases o with
  | little =>
    have h := le_readLE (be 4 n)
    rw [length_be] at h
    rw [store, hostToNetwork, networkToHost, readBE]
    exact h
  | big => rfl

/-! ## Buffers -/

variable {α : Type}

/-- `buf` with `bs` copied to it at `off`. -/
def overwrite (buf : List α) (off : Nat) (bs : List α) : List α :=
  buf.take off ++ bs ++ buf.drop (off + bs.length)

/-- `n` elements of `buf` from `off` on. -/
def slice (buf : List α) (off n : Nat) : List α := (buf.drop off).take n

theorem length_overwrite {buf bs : List α} {off : Nat} (h : off + bs.length ≤ buf.length) :
    (overwrite buf off bs).length = buf.length := by
  rw [overwrite, List.length_append, List.length_append, List.length_take, List.length_drop]
  omega

/-- What was written is what is read there. -/
theorem slice_overwrite {buf bs : List α} {off : Nat} (h : off + bs.length ≤ buf.length) :
    slice (overwrite buf off bs) off bs.length = bs := by
  have ht : (buf.take off).length = off := by rw [List.length_take]; omega
  rw [slice, overwrite, List.append_assoc, List.drop_append_of_le_length (by omega),
    List.drop_eq_nil_of_le (by omega), List.nil_append, List.take_left']
  rfl

/-- A write leaves what lies before it alone. -/
theorem slice_overwrite_before {buf bs : List α} {off i n : Nat} (h : off ≤ buf.length)
    (hi : i + n ≤ off) : slice (overwrite buf off bs) i n = slice buf i n := by
  have ht : (buf.take off).length = off := by rw [List.length_take]; omega
  rw [slice, slice, overwrite, List.append_assoc, List.drop_append_of_le_length (by omega),
    List.take_append_of_le_length (by rw [List.length_drop]; omega), List.drop_take, List.take_take,
    Nat.min_eq_left (by omega)]

/-- A write leaves what lies behind it alone. -/
theorem slice_overwrite_after {buf bs : List α} {off i n : Nat} (h : off + bs.length ≤ buf.length)
    (hi : off + bs.length ≤ i) : slice (overwrite buf off bs) i n = slice buf i n := by
  -- everything up to the end of the write is dropped
  have ht : (buf.take off ++ bs).length = off + bs.length := by
    rw [List.length_append, List.length_take]
    omega
  rw [slice, slice, overwrite, List.drop_append, List.drop_eq_nil_of_le (by omega), List.nil_append,
    List.drop_drop, ht, show off + bs.length + (i - (off + bs.length)) = i by omega]

/-- Behind what lies before it, a write is read as what was written. -/
theorem slice_overwrite_append {buf bs : List α} {off g : Nat}
    (h : off + g + bs.length ≤ buf.length) :
    slice (overwrite buf (off + g) bs) off (g + bs.length) = slice buf off g ++ bs := by
  have hsplit : slice (overwrite buf (off + g) bs) off (g + bs.length)
      = slice (overwrite buf (off + g) bs) off g
        ++ slice (overwrite buf (off + g) bs) (off + g) bs.length := by
    rw [slice, slice, slice, List.take_add, List.drop_drop]
  rw [hsplit, slice_overwrite_before (by omega) (Nat.le_refl _), slice_overwrite h]

end Wire
