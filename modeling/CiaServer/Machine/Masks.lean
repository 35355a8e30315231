import Mathlib.Data.List.Basic

/-!
# Bits as marks on a record

A record keeps a word with a bit for each of its keys. A mask of one bit tests,
sets or takes away the mark of one key, a wider one asks about many keys at
once: where it finds nothing, none of the keys it covers is marked.

`foldl_update` is the loop behind such a mask: one key after the other, those
that are marked are updated.
-/

namespace Machine

/-! ## Masks -/

section

variable {w : Nat}

/-- A mask of one bit tests that bit. -/
theorem and_twoPow_bne_zero {i : Nat} (hi : i < w) (x : BitVec w) :
    (x &&& BitVec.twoPow w i != 0#w) = x.getLsbD i := by
  have hne : BitVec.twoPow w i ≠ 0#w := by
    intro h
    have hbit := congrArg (fun y : BitVec w => y.getLsbD i) h
    simp [hi] at hbit
  rw [BitVec.and_twoPow]
  split
  · next h => rw [h]; exact bne_iff_ne.mpr hne
  · next h => rw [Bool.not_eq_true] at h; rw [h, bne_self_eq_false]

theorem getLsbD_or_twoPow {i j : Nat} (hj : j < w) (x : BitVec w) :
    (x ||| BitVec.twoPow w i).getLsbD j = (decide (j = i) || x.getLsbD j) := by
  rw [BitVec.getLsbD_or, BitVec.getLsbD_twoPow, Bool.or_comm]
  by_cases h : j = i
  · subst h
    simp [hj]
  · simp [h, Ne.symm h]

theorem getLsbD_and_not_twoPow {i j : Nat} (hj : j < w) (x : BitVec w) :
    (x &&& ~~~BitVec.twoPow w i).getLsbD j = (!decide (j = i) && x.getLsbD j) := by
  rw [BitVec.getLsbD_and, BitVec.getLsbD_not, BitVec.getLsbD_twoPow, Bool.and_comm]
  by_cases h : j = i
  · subst h
    simp [hj]
  · simp [h, Ne.symm h, hj]

/-- A mask that finds nothing covers no marked bit. -/
theorem and_eq_zero_of_covered {x mask b : BitVec w} (hb : mask &&& b = b)
    (h : x &&& mask = 0#w) : x &&& b = 0#w := by
  rw [← hb, ← BitVec.and_assoc, h, BitVec.zero_and]

end

/-! ## One key after the other -/

variable {μ κ β : Type} {update : μ → κ → μ} {marked : μ → κ → Bool}

/-- The loop over some of the keys: those that are marked get their new value,
the others keep theirs. -/
theorem foldl_update [DecidableEq κ] (val : μ → κ → β) (new : κ → β)
    (hval : ∀ m k k', val (update m k) k' = if k' = k then new k' else val m k')
    (hmarked : ∀ m k k', marked (update m k) k' = marked m k') (ks : List κ) (m : μ) (k' : κ) :
    val (ks.foldl (fun m k => if marked m k then update m k else m) m) k'
      = if k' ∈ ks ∧ marked m k' = true then new k' else val m k' := by
  induction ks generalizing m with
  | nil => simp
  | cons k ks ih =>
    rw [List.foldl_cons, ih]
    by_cases hk : marked m k = true
    · rw [if_pos hk, hmarked, hval]
      by_cases he : k' = k
      · subst he
        simp [hk]
      · simp [he]
    · rw [if_neg hk]
      by_cases he : k' = k
      · subst he
        simp [hk]
      · simp [he]

/-- What no update changes, the loop leaves. -/
theorem foldl_frame {γ : Type} (seen : μ → γ) (hseen : ∀ m k, seen (update m k) = seen m)
    (ks : List κ) (m : μ) :
    seen (ks.foldl (fun m k => if marked m k then update m k else m) m) = seen m := by
  induction ks generalizing m with
  | nil => rfl
  | cons k ks ih =>
    rw [List.foldl_cons, ih]
    split
    · exact hseen m k
    · rfl

end Machine
