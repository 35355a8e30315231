import Mathlib.Algebra.BigOperators.Group.Finset.Basic
import Mathlib.Algebra.BigOperators.Intervals
import CiaServer.Interleave.Runs
import CiaServer.Interleave.Tokens

/-!
# What a run notes

`noted` collects what the events of a run note, in the order in which they
happened, each note read off the state it happened in. `noted_balance` is the
rule for a quantity that every event changes by what it notes and by what it
brings in (`h`): over a whole run the three balance. `noted_le` bounds the notes
where an event may also lose some of it.

`noted_sublist` is the rule for what is passed on: notes of one kind are notes
of another, in their order, if what is on its way is. `noted_last` is the rule
for what is overwritten.

The sums at the end turn a count for each name into one for all.
-/

namespace Interleave

variable {σ α β γ ℓ : Type}

/-- What the events note, until one is not possible. -/
def noted (step : σ → α → Option σ) (g : σ → α → Option β) : σ → List α → List β
  | _, [] => []
  | s, a :: as =>
    (g s a).toList ++
      match step s a with
      | none => []
      | some s' => noted step g s' as

section
variable {step : σ → α → Option σ} {g : σ → α → Option β}

theorem noted_cons {s s' : σ} {a : α} (h : step s a = some s') (as : List α) :
    noted step g s (a :: as) = (g s a).toList ++ noted step g s' as := by
  simp only [noted, h]

/-- What is noted is noted by one of the events, in a state that the run comes to. -/
theorem mem_noted (I : σ → Prop) (hI : ∀ s a s', I s → step s a = some s' → I s') {b : β} :
    ∀ {as : List α} {s : σ}, I s → b ∈ noted step g s as → ∃ t a, I t ∧ g t a = some b
  | [], _, _, h => by cases h
  | a :: as, s, hi, h => by
    unfold noted at h
    rcases List.mem_append.mp h with hb | hb
    · exact ⟨s, a, hi, Option.mem_toList.mp hb⟩
    · split at hb
      · cases hb
      · next t ht => exact mem_noted I hI (hI s a t hi ht) hb

/-! ## Counting the notes -/

theorem count_toList [DecidableEq β] (o : Option β) (k : β) :
    o.toList.count k = if o = some k then 1 else 0 := by
  cases o with
  | none => rfl
  | some b => rw [Option.toList_some, List.count_singleton]; simp only [beq_iff_eq, Option.some.injEq]

/-- What is so for one event, in the sense of `r`, is so for a run. -/
theorem noted_rule [DecidableEq β] {r : Nat → Nat → Prop} (hrefl : ∀ a, r a a)
    (hadd : ∀ a b c d, r a b → r c d → r (a + c) (b + d))
    (hcancel : ∀ a b c, r (a + c) (b + c) → r a b)
    (I : σ → Prop) (f h : σ → Nat) (k : β)
    (hI : ∀ s a s', I s → step s a = some s' → I s')
    (hstep : ∀ s a s', I s → step s a = some s' →
      r (f s' + (if g s a = some k then 1 else 0) + h s) (f s + h s')) :
    ∀ {as : List α} {s s' : σ}, I s → runs step s as = some s' →
      r (f s' + (noted step g s as).count k + h s) (f s + h s')
  | [], s, s', _, hrun => by
    cases hrun
    exact hrefl _
  | a :: as, s, s', hi, hrun => by
    obtain ⟨t, ht, hrun⟩ := runs_cons.mp hrun
    have ih := noted_rule hrefl hadd hcancel I f h k hI hstep (hI s a t hi ht) hrun
    have hboth := hadd _ _ _ _ (hstep s a t hi ht) ih
    rw [noted_cons ht, List.count_append, count_toList]
    -- what the state in between adds on both sides is taken away again
    refine hcancel _ _ (f t + h t) ?_
    convert hboth using 1 <;> omega

/-- The balance of a run, if every event keeps it. -/
theorem noted_balance [DecidableEq β] (I : σ → Prop) (f h : σ → Nat) (k : β)
    (hI : ∀ s a s', I s → step s a = some s' → I s')
    (hstep : ∀ s a s', I s → step s a = some s' →
      f s' + (if g s a = some k then 1 else 0) + h s = f s + h s')
    {as : List α} {s s' : σ} (hi : I s) (hrun : runs step s as = some s') :
    f s' + (noted step g s as).count k + h s = f s + h s' := by
  refine noted_rule (r := (· = ·)) (fun _ => rfl) ?_ ?_ I f h k hI hstep hi hrun
  · intro a b c d hab hcd
    rw [hab, hcd]
  · intro a b c hab
    exact Nat.add_right_cancel hab

/-- The notes of a run, if every event that makes one takes it off `f`. -/
theorem noted_le [DecidableEq β] (I : σ → Prop) (f h : σ → Nat) (k : β)
    (hI : ∀ s a s', I s → step s a = some s' → I s')
    (hstep : ∀ s a s', I s → step s a = some s' →
      f s' + (if g s a = some k then 1 else 0) + h s ≤ f s + h s')
    {as : List α} {s s' : σ} (hi : I s) (hrun : runs step s as = some s') :
    f s' + (noted step g s as).count k + h s ≤ f s + h s' := by
  refine noted_rule (r := (· ≤ ·)) Nat.le_refl ?_ ?_ I f h k hI hstep hi hrun
  · intro a b c d hab hcd
    exact Nat.add_le_add hab hcd
  · intro a b c hab
    exact Nat.le_of_add_le_add_right hab

/-! ## The order of the notes -/

/-- What is noted by `g` has been noted by `h`, in the same order, if every event passes on
what is under way (`f`) or has just come. -/
theorem noted_sublist {h : σ → α → Option β} (f : σ → List β)
    (hstep : ∀ s a s', step s a = some s' →
      ((g s a).toList ++ f s').Sublist (f s ++ (h s a).toList)) :
    ∀ {as : List α} {s s' : σ}, runs step s as = some s' →
      (noted step g s as).Sublist (f s ++ noted step h s as)
  | [], _, _, _ => List.nil_sublist _
  | a :: as, s, s', hrun => by
    obtain ⟨t, ht, hrun⟩ := runs_cons.mp hrun
    have hrest := (noted_sublist f hstep hrun).append_left (g s a).toList
    have hhere := (hstep s a t ht).append_right (noted step h t as)
    rw [← List.append_assoc] at hrest
    rw [noted_cons ht, noted_cons ht, ← List.append_assoc]
    exact hrest.trans hhere

/-- The last note says what is there, if every note is what is there then and nothing else
changes it. -/
theorem noted_last (v : σ → γ) (f : β → γ)
    (hstep : ∀ s a s', step s a = some s' → v s' = (g s a).elim (v s) f) :
    ∀ {as : List α} {s s' : σ}, runs step s as = some s' →
      v s' = (noted step g s as).getLast?.elim (v s) f
  | [], _, _, hrun => by
    cases hrun
    rfl
  | a :: as, s, s', hrun => by
    obtain ⟨t, ht, hrun⟩ := runs_cons.mp hrun
    rw [noted_last v f hstep hrun, noted_cons ht, hstep s a t ht, List.getLast?_append]
    cases (noted step g t as).getLast? with
    | none => cases g s a <;> rfl
    | some b => rfl

end

/-! ## Sums over all names -/

/-- Threads that hold one of the first `n` names each. -/
theorem sum_tokens {f : ℓ → Option Nat} {n : Nat} : ∀ {ts : List ℓ},
    (∀ l ∈ ts, ∀ k, f l = some k → k < n) →
      ∑ k ∈ Finset.range n, tokens f k ts = ts.countP fun l => (f l).isSome
  | [], _ => Finset.sum_eq_zero fun _ _ => rfl
  | l :: ts, h => by
    have ih := sum_tokens fun m hm => h m (List.mem_cons_of_mem _ hm)
    simp only [tokens_cons, Finset.sum_add_distrib, List.countP_cons]
    rw [ih, Nat.add_comm]
    refine congrArg (ts.countP _ + ·) ?_
    cases hf : f l with
    | none => exact Finset.sum_eq_zero fun k _ => tok_of_none hf
    | some d =>
      have hd := h l (List.mem_cons_self ..) d hf
      rw [Finset.sum_eq_single_of_mem d (Finset.mem_range.mpr hd)]
      · exact tok_of_eq hf
      · intro k _ hk
        exact tok_of_ne fun he => hk (Option.some.inj (hf.symm.trans he)).symm

/-- A list of some of the first `n` numbers. -/
theorem sum_count {n : Nat} {ks : List Nat} (h : ∀ k ∈ ks, k < n) :
    ∑ k ∈ Finset.range n, ks.count k = ks.length := by
  simp only [← tokens_some_eq_count]
  rw [sum_tokens fun k hk d hd => Option.some.inj hd ▸ h k hk]
  exact congrFun List.countP_true ks

/-- Of `n` entries, those that satisfy `p`. -/
theorem sum_entries (p : β → Bool) : ∀ bs : List β,
    ∑ k ∈ Finset.range bs.length, (bs[k]?.any p).toNat = bs.countP p
  | [] => rfl
  | b :: bs => by
    rw [List.length_cons, Finset.sum_range_succ', List.countP_cons, ← sum_entries p bs]
    refine congrArg _ ?_
    show (p b).toNat = _
    cases p b <;> rfl

end Interleave
