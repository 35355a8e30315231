import CiaServer.Interleave.Program

/-!
# How often a thread steps

`countP_isBy_le` bounds the steps of one thread in a run, whatever the others and
the environment do in between: each of its steps takes something off a weight
`w` of the shared state and its own place, and no other step adds to it.
-/

namespace Interleave

variable {σ ℓ α ρ : Type}

/-- Thread `i` steps. -/
def Move.isBy (i : Nat) : Move α ρ → Bool
  | .run j _ => i == j
  | .env _ => false

namespace Program

variable {P : Program σ ℓ α ρ} {ok : Conf σ ℓ → Move α ρ → Bool} {i : Nat}

/-- The step of another thread, or of the environment, leaves a thread where it is. -/
theorem step_other {s s' : Conf σ ℓ} {m : Move α ρ} (h : P.step s m = some s')
    (hm : m.isBy i = false) {l : ℓ} (hl : s.threads[i]? = some l) : s'.threads[i]? = some l := by
  have hlt := (List.getElem?_eq_some_iff.mp hl).1
  rcases step_cases h with ⟨a, sh, new, rfl, _, rfl⟩ | ⟨j, r, l', sh, l'', rfl, _, _, rfl⟩
  · show (s.threads ++ new)[i]? = some l
    rw [List.getElem?_append_left hlt]
    exact hl
  · have hij : j ≠ i := by
      rintro rfl
      rw [Move.isBy, beq_self_eq_true] at hm
      cases hm
    show (s.threads.set j l'')[i]? = some l
    rw [List.getElem?_set_ne hij]
    exact hl

/-- The steps of thread `i` in a run. -/
theorem countP_isBy_le (I : Conf σ ℓ → Prop) (w : σ → ℓ → Nat)
    (hI : ∀ s m s', I s → ok s m = true → P.step s m = some s' → I s')
    (hown : ∀ sh ts l r sh' l', I ⟨sh, ts⟩ → ok ⟨sh, ts⟩ (.run i r) = true → ts[i]? = some l →
      P.exec sh i l r = some (sh', l') → w sh' l' < w sh l)
    (hother : ∀ s m s' l, P.step s m = some s' → w s'.shared l ≤ w s.shared l) :
    ∀ {ms : List (Move α ρ)} {s s' : Conf σ ℓ} {l : ℓ}, I s → s.threads[i]? = some l →
      P.run ok s ms = some s' → ms.countP (Move.isBy i) ≤ w s.shared l
  | [], _, _, _, _, _, _ => by
    rw [List.countP_nil]
    exact Nat.zero_le _
  | m :: ms, s, s', l, hi, hl, h => by
    simp only [run] at h
    split at h
    · next hok =>
      split at h
      · cases h
      · next t ht =>
        have hi' := hI s m t hi hok ht
        rw [List.countP_cons]
        cases hm : m.isBy i with
        | false =>
          have ih := countP_isBy_le I w hI hown hother hi' (step_other ht hm hl) h
          have hle := hother s m t l ht
          rw [if_neg Bool.false_ne_true]
          omega
        | true =>
          cases m with
          | env a => cases hm
          | run j r =>
            obtain rfl : i = j := beq_iff_eq.mp hm
            simp only [step, hl] at ht
            obtain ⟨⟨sh', l'⟩, he, rfl⟩ := Option.map_eq_some_iff.mp ht
            have hlt := (List.getElem?_eq_some_iff.mp hl).1
            have ih := countP_isBy_le I w hI hown hother hi' (List.getElem?_set_self hlt) h
            have hlt' := hown s.shared s.threads l r sh' l' hi hok hl he
            rw [if_pos rfl]
            dsimp only at ih
            omega
    · cases h

end Program

end Interleave
