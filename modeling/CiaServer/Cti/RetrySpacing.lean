import CiaServer.Cti.RetryChain

/-!
# Are the retries two seconds apart?

`cti_callout_again` creates the request's timer the first time it is called and
sets its expiry only then. The timer stays with the request, so the second
`async_wait` is on a timer that has expired already and completes at once: from
the third attempt on a busy card is tried again without a pause, until the 25 s
are over.

`spaced_iff`: the attempts of a chain are spaced exactly if every wait is armed
on a fresh timer, that is, if none but the first attempt goes on waiting.
-/

namespace CiaServer.Cti

/-- The expiry of the timer of request `x`, once it has one. -/
def Shared.expiry (sh : Shared) (x : Nat) : Option Nat :=
  (sh.params[x]?).bind (·.repeatCallOutTimer)

/-- Every wait is armed to end 2000 ms later, and consecutive attempts are
2000 ms apart. -/
structure Spaced (x : Nat) (as : List Attempt) : Prop where
  expiry : ∀ a ∈ as, a.Arms x → (a.after x).expiry x = some (a.decided + 2000)
  apart : as.IsChain fun a b => a.before.now + 2000 ≤ b.before.now

/-- The attempt comes to `cti_callout_again` within the 25 seconds. -/
def Attempt.GoesOn (a : Attempt) (x : Nat) : Prop :=
  ∃ p, a.before.params[x]? = some p ∧ a.Again p ∧ ¬25000 < p.elapsed a.decided

/-- An attempt that goes on finds the request without a timer. -/
def FreshTimers (x : Nat) (as : List Attempt) : Prop :=
  ∀ a ∈ as, a.GoesOn x → a.before.expiry x = none

variable {q : CallOutParam} {x : Nat} {as : List Attempt} {a : Attempt}

/-- The attempts that go on are those that arm the timer. -/
theorem goesOn_iff (h : RetryChain expired q x as a) : a.GoesOn x ↔ a.Arms x := by
  obtain ⟨timer, hp⟩ := h.record
  constructor
  · rintro ⟨p, hp', hagain, ht⟩
    rw [hp] at hp'
    cases hp'
    cases attempt_ending hp h.lockFree with
    | timedOut _ ht' => exact absurd ht' ht
    | armed _ _ _ harms => exact harms
    | failed ho hr =>
      -- a second failed dial is not tried again
      rcases hagain with hbusy | ⟨_, hr'⟩
      · rw [ho] at hbusy
        cases hbusy
      · rw [hr] at hr'
        cases hr'
    | dialled ho => exact absurd ho (not_dialled_of_again hagain)
  · intro harms
    cases attempt_ending hp h.lockFree with
    | timedOut _ _ _ hw => exact absurd harms (not_arms_of_waits hw)
    | armed hagain ht => exact ⟨_, hp, hagain, ht⟩
    | failed _ _ _ hw => exact absurd harms (not_arms_of_waits hw)
    | dialled _ _ hw => exact absurd harms (not_arms_of_waits hw)

/-- A timer is set once. -/
theorem expiry_of_arms (h : RetryChain expired q x as a) (harms : a.Arms x) :
    (a.after x).expiry x = armedTimer (a.before.expiry x) a.decided := by
  obtain ⟨timer, hp⟩ := h.record
  have hafter := (ending_of_arms (attempt_ending hp h.lockFree) harms).2.2
  rw [onTheWay_dialFailed, onTheWay_armTimer] at hafter
  rw [Shared.expiry, Shared.expiry, hafter, hp]
  rfl

/-- An attempt that finds a timer was started by it. -/
theorem fired_of_expiry (h : RetryChain expired q x as a) {e : Nat}
    (he : a.before.expiry x = some e) : e ≤ a.before.now := by
  cases h with
  | first _ ht hp _ =>
    rw [Shared.expiry, hp] at he
    exact absurd (ht.symm.trans he) nofun
  | @retry _ _ _ p _ _ _ hb hfires _ =>
    rw [Shared.expiry, hb] at he
    have hp : p.repeatCallOutTimer = some e := he
    rw [expired, hp] at hfires
    exact hfires

/-- Each attempt of a chain is the newest of a shorter one. -/
theorem RetryChain.of_mem (h : RetryChain expired q x as a) {b : Attempt} (hb : b ∈ as ++ [a]) :
    ∃ bs, RetryChain expired q x bs b := by
  obtain ⟨pre, post, he⟩ := List.append_of_mem hb
  exact ⟨pre, h.cut he⟩

/-- Waits on fresh timers keep the attempts apart. -/
theorem apart_of_freshTimers (h : RetryChain expired q x as a) (hf : FreshTimers x as) :
    (as ++ [a]).IsChain fun a b => a.before.now + 2000 ≤ b.before.now := by
  induction h with
  | first => exact List.isChain_singleton _
  | @retry as a b p h harms ha hb hfires _ ih =>
    have hfresh := hf a (List.mem_append_right _ (List.mem_singleton_self a))
      ((goesOn_iff h).mpr harms)
    have hprev := ih fun c hc => hf c (List.mem_append_left _ hc)
    -- the timer that started `b` was set by `a`
    have hexpiry := expiry_of_arms h harms
    rw [hfresh, Shared.expiry, ha] at hexpiry
    have hp : p.repeatCallOutTimer = some (a.decided + 2000) := hexpiry
    rw [expired, hp] at hfires
    have hle : a.decided + 2000 ≤ b.before.now := hfires
    refine hprev.append (List.isChain_singleton b) ?_
    intro c hc d hd
    rw [List.getLast?_concat] at hc
    cases hc
    cases hd
    unfold Attempt.decided at hle
    omega

/-- **Retries are spaced exactly if no wait is armed on an old timer.** -/
theorem spaced_iff (h : RetryChain expired q x as a) :
    Spaced x (as ++ [a]) ↔ FreshTimers x (as ++ [a]) := by
  constructor
  · intro hs b hb hgoes
    obtain ⟨bs, hchain⟩ := h.of_mem hb
    have harms := (goesOn_iff hchain).mp hgoes
    cases he : b.before.expiry x with
    | none => rfl
    | some e =>
      -- an old timer has expired, so it does not expire two seconds later
      have hexpiry := expiry_of_arms hchain harms
      rw [he, hs.expiry b hb harms] at hexpiry
      have heq : b.decided + 2000 = e := Option.some.inj hexpiry
      have hfired := fired_of_expiry hchain he
      unfold Attempt.decided at heq
      omega
  · intro hf
    refine ⟨fun b hb harms => ?_, ?_⟩
    · obtain ⟨bs, hchain⟩ := h.of_mem hb
      rw [expiry_of_arms hchain harms, hf b hb ((goesOn_iff hchain).mpr harms)]
      rfl
    · exact apart_of_freshTimers h fun b hb => hf b (List.mem_append_left _ hb)

/-! ## One retry and two -/

/-- The request with its timer set. -/
def timedRequest : CallOutParam := { chainRequest with repeatCallOutTimer := some 2000 }

theorem chain_one : RetryChain expired chainRequest 0 [] (busyAttempt 0 chainRequest) :=
  .first rfl rfl rfl (lockFree_of_free (by decide))

theorem chain_two : RetryChain expired chainRequest 0 [busyAttempt 0 chainRequest]
    (dialAttempt 0 2000 timedRequest) :=
  .retry chain_one rfl rfl rfl (Nat.le_refl _) (lockFree_of_free (by decide))

/-- A busy card, and a dial two seconds later. -/
theorem spaced_two : Spaced 0 [busyAttempt 0 chainRequest, dialAttempt 0 2000 timedRequest] := by
  refine (spaced_iff chain_two).mpr ?_
  intro a ha hgoes
  rcases List.mem_cons.mp ha with rfl | ha
  · rfl
  · rw [List.mem_singleton.mp ha] at hgoes
    have harms := (goesOn_iff chain_two).mp hgoes
    exact absurd (congrArg List.length harms) (by decide)

/-- A card that stays busy: the third attempt comes at the time of the second. -/
theorem chain_busy : RetryChain expired chainRequest 0
    [busyAttempt 0 chainRequest, busyAttempt 2000 timedRequest] (busyAttempt 2000 timedRequest) := by
  have h₁ : RetryChain expired chainRequest 0 [busyAttempt 0 chainRequest]
      (busyAttempt 2000 timedRequest) :=
    .retry chain_one rfl rfl rfl (Nat.le_refl _) (lockFree_of_free (by decide))
  exact .retry h₁ rfl rfl rfl (Nat.le_refl _) (lockFree_of_free (by decide))

/-- **Retries are not always spaced.** -/
theorem spaced_fails : ¬∀ (q : CallOutParam) (x : Nat) (as : List Attempt) (a : Attempt),
    RetryChain expired q x as a → Spaced x (as ++ [a]) := by
  intro h
  have hs := (h _ _ _ _ chain_busy).apart
  have hpair := (List.isChain_cons_cons.mp hs).2
  exact absurd (List.isChain_pair.mp hpair) (by decide)

end CiaServer.Cti
