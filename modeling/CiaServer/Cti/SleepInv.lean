import CiaServer.Cti.Guard

/-!
# No trunk sleeps for ever

`cti_hangUp` and `timeout_check` leave a trunk in `TRK_SLEEP` alone. What gets
it out is its delayed hang-up: the channel's entry in `m_sleep_channel_queue`,
the ring handler that has yet to put it there, or the strategy thread that has
taken it and has yet to write `TRK_HUNGUP`. The queue may hold a channel many
times, and entries outlive the call they were made for; `SleepInv` does not
count them. It says that a sleeping trunk has one, and three lemmas about a
step carry it: a trunk falls asleep in the hands of its ring handler
(`thread_asleep`), an entry leaves the queue into the hands of a strategy
thread (`thread_dequeued`), and a thread lets go of a channel only into the
queue or after the trunk has left `TRK_SLEEP` (`thread_waking`).
-/

namespace CiaServer.Cti

open Interleave

/-- The channel a strategy thread has taken and not yet marked for its hang-up. -/
def StrategyPc.taken : StrategyPc → Option Nat
  | .lock c => some c
  | .sleep c => some c
  | .wake c _ => some c
  | _ => none

/-- The channel whose delayed hang-up is in the thread's hands. -/
def Pc.waking : Pc → Option Nat
  | .autoDial c (.put true) => some c
  | .strategy p => p.taken
  | _ => none

/-- A sleeping trunk's delayed hang-up is queued or in some thread's hands. -/
def SleepInv (sh : Shared) (ts : List Pc) : Prop :=
  ∀ c, sh.stepAt c = some .sleep → c ∈ sh.sleepChannelQueue ∨ ∃ pc ∈ ts, pc.waking = some c

/-! ## What one step does -/

/-- A trunk is put to sleep by a ring handler that has yet to queue it. -/
theorem thread_asleep {cfg : Config} {sh sh' : Shared} {i : Nat} {pc pc' : Pc}
    (h : ThreadStep cfg sh i pc sh' pc') {c : Nat} (hs : sh'.stepAt c = some .sleep) :
    sh.stepAt c = some .sleep ∨ pc'.waking = some c := by
  -- a write of another step is a write to another trunk
  have hother : ∀ {d : Nat} {f : Trunk → Trunk},
      sh'.trunkVector = sh.trunkVector.modify d f → (∀ t, (f t).step ≠ .sleep) →
      sh.stepAt c = some .sleep := by
    intro d f hv hf
    rw [stepAt_modify hv] at hs
    split at hs
    · obtain ⟨t, _, ht⟩ := Option.map_eq_some_iff.mp hs
      exact absurd ht (hf t)
    · exact hs
  cases thread_write h with
  | nothing hv => exact Or.inl (by rw [← hs, Shared.stepAt, Shared.stepAt, hv])
  | mutex hv => exact Or.inl ((stepAt_keep hv (by intro t; rfl) c).symm.trans hs)
  | filled _ hv => exact Or.inl (hother hv (by intro _ he; cases he))
  | released hv => exact Or.inl (hother hv (by intro _ he; cases he))
  | @slept d hv =>
    by_cases hd : d = c
    · subst hd
      cases h with
      | autoDial h =>
        cases h
        exact Or.inr rfl
    · rw [stepAt_modify hv, if_neg hd] at hs
      exact Or.inl hs
  | flagged hv => exact Or.inl ((stepAt_keep hv (by intro t; rfl) c).symm.trans hs)
  | hungup hv => exact Or.inl (hother hv (by intro _ he; cases he))

/-- An entry leaves the sleep queue into the hands of a strategy thread. -/
theorem thread_dequeued {cfg : Config} {sh sh' : Shared} {i : Nat} {pc pc' : Pc}
    (h : ThreadStep cfg sh i pc sh' pc') {c : Nat} (hq : c ∈ sh.sleepChannelQueue) :
    c ∈ sh'.sleepChannelQueue ∨ pc'.waking = some c := by
  cases h with
  | callout h => cases h <;> exact Or.inl hq
  | @hangUp k _ _ _ _ _ h =>
    cases h with
    | noTrunk => cases k <;> exact Or.inl hq
    | _ => exact Or.inl hq
  | autoDial h =>
    cases h with
    | queuedLocked => exact Or.inl (List.mem_append_left _ hq)
    | queued => exact Or.inl (List.mem_append_left _ hq)
    | _ => exact Or.inl hq
  | timeoutCheck h => cases h <;> exact Or.inl hq
  | strategy h =>
    cases h with
    | took hs =>
      rw [hs, List.mem_cons] at hq
      rcases hq with rfl | hq
      · exact Or.inr rfl
      · exact Or.inl hq
    | _ => exact Or.inl hq
  | ret => exact Or.inl hq

/-- A thread lets go of a sleeping trunk's channel only into the queue. -/
theorem thread_waking {cfg : Config} {sh sh' : Shared} {i : Nat} {pc pc' : Pc}
    (h : ThreadStep cfg sh i pc sh' pc') {c : Nat} (hw : pc.waking = some c)
    (hs : sh'.stepAt c = some .sleep) : c ∈ sh'.sleepChannelQueue ∨ pc'.waking = some c := by
  cases h with
  | callout h => cases hw
  | hangUp h => cases hw
  | timeoutCheck h => cases hw
  | ret => cases hw
  | autoDial h =>
    cases h with
    | queuedLocked =>
      cases hw
      exact Or.inl (List.mem_append_right _ (List.mem_singleton_self _))
    | _ => cases hw
  | strategy h =>
    cases h with
    | nothing => cases hw
    | took => cases hw
    | paused => cases hw
    | unlocked => cases hw
    | noTrunk ht =>
      -- the trunk that is asleep is there
      cases hw
      rw [Shared.stepAt, ht] at hs
      cases hs
    | locked => exact Or.inr hw
    | slept => exact Or.inr hw
    | hungup =>
      cases hw
      rw [stepAt_modify rfl, if_pos rfl] at hs
      obtain ⟨t, _, ht⟩ := Option.map_eq_some_iff.mp hs
      cases ht

theorem thread_sleepInv {cfg : Config} {sh sh' : Shared} {ts : List Pc} {i : Nat} {pc pc' : Pc}
    (h : ThreadStep cfg sh i pc sh' pc') (hl : ts[i]? = some pc) (hI : SleepInv sh ts) :
    SleepInv sh' (ts.set i pc') := by
  intro c hs
  have hself : ∀ {P : Prop}, P ∨ pc'.waking = some c →
      P ∨ ∃ m ∈ ts.set i pc', m.waking = some c :=
    fun hp => hp.imp id fun hw => ⟨pc', mem_set_self hl pc', hw⟩
  rcases thread_asleep h hs with hold | hw
  · rcases hI c hold with hq | ⟨m, hm, hw⟩
    · exact hself (thread_dequeued h hq)
    · obtain ⟨j, hj⟩ := List.mem_iff_getElem?.mp hm
      by_cases hij : i = j
      · subst hij
        rw [hl] at hj
        cases hj
        exact hself (thread_waking h hw hs)
      · exact Or.inr ⟨m, mem_set_of_ne hij hj pc', hw⟩
  · exact hself (Or.inr hw)

/-! ## Every run -/

variable {cfg : Config} {ok : Conf Shared Pc → Move Action Int → Prop} {s : Conf Shared Pc}

theorem env_sleepQueue {sh sh' : Shared} {i : Nat} {a : Action} {new : List Pc}
    (h : EnvStep sh i a sh' new) : sh'.sleepChannelQueue = sh.sleepChannelQueue := by
  cases h <;> rfl

theorem reachable_sleepInv (h : ReachableBy cfg ok s) : SleepInv s.shared s.threads := by
  obtain ⟨echo, h⟩ := h
  refine Program.Reach.rule ?_ ?_ ?_ h
  · intro c hs
    obtain ⟨t, ht, he⟩ := Option.map_eq_some_iff.mp hs
    obtain ⟨i, rfl⟩ := initial_trunk ht
    cases he
  · intro sh ts a sh' new _ hI _ henv c hs
    have henv' := (env_step henv).2
    rw [Shared.stepAt, (env_trunks henv').1] at hs
    rw [env_sleepQueue henv']
    rcases hI c hs with hq | ⟨m, hm, hw⟩
    · exact Or.inl hq
    · exact Or.inr ⟨m, List.mem_append_left _ hm, hw⟩
  · intro sh ts i l r sh' l' _ hI _ hl hex
    exact thread_sleepInv (exec_step hex).2 hl hI

/-- **No trunk is stranded in `TRK_SLEEP`**: its channel is in the sleep queue,
or a ring handler that put it to sleep has yet to queue it, or a strategy thread
has taken it and has yet to write `TRK_HUNGUP`. -/
theorem sleeperIsWoken (h : Reachable cfg s) {c : Nat} {t : Trunk}
    (ht : s.shared.trunkVector[c]? = some t) (hs : t.step = .sleep) :
    c ∈ s.shared.sleepChannelQueue ∨ .autoDial c (.put true) ∈ s.threads ∨
      ∃ p, .strategy p ∈ s.threads ∧ p.taken = some c := by
  rcases reachable_sleepInv h c ((stepAt_of_trunk ht).trans (congrArg some hs)) with
    hq | ⟨pc, hpc, hw⟩
  · exact Or.inl hq
  · unfold Pc.waking at hw
    split at hw
    · cases hw
      exact Or.inr (Or.inl hpc)
    · exact Or.inr (Or.inr ⟨_, hpc, hw⟩)
    · cases hw

/-- Two rings on a call, the second while the strategy thread sleeps with the
first: the trunk is asleep, and both wake-ups are still to come. -/
def twoRingsMoves : List (Move Action Int) :=
  [.env (.call 7 [1] [] [] true), .run 2 0, .run 2 0, .run 2 0, .run 2 0, .run 2 0,
   .env (.event .procAutoDial 0 .echotone), .run 3 0, .run 3 0, .run 3 0, .run 3 0, .run 3 0,
   .run 1 0, .run 1 0, .run 1 0,
   .env (.event .procAutoDial 0 .echotone), .run 4 0, .run 4 0, .run 4 0]

theorem sleeperIsWoken_twoRings :
    ∃ t, (after oneChannel anyMove (fun _ => true) twoRingsMoves).shared.trunkVector[0]? = some t ∧
      t.step = .sleep ∧
      (0 ∈ (after oneChannel anyMove (fun _ => true) twoRingsMoves).shared.sleepChannelQueue ∨
        .autoDial 0 (.put true) ∈ (after oneChannel anyMove (fun _ => true) twoRingsMoves).threads ∨
        ∃ p, .strategy p ∈ (after oneChannel anyMove (fun _ => true) twoRingsMoves).threads ∧
          p.taken = some 0) := by
  obtain ⟨t, ht⟩ : ∃ t,
      (after oneChannel anyMove (fun _ => true) twoRingsMoves).shared.trunkVector[0]? = some t :=
    Option.isSome_iff_exists.mp (by decide)
  have hs : t.step = .sleep := by
    have : some t.step = some .sleep := (stepAt_of_trunk ht).symm.trans (by decide)
    exact Option.some.inj this
  exact ⟨t, ht, hs, sleeperIsWoken (reachable_after (by decide)).reachable ht hs⟩

end CiaServer.Cti
