import CiaServer.Cti.FalseSuccess

/-!
# Calls that are safe from a failure

A recorded call is *guarded* when its trunk is asleep or marked for the
hang-up and nobody is about to fail it, or when a thread has the trunk locked
that will leave it so or answer the call with success. `Guarded.step`: a
guarded call stays guarded until it is answered, unless a failure slips in
between `TRK_HUNGUP` and the hang-up.
-/

namespace CiaServer.Cti

open Interleave

/-! ## The flag of a call's trunk -/

/-- The call is to be hung up at the first ring. -/
def Shared.wants (sh : Shared) (x : Nat) : Bool := (sh.params[x]?).any (·.hungupByEchoTone)

/-- A step of a thread never changes the flag a request was made with. -/
theorem thread_wants {cfg : Config} {sh sh' : Shared} {i : Nat} {pc pc' : Pc}
    (h : ThreadStep cfg sh i pc sh' pc') (x : Nat) : sh'.wants x = sh.wants x := by
  have hset : ∀ {y : Nat} {p q : CallOutParam}, sh.params[y]? = some p →
      q.hungupByEchoTone = p.hungupByEchoTone →
      ((sh.params.set y q)[x]?).any (·.hungupByEchoTone) = sh.wants x := by
    intro y p q hp hq
    unfold Shared.wants
    by_cases hyx : y = x
    · subst hyx
      rw [List.getElem?_set_self (List.getElem?_eq_some_iff.mp hp).1, hp]
      exact hq
    · rw [List.getElem?_set_ne hyx]
  cases h with
  | callout h =>
    cases h with
    | secondTry hp => exact hset hp rfl
    | armed hp =>
      refine hset hp ?_
      unfold CallOutParam.armTimer
      split <;> rfl
    | _ => rfl
  | @hangUp k _ _ _ _ _ h =>
    cases h with
    | noTrunk => cases k <;> rfl
    | _ => rfl
  | autoDial h => rw [Shared.wants, (autoDial_sameCalls h).params]; rfl
  | timeoutCheck h => rw [Shared.wants, (timeoutCheck_sameCalls h).params]; rfl
  | strategy h => rw [Shared.wants, (strategy_sameCalls h).params]; rfl
  | ret => rfl

theorem env_wants {sh sh' : Shared} {i : Nat} {a : Action} {new : List Pc}
    (h : EnvStep sh i a sh' new) {x : Nat} (hx : x < sh.params.length) :
    sh'.wants x = sh.wants x := by
  cases h with
  | call =>
    unfold Shared.wants
    rw [List.getElem?_append_left hx]
  | _ => rfl

/-- The flag of a trunk whose call is to be hung up at the first ring is set. -/
def FlagInv (sh : Shared) : Prop :=
  ∀ (c x : Nat) (t : Trunk), sh.callOn c = some x → sh.wants x = true →
    sh.trunkVector[c]? = some t → t.hungupByEchoTone = true

theorem FlagInv.congr {sh sh' : Shared} (hF : FlagInv sh) (hv : sh'.trunkVector = sh.trunkVector)
    (hc : sh'.calls = sh.calls) (hw : ∀ c x, sh.callOn c = some x → sh'.wants x = sh.wants x) :
    FlagInv sh' := by
  intro c x t hx hwx ht
  rw [callOn_congr hc] at hx
  rw [hv] at ht
  exact hF c x t hx ((hw c x hx) ▸ hwx) ht

/-- A write that clears no flag and changes no call. -/
theorem FlagInv.modify {sh sh' : Shared} (hF : FlagInv sh) {d : Nat} {f : Trunk → Trunk}
    (hv : sh'.trunkVector = sh.trunkVector.modify d f) (hc : sh'.calls = sh.calls)
    (hw : ∀ x, sh'.wants x = sh.wants x)
    (hf : ∀ t, t.hungupByEchoTone = true → (f t).hungupByEchoTone = true) : FlagInv sh' := by
  intro c x t' hx hwx ht'
  rw [callOn_congr hc] at hx
  rw [hw] at hwx
  rw [show sh'.trunkVector = (sh.modifyTrunk d f).trunkVector from hv, getElem?_modifyTrunk] at ht'
  by_cases hd : d = c
  · rw [if_pos hd] at ht'
    cases ht : sh.trunkVector[c]? with
    | none => rw [ht] at ht'; cases ht'
    | some t =>
      rw [ht] at ht'
      cases ht'
      exact hf t (hF c x t hx hwx ht)
  · rw [if_neg hd] at ht'
    exact hF c x t' hx hwx ht'

/-- A trunk and the call on it are written together. -/
theorem FlagInv.write {sh sh' : Shared} (hF : FlagInv sh) {d : Nat} {v : Option Nat}
    {f : Trunk → Trunk} (hv : sh'.trunkVector = sh.trunkVector.modify d f)
    (hc : sh'.calls = sh.calls.set d v) (hw : ∀ x, sh'.wants x = sh.wants x)
    (hnew : ∀ x t, v = some x → sh.wants x = true → (f t).hungupByEchoTone = true) :
    FlagInv sh' := by
  intro c x t' hx hwx ht'
  rw [hw] at hwx
  rw [show sh'.trunkVector = (sh.modifyTrunk d f).trunkVector from hv, getElem?_modifyTrunk] at ht'
  rcases callOn_set_cases hc hx with ⟨hdc, hx⟩ | ⟨hdc, hx⟩
  · rw [if_neg hdc] at ht'
    exact hF c x t' hx hwx ht'
  · rw [if_pos hdc] at ht'
    obtain ⟨t, _, rfl⟩ := Option.map_eq_some_iff.mp ht'
    exact hnew x t hx hwx

theorem thread_flag {cfg : Config} {sh sh' : Shared} {i : Nat} {pc pc' : Pc}
    (h : ThreadStep cfg sh i pc sh' pc') (hF : FlagInv sh) : FlagInv sh' := by
  have hw := thread_wants h
  cases thread_write h with
  | nothing hv hc => exact hF.congr hv hc fun _ x _ => hw x
  | mutex hv hc => exact hF.modify hv hc hw fun _ hf => hf
  | filled hp hv hc =>
    -- the flag on the trunk is the one of the request that is filled in
    refine hF.write hv hc hw fun y t hy hwy => ?_
    cases hy
    rw [Shared.wants, hp] at hwy
    exact hwy
  | released hv hc => exact hF.write hv hc hw fun _ _ hy => nomatch hy
  | slept hv hc => exact hF.modify hv hc hw fun _ hf => hf
  | flagged hv hc => exact hF.modify hv hc hw fun _ _ => rfl
  | hungup hv hc => exact hF.modify hv hc hw fun _ hf => hf

variable {cfg : Config} {ok : Conf Shared Pc → Move Action Int → Prop} {s : Conf Shared Pc}

theorem reachable_flagInv (h : ReachableBy cfg ok s) : FlagInv s.shared := by
  obtain ⟨echo, h⟩ := h
  refine Program.Reach.rule (I := fun sh _ => FlagInv sh) ?_ ?_ ?_ h
  · intro c x t hx
    rw [initial_callOn c] at hx
    cases hx
  · intro sh ts a sh' new hreach hF _ henv
    have henv' := (env_step henv).2
    have hD := reachable_dialInv ⟨echo, hreach⟩
    have hH := reachable_holderInv ⟨echo, hreach⟩
    refine hF.congr (env_trunks henv').1 (env_trunks henv').2 fun c x hx => ?_
    exact env_wants henv' (made_of_dialled hD (hH.recorded c x hx))
  · intro sh ts i l r sh' l' _ hF _ _ hex
    exact thread_flag (exec_step hex).2 hF

/-! ## Guarded calls -/

def Shared.stepAt (sh : Shared) (c : Nat) : Option TrunkState := (sh.trunkVector[c]?).map (·.step)

/-- The trunk a thread has locked and leaves answered with success, asleep, or
marked for the hang-up. -/
def Pc.finishing : Pc → Option Nat
  | .autoDial c .setSleep => some c
  | .strategy (.sleep c) => some c
  | .strategy (.wake c _) => some c
  | pc => pc.reporting

/-- The trunk a thread is about to release with another status than success. -/
def Pc.failing : Pc → Option Nat
  | .hangUp _ c status .driver => if status = ciaCallSuccess then none else some c
  | .hangUp _ c status (.answer _) => if status = ciaCallSuccess then none else some c
  | _ => none

/-- The call on trunk `c` is safe from a failure: a thread with the lock is
finishing it, or it waits for its delayed hang-up and no failure is under
way. -/
def Guarded (sh : Shared) (ts : List Pc) (c : Nat) : Prop :=
  (∃ pc ∈ ts, pc.finishing = some c) ∨
    ((sh.stepAt c = some .sleep ∨ sh.stepAt c = some .hungup) ∧ ∀ pc ∈ ts, pc.failing ≠ some c)

instance (sh : Shared) (ts : List Pc) (c : Nat) : Decidable (Guarded sh ts c) :=
  inferInstanceAs (Decidable (_ ∨ _))

theorem stepAt_of_trunk {sh : Shared} {c : Nat} {t : Trunk} (ht : sh.trunkVector[c]? = some t) :
    sh.stepAt c = some t.step := by
  rw [Shared.stepAt, ht]
  rfl

/-! ## What one step does to a guarded call -/

theorem mutex_of_finishing {pc : Pc} {c : Nat} (h : pc.finishing = some c) :
    pc.mutex = some c := by
  unfold Pc.finishing at h
  split at h
  · exact h
  · exact h
  · exact h
  · exact mutex_of_reporting h

theorem mutex_of_failing {pc : Pc} {c : Nat} (h : pc.failing = some c) : pc.mutex = some c := by
  unfold Pc.failing at h
  split at h <;> first | (split at h <;> first | exact h | cases h) | cases h

/-- A hang-up that finishes a trunk does so with success. -/
theorem status_of_finishing {k : Caller} {d c : Nat} {status : Bytes} {p : HangUpPc}
    (h : (Pc.hangUp k d status p).finishing = some c) : status = ciaCallSuccess := by
  have h' : (Pc.hangUp k d status p).reporting = some c := h
  unfold Pc.reporting at h'
  by_contra hs
  cases p <;> simp only [if_neg hs] at h' <;> cases h'

/-- A thread that finishes a trunk with success does not fail it. -/
theorem failing_of_finishing {pc : Pc} {c : Nat} (h : pc.finishing = some c) :
    pc.failing ≠ some c := by
  intro hf
  unfold Pc.failing at hf
  split at hf
  · rw [if_pos (status_of_finishing h)] at hf
    cases hf
  · rw [if_pos (status_of_finishing h)] at hf
    cases hf
  · cases hf

/-- A thread comes to a failure only through the check of `cti_hangUp`. -/
theorem thread_failing {cfg : Config} {sh sh' : Shared} {i : Nat} {pc pc' : Pc}
    (h : ThreadStep cfg sh i pc sh' pc') {c : Nat} (hc : pc'.failing = some c) :
    pc.failing = some c ∨ ∃ k status t, pc = .hangUp k c status .check ∧ status ≠ ciaCallSuccess ∧
      sh.trunkVector[c]? = some t ∧ t.refusesHangUp = false := by
  cases h with
  | callout h => cases h <;> cases hc
  | @hangUp k d status _ _ _ h =>
    cases h with
    | noTrunk => cases k <;> cases hc
    | lockBusy => cases k <;> cases hc
    | unlocked => cases k <;> cases hc
    | accepted ht hr =>
      simp only [Pc.failing] at hc
      split at hc
      · cases hc
      · next hs =>
        cases hc
        exact Or.inr ⟨k, status, _, rfl, hs, ht, hr⟩
    | driven => exact Or.inl hc
    | nullClient => exact Or.inl hc
    | _ => cases hc
  | autoDial h =>
    rw [autoDial_none h (f := Pc.failing) (fun _ => rfl) (fun _ => rfl) rfl] at hc
    cases hc
  | timeoutCheck h => cases h <;> cases hc
  | strategy h => cases h <;> cases hc
  | ret => cases hc

theorem stepAt_modify {sh sh' : Shared} {d c : Nat} {f : Trunk → Trunk}
    (hv : sh'.trunkVector = sh.trunkVector.modify d f) :
    sh'.stepAt c = if d = c then (sh.trunkVector[c]?).map (fun t => (f t).step) else sh.stepAt c := by
  unfold Shared.stepAt
  rw [show sh'.trunkVector = (sh.modifyTrunk d f).trunkVector from hv, getElem?_modifyTrunk]
  split
  · rw [Option.map_map]
    rfl
  · rfl

theorem stepAt_keep {sh sh' : Shared} {d : Nat} {f : Trunk → Trunk}
    (hv : sh'.trunkVector = sh.trunkVector.modify d f) (hf : ∀ t, (f t).step = t.step) (c : Nat) :
    sh'.stepAt c = sh.stepAt c := by
  rw [stepAt_modify hv]
  simp only [hf]
  split <;> rfl

/-- Writing `m_step` of trunk `d` shows there and nowhere else. -/
theorem stepAt_setStep {sh sh' : Shared} {d c : Nat} {step : TrunkState}
    (hv : sh'.trunkVector = sh.trunkVector.modify d (.setStep step))
    (hc : sh.trunkVector[c]? ≠ none) :
    sh'.stepAt c = sh.stepAt c ∨ sh'.stepAt c = some step := by
  rw [stepAt_modify hv]
  split
  · cases ht : sh.trunkVector[c]? with
    | none => exact absurd ht hc
    | some t => exact Or.inr rfl
  · exact Or.inl rfl

/-- The step of a trunk that keeps its call changes only to the two that guard
it. -/
theorem thread_stepAt {cfg : Config} {sh sh' : Shared} {i : Nat} {pc pc' : Pc}
    (h : ThreadStep cfg sh i pc sh' pc') {c x : Nat} (hfill : ∀ y, pc ≠ .callout y (.fill c))
    (hx : sh'.callOn c = some x) (hc : sh.trunkVector[c]? ≠ none) :
    sh'.stepAt c = sh.stepAt c ∨ sh'.stepAt c = some .sleep ∨ sh'.stepAt c = some .hungup := by
  cases thread_write h with
  | nothing hv => exact Or.inl (by rw [Shared.stepAt, Shared.stepAt, hv])
  | mutex hv => exact Or.inl (stepAt_keep hv (by intro t; rfl) c)
  | filled _ hv =>
    refine Or.inl ((stepAt_modify hv).trans (if_neg ?_))
    rintro rfl
    exact hfill _ rfl
  | released hv hcalls =>
    -- a released trunk has no call any more, so it is another one
    rcases callOn_set_cases hcalls hx with ⟨hd, _⟩ | ⟨_, he⟩
    · exact Or.inl ((stepAt_modify hv).trans (if_neg hd))
    · cases he
  | slept hv => exact (stepAt_setStep hv hc).imp id Or.inl
  | flagged hv => exact Or.inl (stepAt_keep hv (by intro t; rfl) c)
  | hungup hv => exact (stepAt_setStep hv hc).imp id Or.inr

/-- The step a finishing thread takes: it goes on finishing, or leaves the
trunk asleep or marked. -/
theorem thread_finishing {cfg : Config} {sh sh' : Shared} {i : Nat} {pc pc' : Pc}
    (h : ThreadStep cfg sh i pc sh' pc') {c x : Nat} (hpc : pc.finishing = some c) {t : Trunk}
    (ht : sh.trunkVector[c]? = some t) (hflag : t.hungupByEchoTone = true) (hidle : t.step ≠ .idle)
    (hx : sh'.callOn c = some x) :
    pc'.finishing = some c ∨ sh'.stepAt c = some .sleep ∨ sh'.stepAt c = some .hungup := by
  cases h with
  | callout h => cases h <;> cases hpc
  | @hangUp k d status _ _ _ h =>
    cases h with
    -- with the flag set and the trunk busy, only `TRK_SLEEP` is refused
    | refused ht' hr =>
      have hd : d = c := Option.some.inj (mutex_of_finishing hpc)
      subst hd
      rw [ht] at ht'
      cases ht'
      refine Or.inr (Or.inl ((stepAt_of_trunk ht).trans ?_))
      rw [Trunk.refusesHangUp, hflag, beq_eq_false_iff_ne.mpr hidle] at hr
      exact congrArg some (beq_iff_eq.mp hr)
    | accepted => exact Or.inl hpc
    | driven => exact Or.inl hpc
    | nullClient => exact Or.inl hpc
    | answered =>
      have hd : d = c := Option.some.inj (mutex_of_finishing hpc)
      rcases callOn_set_cases rfl hx with ⟨hne, _⟩ | ⟨_, he⟩
      · exact absurd hd hne
      · cases he
    | _ => cases hpc
  | autoDial h =>
    cases h with
    | slept =>
      cases hpc
      refine Or.inr (Or.inl ((stepAt_modify rfl).trans ?_))
      rw [if_pos rfl, ht]
      rfl
    | _ => cases hpc
  | timeoutCheck h => cases h <;> cases hpc
  | strategy h =>
    cases h with
    | slept => exact Or.inl hpc
    | hungup =>
      cases hpc
      refine Or.inr (Or.inr ((stepAt_modify rfl).trans ?_))
      rw [if_pos rfl, ht]
      rfl
    | _ => cases hpc
  | ret => cases hpc

/-- **A guarded call stays guarded** while it is on its trunk, unless the step
is that of a failure that passes the check of `cti_hangUp` on a trunk marked
for the hang-up. -/
theorem Guarded.step {cfg : Config} {sh sh' : Shared} {ts : List Pc} {i : Nat} {pc pc' : Pc}
    (h : ThreadStep cfg sh i pc sh' pc') (hl : ts[i]? = some pc) (hL : LockInv sh ts) {c x : Nat}
    (hG : Guarded sh ts c) {t : Trunk} (ht : sh.trunkVector[c]? = some t)
    (hflag : t.hungupByEchoTone = true) (hidle : t.step ≠ .idle)
    (hfill : ∀ y, pc ≠ .callout y (.fill c)) (hx : sh'.callOn c = some x)
    (hfail : ∀ k status, pc = .hangUp k c status .check → status ≠ ciaCallSuccess →
      sh.stepAt c ≠ some .hungup) : Guarded sh' (ts.set i pc') c := by
  rcases hG with ⟨qc, hqc, hfin⟩ | ⟨hstep, hnofail⟩
  · -- a thread is finishing: it is another one, and still there, or it has just stepped
    obtain ⟨j, hj⟩ := List.mem_iff_getElem?.mp hqc
    by_cases hij : i = j
    · subst hij
      rw [hl] at hj
      cases hj
      rcases thread_finishing h hfin ht hflag hidle hx with hf | hs
      · exact Or.inl ⟨pc', mem_set_self hl pc', hf⟩
      · refine Or.inr ⟨hs, fun m hm hmf => ?_⟩
        rcases mem_set_cases hl hm with rfl | ⟨k, hik, hk⟩
        · rcases thread_failing h hmf with hf | ⟨k, status, _, rfl, hne, _⟩
          · exact failing_of_finishing hfin hf
          · exact hne (status_of_finishing hfin)
        · exact hik (mutex_unique hL hl (mutex_of_finishing hfin) hk (mutex_of_failing hmf))
    · exact Or.inl ⟨qc, mem_set_of_ne hij hj pc', hfin⟩
  · -- nobody is failing it: its step stays one of the two, and no failure may start
    have hs : sh'.stepAt c = some .sleep ∨ sh'.stepAt c = some .hungup := by
      rcases thread_stepAt h hfill hx (by rw [ht]; exact nofun) with he | hs
      · rw [he]
        exact hstep
      · exact hs
    by_cases hf : pc'.failing = some c
    · rcases thread_failing h hf with hf | ⟨k, status, t', rfl, hne, ht', hr⟩
      · exact absurd hf (hnofail pc (List.mem_of_getElem? hl))
      · -- the check lets no sleeping trunk pass
        rw [ht] at ht'
        cases ht'
        rw [stepAt_of_trunk ht] at hstep
        rcases hstep with he | he
        · rw [Trunk.refusesHangUp, Option.some.inj he] at hr
          simp at hr
        · exact absurd ((stepAt_of_trunk ht).trans he) (hfail k status rfl hne)
    · refine Or.inr ⟨hs, fun m hm hmf => ?_⟩
      rcases mem_set_cases hl hm with rfl | ⟨k, _, hk⟩
      · exact hf hmf
      · exact hnofail m (List.mem_of_getElem? hk) hmf

end CiaServer.Cti
