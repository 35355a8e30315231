import CiaServer.Cti.HangUp

/-!
# One attempt of a request (`cti_callout`, `cti_callout_again`)

An `Attempt` is one call of `cti_callout`: the state it starts from, what the
driver answers and how far the clock moves. It ends in one of six ways
(`AttemptStep`); `attempt_step` says which. `ctiCallout_solo` ties it to the
thread of the step relation.
-/

namespace CiaServer.Cti

open Interleave

/-- One call of `cti_callout`. -/
structure Attempt where
  before : Shared
  driver : Driver
  took : Nat

/-- How an attempt ends: no free channel, `SsmAutoDial` not zero, or zero. -/
inductive Outcome where
  | busy
  | failed
  | dialled
  deriving DecidableEq, Repr

namespace Attempt

/-- What the queue and the driver make of an attempt. -/
def outcome (a : Attempt) : Outcome :=
  match a.before.channelQueue with
  | [] => .busy
  | c :: _ => if a.driver.ssmAutoDial c = 0 then .dialled else .failed

/-- The clock when the attempt comes to `cti_callout_again` or to its trunk. -/
def decided (a : Attempt) : Nat := a.before.now + a.took

/-- The state the attempt leaves. -/
def after (a : Attempt) (x : Nat) : Shared := ((ctiCallout a.driver a.took x).exec a.before).2

/-- The lock of a dialled trunk is free. -/
def LockFree (a : Attempt) : Prop :=
  ∀ c rest, a.before.channelQueue = c :: rest → a.driver.ssmAutoDial c = 0 →
    ∃ t, a.before.trunkVector[c]? = some t ∧ t.trunkMutex = false

theorem outcome_busy {a : Attempt} (hq : a.before.channelQueue = []) : a.outcome = .busy := by
  rw [outcome, hq]

theorem outcome_dialled {a : Attempt} {c : Nat} {rest : List Nat}
    (hq : a.before.channelQueue = c :: rest) (hd : a.driver.ssmAutoDial c = 0) :
    a.outcome = .dialled := by
  rw [outcome, hq]
  exact if_pos hd

theorem outcome_failed {a : Attempt} {c : Nat} {rest : List Nat}
    (hq : a.before.channelQueue = c :: rest) (hd : a.driver.ssmAutoDial c ≠ 0) :
    a.outcome = .failed := by
  rw [outcome, hq]
  exact if_neg hd

end Attempt

/-! ## The six ways an attempt ends -/

/-- What `cti_callout_again` does at the end of an attempt in state `sh`. -/
def Shared.again (sh : Shared) (x : Nat) (p : CallOutParam) : Shared :=
  if 25000 < p.elapsed sh.now then sh.respond (some x) (p.response ciaCallTimeout)
  else { sh with params := sh.params.set x (p.armTimer sh.now), waits := sh.waits ++ [x] }

/-- The attempt's dial failed and its channel is back. -/
def Attempt.putBack (a : Attempt) (c : Nat) (rest : List Nat) : Shared :=
  { a.before with channelQueue := rest ++ [c], now := a.decided }

/-- How attempt `a` of request `x`, whose record is `p`, ends. -/
inductive AttemptStep (a : Attempt) (x : Nat) (p : CallOutParam) : Shared → Prop where
  | busy (hq : a.before.channelQueue = []) :
      AttemptStep a x p ({ a.before with now := a.decided }.again x p)
  | failedOnce {c : Nat} {rest : List Nat} (hq : a.before.channelQueue = c :: rest)
      (hd : a.driver.ssmAutoDial c ≠ 0) (hr : p.repeatCallOut = true) :
      AttemptStep a x p
        ({ a.putBack c rest with
          params := a.before.params.set x { p with repeatCallOut := false } }.again x
            { p with repeatCallOut := false })
  | failedTwice {c : Nat} {rest : List Nat} (hq : a.before.channelQueue = c :: rest)
      (hd : a.driver.ssmAutoDial c ≠ 0) (hr : p.repeatCallOut = false) :
      AttemptStep a x p ((a.putBack c rest).respond (some x) (p.response ciaCallFail))
  | dialled {c : Nat} {rest : List Nat} {t : Trunk} (hq : a.before.channelQueue = c :: rest)
      (hd : a.driver.ssmAutoDial c = 0) (ht : a.before.trunkVector[c]? = some t)
      (hm : t.trunkMutex = false) :
      AttemptStep a x p
        (({ a.before with
          channelQueue := rest, now := a.decided, calls := a.before.calls.set c (some x)
          log := .dialled x c :: a.before.log }.modifyTrunk c (.fill p a.decided)).note
            (.recorded x c a.decided))

theorem exec_paramAt {sh : Shared} {x : Nat} {p : CallOutParam} (hp : sh.params[x]? = some p) :
    (paramAt x).exec sh = (.ok p, sh) := by
  rw [paramAt, Routine.exec_bind_ok (Routine.exec_get sh), hp]
  rfl

theorem exec_ctiCalloutAgain {sh : Shared} {x : Nat} {p : CallOutParam}
    (hp : sh.params[x]? = some p) : (ctiCalloutAgain x).exec sh = (.ok (), sh.again x p) := by
  rw [ctiCalloutAgain, Routine.exec_bind_ok (exec_paramAt hp),
    Routine.exec_bind_ok (Routine.exec_get sh), Shared.again]
  split <;> rfl

/-- The record is still there after it was written. -/
theorem getElem?_set_record {ps : List CallOutParam} {x : Nat} {p : CallOutParam}
    (hp : ps[x]? = some p) (p' : CallOutParam) : (ps.set x p')[x]? = some p' :=
  List.getElem?_set_self (List.getElem?_eq_some_iff.mp hp).1

/-- **An attempt returns, and ends in one of these ways.** -/
theorem attempt_step {a : Attempt} {x : Nat} {p : CallOutParam}
    (hp : a.before.params[x]? = some p) (hf : a.LockFree) :
    ((ctiCallout a.driver a.took x).exec a.before).1 = .ok () ∧ AttemptStep a x p (a.after x) := by
  -- every way is an equation for the whole call
  suffices h : ∃ sh', (ctiCallout a.driver a.took x).exec a.before = (.ok (), sh') ∧
      AttemptStep a x p sh' by
    obtain ⟨sh', hex, hstep⟩ := h
    rw [Attempt.after, hex]
    exact ⟨rfl, hstep⟩
  rw [ctiCallout, Routine.exec_bind_ok (Routine.exec_get _)]
  cases hq : a.before.channelQueue with
  | nil =>
    refine ⟨_, ?_, .busy hq⟩
    rw [Routine.exec_bind_ok (Routine.exec_modify _ _)]
    exact exec_ctiCalloutAgain hp
  | cons c rest =>
    dsimp only
    rw [Routine.exec_bind_ok (Routine.exec_modify _ _)]
    by_cases hd : a.driver.ssmAutoDial c = 0
    · obtain ⟨t, ht, hm⟩ := hf c rest hq hd
      let sh₁ : Shared :=
        { a.before with channelQueue := rest, now := a.before.now + a.took }.note (.dialled x c)
      have ht₁ : sh₁.trunkVector[c]? = some t := ht
      have hp₁ : sh₁.params[x]? = some p := hp
      refine ⟨_, ?_, .dialled hq hd ht hm⟩
      rw [if_pos hd, Routine.exec_bind_ok (Routine.exec_modify _ _),
        Routine.exec_bind_ok (exec_trunkAt_some ht₁), hm]
      simp only [Bool.false_eq_true, if_false]
      rw [Routine.exec_bind_ok (exec_paramAt hp₁)]
      rfl
    · let sh₁ : Shared :=
        { a.before with channelQueue := rest ++ [c], now := a.before.now + a.took }
      have hp₁ : sh₁.params[x]? = some p := hp
      rw [if_neg hd, Routine.exec_bind_ok (Routine.exec_modify _ _),
        Routine.exec_bind_ok (exec_paramAt hp₁)]
      cases hr : p.repeatCallOut with
      | true =>
        let p' : CallOutParam := { p with repeatCallOut := false }
        have hp₂ : ({ sh₁ with params := sh₁.params.set x p' } : Shared).params[x]? = some p' :=
          getElem?_set_record hp₁ p'
        refine ⟨_, ?_, .failedOnce hq hd hr⟩
        simp only [if_true]
        rw [Routine.exec_bind_ok (Routine.exec_modify _ _)]
        exact exec_ctiCalloutAgain hp₂
      | false =>
        refine ⟨_, ?_, .failedTwice hq hd hr⟩
        simp only [Bool.false_eq_true, if_false]
        rfl

/-! ## An attempt as steps of a thread -/

section
variable {cfg : Config} {d : Driver} {n i : Nat} {sh : Shared} {x c : Nat}

theorem alone_callout {pt : CalloutPc} {pc' : Pc} {sh' : Shared} {b : Shared × Pc}
    (hrun : sh.crashed = false)
    (h : execCallout sh x (d.answer (.callout x pt)) pt = some (sh', pc'))
    (hb : Alone cfg d n i (sh', pc') b) : Alone cfg d n i (sh, .callout x pt) b := by
  refine Program.Solo.head ?_ hb
  show exec cfg sh i (.callout x pt) (d.answer (.callout x pt)) = some (sh', pc')
  rw [exec.eq_def, hrun]
  exact h

/-- Time passes. -/
theorem alone_tick {pc : Pc} {b : Shared × Pc} (took : Nat) (hrun : sh.crashed = false)
    (hb : Alone cfg d n i ({ sh with now := sh.now + took }, pc) b) :
    Alone cfg d n i (sh, pc) b := by
  refine Program.Solo.trans (.single (.env (a := .tick took) ⟨took, rfl⟩ ?_)) hb
  show env sh n (.tick took) = _
  rw [env.eq_def, hrun]
  rfl

/-- `cti_callout_again` to its end. -/
theorem alone_again {p : CallOutParam} (hrun : sh.crashed = false) (hp : sh.params[x]? = some p) :
    Alone cfg d n i (sh, .callout x .again) (sh.again x p, .done) := by
  refine alone_callout hrun ?_ .refl
  rw [Shared.again]
  by_cases ht : 25000 < p.elapsed sh.now
  · simp only [execCallout, hp, if_pos ht]
  · simp only [execCallout, hp, if_neg ht]

/-- The dial of a thread that has taken a channel. -/
theorem alone_take {a : Attempt} {c : Nat} {rest : List Nat} {b : Shared × Pc}
    (hrun : a.before.crashed = false) (hq : a.before.channelQueue = c :: rest)
    (hb : Alone cfg d n i
      ({ a.before with channelQueue := rest, now := a.decided }, .callout x (.dial c)) b) :
    Alone cfg d n i (a.before, .callout x .take) b := by
  have htake : execCallout a.before x 0 .take
      = some ({ a.before with channelQueue := rest }, .callout x (.dial c)) := by
    simp only [execCallout, hq]
  exact alone_callout hrun htake (alone_tick a.took hrun hb)

/-- The failed dial of a thread and the return of its channel. -/
theorem alone_dialFailed {a : Attempt} {c : Nat} {rest : List Nat} {b : Shared × Pc}
    (hrun : a.before.crashed = false) (hq : a.before.channelQueue = c :: rest)
    (hd : a.driver.ssmAutoDial c ≠ 0)
    (hb : Alone cfg a.driver n i (a.putBack c rest, .callout x .failed) b) :
    Alone cfg a.driver n i (a.before, .callout x .take) b := by
  have hdial : execCallout { a.before with channelQueue := rest, now := a.decided } x
      (a.driver.ssmAutoDial c) (.dial c)
      = some ({ a.before with channelQueue := rest, now := a.decided }, .callout x (.put c)) :=
    if_neg hd
  exact alone_take hrun hq (alone_callout hrun hdial (alone_callout hrun rfl hb))

/-- **An attempt is what its thread does by itself.** -/
theorem ctiCallout_solo {a : Attempt} {p : CallOutParam} (hrun : a.before.crashed = false)
    (hp : a.before.params[x]? = some p) (hf : a.LockFree) :
    Alone cfg a.driver n i (a.before, .callout x .take) (a.after x, .done) := by
  have hstep := (attempt_step hp hf).2
  generalize a.after x = sh' at hstep
  cases hstep with
  | busy hq =>
    have htake : execCallout a.before x 0 .take = some (a.before, .callout x .again) := by
      simp only [execCallout, hq]
    exact alone_callout hrun htake (alone_tick a.took hrun (alone_again hrun hp))
  | @failedOnce c rest hq hd hr =>
    have hfailed : execCallout (a.putBack c rest) x 0 .failed
        = some ({ a.putBack c rest with
          params := a.before.params.set x { p with repeatCallOut := false } },
          .callout x .again) := by
      simp only [execCallout, Attempt.putBack, hp, hr, if_true]
    exact alone_dialFailed hrun hq hd
      (alone_callout hrun hfailed (alone_again hrun (getElem?_set_record hp _)))
  | @failedTwice c rest hq hd hr =>
    have hfailed : execCallout (a.putBack c rest) x 0 .failed
        = some ((a.putBack c rest).respond (some x) (p.response ciaCallFail), .done) := by
      simp only [execCallout, Attempt.putBack, hp, hr, Bool.false_eq_true, if_false]
    exact alone_dialFailed hrun hq hd (alone_callout hrun hfailed .refl)
  | @dialled c rest t hq hd ht hm =>
    let sh₁ : Shared := { a.before with
      channelQueue := rest, now := a.decided, log := .dialled x c :: a.before.log }
    have ht₁ : sh₁.trunkVector[c]? = some t := ht
    have hdial : execCallout { a.before with channelQueue := rest, now := a.decided } x
        (a.driver.ssmAutoDial c) (.dial c) = some (sh₁, .callout x (.lock c)) := if_pos hd
    have hlock : execCallout sh₁ x 0 (.lock c)
        = some (sh₁.modifyTrunk c (.setMutex true), .callout x (.fill c)) := by
      simp only [execCallout, ht₁, hm, Bool.false_eq_true, if_false]
    have hfill : execCallout (sh₁.modifyTrunk c (.setMutex true)) x 0 (.fill c)
        = some (({ sh₁.modifyTrunk c (.setMutex true) with
            calls := a.before.calls.set c (some x) }.modifyTrunk c (.fill p a.decided)).note
            (.recorded x c a.decided), .callout x (.unlock c)) := by
      have hp₁ : (sh₁.modifyTrunk c (.setMutex true)).params[x]? = some p := hp
      simp only [execCallout, hp₁]
      rfl
    refine alone_take hrun hq (alone_callout hrun hdial (alone_callout hrun hlock
      (alone_callout hrun hfill (alone_callout hrun rfl ?_))))
    -- locked, filled in and unlocked, the trunk is filled in
    have hv := modify_locked (f := .fill p a.decided) ht₁ hm fun _ => rfl
    simp only [Shared.modifyTrunk, Shared.note, hv]
    exact .refl

end

end CiaServer.Cti
