import CiaServer.Cti.VoiceCard

/-!
# What one step of a thread can be

The `exec…` functions of `VoiceCard` compute; the relations below say, once
and for all, what they can compute: one constructor for each way through a
program point, with the guard that was passed and the state that results. An
invariant is proved by `cases` on these and never unfolds an `exec…` function.

Most invariants are about the trunks only. `TrunkWrite` sums up what any step
writes there: nothing, a mutex, or one of the five writes of the source.
-/

namespace CiaServer.Cti

open Interleave (tok tokens tokens_eq_zero_iff)

/-- The steps of `cti_callout` and `cti_callout_again` for request `x`. -/
inductive CalloutStep (sh : Shared) (x : Nat) : CalloutPc → Shared → Pc → Prop where
  | noChannel (hq : sh.channelQueue = []) : CalloutStep sh x .take sh (.callout x .again)
  | took {c : Nat} {rest : List Nat} (hq : sh.channelQueue = c :: rest) :
      CalloutStep sh x .take { sh with channelQueue := rest } (.callout x (.dial c))
  | dialled {c : Nat} :
      CalloutStep sh x (.dial c) (sh.note (.dialled x c)) (.callout x (.lock c))
  | notDialled {c : Nat} : CalloutStep sh x (.dial c) sh (.callout x (.put c))
  | noTrunk {c : Nat} (ht : sh.trunkVector[c]? = none) :
      CalloutStep sh x (.lock c) { sh with crashed := true } .done
  | gaveUp {c : Nat} {t : Trunk} (ht : sh.trunkVector[c]? = some t) (hm : t.trunkMutex = true) :
      CalloutStep sh x (.lock c) sh .done
  | locked {c : Nat} {t : Trunk} (ht : sh.trunkVector[c]? = some t) (hm : t.trunkMutex = false) :
      CalloutStep sh x (.lock c) (sh.modifyTrunk c (.setMutex true)) (.callout x (.fill c))
  | filled {c : Nat} {p : CallOutParam} (hp : sh.params[x]? = some p) :
      CalloutStep sh x (.fill c)
        (({ sh with calls := sh.calls.set c (some x) }.modifyTrunk c (.fill p sh.now)).note
          (.recorded x c sh.now)) (.callout x (.unlock c))
  | unlocked {c : Nat} :
      CalloutStep sh x (.unlock c) (sh.modifyTrunk c (.setMutex false)) .done
  | putBack {c : Nat} :
      CalloutStep sh x (.put c) { sh with channelQueue := sh.channelQueue ++ [c] }
        (.callout x .failed)
  | secondTry {p : CallOutParam} (hp : sh.params[x]? = some p) (hr : p.repeatCallOut = true) :
      CalloutStep sh x .failed
        { sh with params := sh.params.set x { p with repeatCallOut := false } } (.callout x .again)
  | answeredFail {p : CallOutParam} (hp : sh.params[x]? = some p) (hr : p.repeatCallOut = false) :
      CalloutStep sh x .failed (sh.respond (some x) (p.response ciaCallFail)) .done
  | answeredTimeout {p : CallOutParam} (hp : sh.params[x]? = some p)
      (ht : 25000 < p.elapsed sh.now) :
      CalloutStep sh x .again (sh.respond (some x) (p.response ciaCallTimeout)) .done
  | armed {p : CallOutParam} (hp : sh.params[x]? = some p) (ht : ¬25000 < p.elapsed sh.now) :
      CalloutStep sh x .again
        { sh with params := sh.params.set x (p.armTimer sh.now), waits := sh.waits ++ [x] } .done

theorem execCallout_step {sh sh' : Shared} {x : Nat} {r : Int} {p : CalloutPc} {pc' : Pc}
    (h : execCallout sh x r p = some (sh', pc')) : CalloutStep sh x p sh' pc' := by
  unfold execCallout at h
  split at h
  · split at h <;> cases h
    · next hq => exact .noChannel hq
    · next hq => exact .took hq
  · split at h <;> cases h
    · exact .dialled
    · exact .notDialled
  · split at h
    · next ht => cases h; exact .noTrunk ht
    · next ht =>
      split at h <;> cases h
      · next hm => exact .gaveUp ht hm
      · next hm => exact .locked ht (Bool.eq_false_iff.mpr hm)
  · split at h <;> cases h
    next hp => exact .filled hp
  · cases h; exact .unlocked
  · cases h; exact .putBack
  · split at h
    · cases h
    · next hp =>
      split at h <;> cases h
      · next hr => exact .secondTry hp hr
      · next hr => exact .answeredFail hp (Bool.eq_false_iff.mpr hr)
  · split at h
    · cases h
    · next hp =>
      split at h <;> cases h
      · next ht => exact .answeredTimeout hp ht
      · next ht => exact .armed hp ht

/-- The steps of `cti_hangUp(c, status)` called by `k`. -/
inductive HangUpStep (sh : Shared) (k : Caller) (c : Nat) (status : Bytes) :
    HangUpPc → Shared → Pc → Prop where
  | noTrunk (ht : sh.trunkVector[c]? = none) :
      HangUpStep sh k c status .lock (k.raise sh).1 (k.raise sh).2
  | lockBusy {t : Trunk} (ht : sh.trunkVector[c]? = some t) (hm : t.trunkMutex = true) :
      HangUpStep sh k c status .lock sh k.resume
  | locked {t : Trunk} (ht : sh.trunkVector[c]? = some t) (hm : t.trunkMutex = false) :
      HangUpStep sh k c status .lock (sh.modifyTrunk c (.setMutex true)) (.hangUp k c status .check)
  | refused {t : Trunk} (ht : sh.trunkVector[c]? = some t) (hr : t.refusesHangUp = true) :
      HangUpStep sh k c status .check sh (.hangUp k c status (.unlock (-1)))
  | accepted {t : Trunk} (ht : sh.trunkVector[c]? = some t) (hr : t.refusesHangUp = false) :
      HangUpStep sh k c status .check sh (.hangUp k c status .driver)
  | driven {r : Int} : HangUpStep sh k c status .driver sh (.hangUp k c status (.answer r))
  | nullClient {retVal : Int} {t : Trunk} (ht : sh.trunkVector[c]? = some t)
      (hn : t.clientSocket = none) :
      HangUpStep sh k c status (.answer retVal) { sh with crashed := true }
        (.hangUp k c status (.answer retVal))
  | answered {retVal : Int} {t : Trunk} {client : Client} (ht : sh.trunkVector[c]? = some t)
      (hn : t.clientSocket = some client) :
      HangUpStep sh k c status (.answer retVal)
        (({ sh with calls := sh.calls.set c none }.modifyTrunk c (.realseTrunk sh.now)).respond
          (sh.callOn c) { client, transId := t.transId, status }) (.hangUp k c status (.put retVal))
  | putBack {retVal : Int} :
      HangUpStep sh k c status (.put retVal) { sh with channelQueue := sh.channelQueue ++ [c] }
        (.hangUp k c status (.unlock retVal))
  | unlocked {retVal : Int} :
      HangUpStep sh k c status (.unlock retVal) (sh.modifyTrunk c (.setMutex false)) k.resume

theorem execHangUp_step {sh sh' : Shared} {k : Caller} {c : Nat} {status : Bytes} {r : Int}
    {p : HangUpPc} {pc' : Pc} (h : execHangUp sh k c status r p = some (sh', pc')) :
    HangUpStep sh k c status p sh' pc' := by
  unfold execHangUp at h
  split at h
  · split at h
    · next ht =>
      simp only [Option.some.injEq] at h
      have h₁ : HangUpStep sh k c status .lock (k.raise sh).1 (k.raise sh).2 := .noTrunk ht
      rwa [h] at h₁
    · next ht =>
      split at h <;> cases h
      · next hm => exact .lockBusy ht hm
      · next hm => exact .locked ht (Bool.eq_false_iff.mpr hm)
  · split at h
    · cases h
    · next ht =>
      split at h <;> cases h
      · next hr => exact .refused ht hr
      · next hr => exact .accepted ht (Bool.eq_false_iff.mpr hr)
  · cases h; exact .driven
  · split at h
    · cases h
    · next ht =>
      split at h <;> cases h
      · next hn => exact .nullClient ht hn
      · next hn => exact .answered ht hn
  · cases h; exact .putBack
  · cases h; exact .unlocked

/-- The steps of `deal_e_proc_auto_dial` on channel `c`. -/
inductive AutoDialStep (cfg : Config) (sh : Shared) (c : Nat) : AutoDialPc → Shared → Pc → Prop where
  | noTrunk {dw : DialResult} (ht : sh.trunkVector[c]? = none) :
      AutoDialStep cfg sh c (.enter dw) sh .ret
  | entered {dw : DialResult} {t : Trunk} (ht : sh.trunkVector[c]? = some t) :
      AutoDialStep cfg sh c (.enter dw) sh (dealAutoDial cfg (t.elapsed sh.now) c dw)
  | lockBusy {t : Trunk} (ht : sh.trunkVector[c]? = some t) (hm : t.trunkMutex = true) :
      AutoDialStep cfg sh c .lock sh (.autoDial c (.put false))
  | locked {t : Trunk} (ht : sh.trunkVector[c]? = some t) (hm : t.trunkMutex = false) :
      AutoDialStep cfg sh c .lock (sh.modifyTrunk c (.setMutex true)) (.autoDial c .setSleep)
  | slept : AutoDialStep cfg sh c .setSleep (sh.modifyTrunk c (.setStep .sleep))
      (.autoDial c (.put true))
  | queuedLocked : AutoDialStep cfg sh c (.put true)
      { sh with sleepChannelQueue := sh.sleepChannelQueue ++ [c] } (.autoDial c .unlock)
  | queued : AutoDialStep cfg sh c (.put false)
      { sh with sleepChannelQueue := sh.sleepChannelQueue ++ [c] } .ret
  | unlocked : AutoDialStep cfg sh c .unlock (sh.modifyTrunk c (.setMutex false)) .ret

theorem execAutoDial_step {cfg : Config} {sh sh' : Shared} {c : Nat} {p : AutoDialPc} {pc' : Pc}
    (h : execAutoDial cfg sh c p = some (sh', pc')) : AutoDialStep cfg sh c p sh' pc' := by
  unfold execAutoDial at h
  split at h
  · split at h <;> cases h
    · next ht => exact .noTrunk ht
    · next ht => exact .entered ht
  · split at h
    · cases h
    · next ht =>
      split at h <;> cases h
      · next hm => exact .lockBusy ht hm
      · next hm => exact .locked ht (Bool.eq_false_iff.mpr hm)
  · cases h; exact .slept
  · next locked =>
    cases locked <;> cases h
    · exact .queued
    · exact .queuedLocked
  · cases h; exact .unlocked

/-- The steps of `timeout_check`. -/
inductive TimeoutStep (cfg : Config) (sh : Shared) : TimeoutPc → Shared → Pc → Prop where
  | woke {till : Nat} (ht : till ≤ sh.now) :
      TimeoutStep cfg sh (.sleep till) sh (.timeoutCheck (.look 0))
  | scanned {i : Nat} (ht : sh.trunkVector[i]? = none) :
      TimeoutStep cfg sh (.look i) sh (.timeoutCheck (.sleep (sh.now + 500)))
  | overdue {i : Nat} {t : Trunk} (ht : sh.trunkVector[i]? = some t) (hs : t.step ≠ .idle)
      (he : cfg.timeoutElapse ≤ t.elapsed sh.now) (hf : t.hungupByEchoTone = true) :
      TimeoutStep cfg sh (.look i) sh (.hangUp (.timeoutCheck i) i ciaCallFail .lock)
  | overdueFlag {i : Nat} {t : Trunk} (ht : sh.trunkVector[i]? = some t) (hs : t.step ≠ .idle)
      (he : cfg.timeoutElapse ≤ t.elapsed sh.now) (hf : t.hungupByEchoTone = false) :
      TimeoutStep cfg sh (.look i) sh (.timeoutCheck (.lock i))
  | passed {i : Nat} {t : Trunk} (ht : sh.trunkVector[i]? = some t)
      (hn : ¬(t.step ≠ .idle ∧ cfg.timeoutElapse ≤ t.elapsed sh.now)) :
      TimeoutStep cfg sh (.look i) sh (.timeoutCheck (.look (i + 1)))
  | lockBusy {i : Nat} {t : Trunk} (ht : sh.trunkVector[i]? = some t) (hm : t.trunkMutex = true) :
      TimeoutStep cfg sh (.lock i) sh (.timeoutCheck (.look (i + 1)))
  | locked {i : Nat} {t : Trunk} (ht : sh.trunkVector[i]? = some t) (hm : t.trunkMutex = false) :
      TimeoutStep cfg sh (.lock i) (sh.modifyTrunk i (.setMutex true)) (.timeoutCheck (.setFlag i))
  | flagged {i : Nat} :
      TimeoutStep cfg sh (.setFlag i)
        (sh.modifyTrunk i (fun t => { t with hungupByEchoTone := true }))
        (.timeoutCheck (.unlock i))
  | unlocked {i : Nat} :
      TimeoutStep cfg sh (.unlock i) (sh.modifyTrunk i (.setMutex false))
        (.hangUp (.timeoutCheck i) i ciaCallFail .lock)

theorem execTimeoutCheck_step {cfg : Config} {sh sh' : Shared} {p : TimeoutPc} {pc' : Pc}
    (h : execTimeoutCheck cfg sh p = some (sh', pc')) : TimeoutStep cfg sh p sh' pc' := by
  unfold execTimeoutCheck at h
  split at h
  · split at h <;> cases h
    next ht => exact .woke ht
  · split at h
    · next ht => cases h; exact .scanned ht
    · next ht =>
      split at h
      · next hc =>
        split at h <;> cases h
        · next hf => exact .overdue ht hc.1 hc.2 hf
        · next hf => exact .overdueFlag ht hc.1 hc.2 (Bool.eq_false_iff.mpr hf)
      · next hn => cases h; exact .passed ht hn
  · split at h
    · cases h
    · next ht =>
      split at h <;> cases h
      · next hm => exact .lockBusy ht hm
      · next hm => exact .locked ht (Bool.eq_false_iff.mpr hm)
  · cases h; exact .flagged
  · cases h; exact .unlocked

/-- The steps of `deal_hungup_strategy`. -/
inductive StrategyStep (cfg : Config) (sh : Shared) : StrategyPc → Shared → Pc → Prop where
  | nothing (hq : sh.sleepChannelQueue = []) :
      StrategyStep cfg sh .take sh (.strategy (.pause (sh.now + 100)))
  | took {c : Nat} {rest : List Nat} (hq : sh.sleepChannelQueue = c :: rest) :
      StrategyStep cfg sh .take { sh with sleepChannelQueue := rest } (.strategy (.lock c))
  | paused {till : Nat} (ht : till ≤ sh.now) :
      StrategyStep cfg sh (.pause till) sh (.strategy .take)
  | noTrunk {c : Nat} (ht : sh.trunkVector[c]? = none) :
      StrategyStep cfg sh (.lock c) { sh with crashed := true } .done
  | locked {c : Nat} {t : Trunk} (ht : sh.trunkVector[c]? = some t) (hm : t.trunkMutex = false) :
      StrategyStep cfg sh (.lock c) (sh.modifyTrunk c (.setMutex true)) (.strategy (.sleep c))
  | slept {c : Nat} {t : Trunk} (ht : sh.trunkVector[c]? = some t) :
      StrategyStep cfg sh (.sleep c) sh (.strategy (.wake c
        (sh.now + (sleepingElapse 64 cfg.ctiSleepingElapse (t.elapsed sh.now)).toNat)))
  | hungup {c till : Nat} (ht : till ≤ sh.now) :
      StrategyStep cfg sh (.wake c till) (sh.modifyTrunk c (.setStep .hungup))
        (.strategy (.unlock c))
  | unlocked {c : Nat} :
      StrategyStep cfg sh (.unlock c) (sh.modifyTrunk c (.setMutex false))
        (.hangUp .strategy c ciaCallSuccess .lock)

theorem execStrategy_step {cfg : Config} {sh sh' : Shared} {p : StrategyPc} {pc' : Pc}
    (h : execStrategy cfg sh p = some (sh', pc')) : StrategyStep cfg sh p sh' pc' := by
  unfold execStrategy at h
  split at h
  · split at h <;> cases h
    · next hq => exact .nothing hq
    · next hq => exact .took hq
  · split at h <;> cases h
    next ht => exact .paused ht
  · split at h
    · next ht => cases h; exact .noTrunk ht
    · next ht =>
      split at h <;> cases h
      next hm => exact .locked ht (Bool.eq_false_iff.mpr hm)
  · split at h <;> cases h
    next ht => exact .slept ht
  · split at h <;> cases h
    next ht => exact .hungup ht
  · cases h; exact .unlocked

/-- The steps of thread `i`. -/
inductive ThreadStep (cfg : Config) (sh : Shared) (i : Nat) : Pc → Shared → Pc → Prop where
  | callout {x : Nat} {p : CalloutPc} {sh' : Shared} {pc' : Pc} (h : CalloutStep sh x p sh' pc') :
      ThreadStep cfg sh i (.callout x p) sh' pc'
  | hangUp {k : Caller} {c : Nat} {status : Bytes} {p : HangUpPc} {sh' : Shared} {pc' : Pc}
      (h : HangUpStep sh k c status p sh' pc') :
      ThreadStep cfg sh i (.hangUp k c status p) sh' pc'
  | autoDial {c : Nat} {p : AutoDialPc} {sh' : Shared} {pc' : Pc}
      (h : AutoDialStep cfg sh c p sh' pc') : ThreadStep cfg sh i (.autoDial c p) sh' pc'
  | timeoutCheck {p : TimeoutPc} {sh' : Shared} {pc' : Pc} (h : TimeoutStep cfg sh p sh' pc') :
      ThreadStep cfg sh i (.timeoutCheck p) sh' pc'
  | strategy {p : StrategyPc} {sh' : Shared} {pc' : Pc} (h : StrategyStep cfg sh p sh' pc') :
      ThreadStep cfg sh i (.strategy p) sh' pc'
  | ret : ThreadStep cfg sh i .ret (sh.note (.returned i sh.now)) .done

/-- Every step `exec` computes is one of these, in a process that runs. -/
theorem exec_step {cfg : Config} {sh sh' : Shared} {i : Nat} {pc pc' : Pc} {r : Int}
    (h : exec cfg sh i pc r = some (sh', pc')) :
    sh.crashed = false ∧ ThreadStep cfg sh i pc sh' pc' := by
  unfold exec at h
  split at h
  · cases h
  · next hc =>
    refine ⟨Bool.eq_false_iff.mpr hc, ?_⟩
    split at h
    · exact .callout (execCallout_step h)
    · exact .hangUp (execHangUp_step h)
    · exact .autoDial (execAutoDial_step h)
    · exact .timeoutCheck (execTimeoutCheck_step h)
    · exact .strategy (execStrategy_step h)
    · cases h; exact .ret
    · cases h

/-- The environment's moves, with thread index `i` for a started thread. -/
inductive EnvStep (sh : Shared) (i : Nat) : Action → Shared → List Pc → Prop where
  | tick {d : Nat} : EnvStep sh i (.tick d) { sh with now := sh.now + d } []
  | call {client : Client} {transId authCode pn : Bytes} {echo : Bool} :
      EnvStep sh i (.call client transId authCode pn echo)
        { sh with params := sh.params ++ [.new client transId authCode pn echo sh.now] }
        [.callout sh.params.length .take]
  | autoDial {n : Int} {dw : DialResult} :
      EnvStep sh i (.event .procAutoDial n dw) (sh.note (.delivered i (toSizeT n) dw))
        [.autoDial (toSizeT n) (.enter dw)]
  | event {w : CardEvent} {n : Int} {dw : DialResult} : EnvStep sh i (.event w n dw) sh [.ret]
  | fired {x : Nat} {p : CallOutParam} (hp : sh.params[x]? = some p) (hw : x ∈ sh.waits)
      (ht : p.repeatCallOutTimer.getD 0 ≤ sh.now) :
      EnvStep sh i (.fire x false) { sh with waits := sh.waits.erase x } [.callout x .take]
  | fireError {x : Nat} {p : CallOutParam} (hp : sh.params[x]? = some p) (hw : x ∈ sh.waits) :
      EnvStep sh i (.fire x true) { sh with waits := sh.waits.erase x } []

theorem env_step {sh sh' : Shared} {i : Nat} {a : Action} {new : List Pc}
    (h : env sh i a = some (sh', new)) : sh.crashed = false ∧ EnvStep sh i a sh' new := by
  unfold env at h
  split at h
  · cases h
  · next hc =>
    refine ⟨Bool.eq_false_iff.mpr hc, ?_⟩
    split at h
    · cases h; exact .tick
    · cases h; exact .call
    · cases h; exact .autoDial
    · cases h; exact .event
    · next x ec =>
      split at h
      · cases h
      · next p hp =>
        split at h <;> cases h
        next hw =>
        -- only a completion without an error code has to wait for the expiry
        cases ec with
        | true => exact .fireError hp hw.1
        | false => exact .fired hp hw.1 (hw.2.resolve_left Bool.false_ne_true)

/-- The environment starts no thread but a `cti_callout`, a driver callback at
its beginning, or a callback that only returns. -/
theorem env_new {sh sh' : Shared} {i : Nat} {a : Action} {new : List Pc}
    (h : EnvStep sh i a sh' new) {pc : Pc} (hpc : pc ∈ new) :
    (∃ x, pc = .callout x .take) ∨ (∃ c dw, pc = .autoDial c (.enter dw)) ∨ pc = .ret := by
  cases h with
  | tick => cases hpc
  | call => exact Or.inl ⟨_, List.mem_singleton.mp hpc⟩
  | autoDial => exact Or.inr (Or.inl ⟨_, _, List.mem_singleton.mp hpc⟩)
  | event => exact Or.inr (Or.inr (List.mem_singleton.mp hpc))
  | fired => exact Or.inl ⟨_, List.mem_singleton.mp hpc⟩
  | fireError => cases hpc

/-- The environment writes neither the trunks nor the calls on them. -/
theorem env_trunks {sh sh' : Shared} {i : Nat} {a : Action} {new : List Pc}
    (h : EnvStep sh i a sh' new) :
    sh'.trunkVector = sh.trunkVector ∧ sh'.calls = sh.calls := by
  cases h <;> exact ⟨rfl, rfl⟩

/-! ## Where a driver callback goes on -/

/-- The `switch` of `deal_e_proc_auto_dial` returns, tries the lock for the
delayed hang-up, or calls `cti_hangUp`. -/
theorem dealAutoDial_cases (cfg : Config) (elapsed c : Nat) (dw : DialResult) :
    dealAutoDial cfg elapsed c dw = .ret ∨ dealAutoDial cfg elapsed c dw = .autoDial c .lock ∨
      ∃ status, dealAutoDial cfg elapsed c dw = .hangUp .callback c status .lock := by
  cases dw with
  | echotone =>
    simp only [dealAutoDial]
    split
    · exact Or.inr (Or.inl rfl)
    · exact Or.inr (Or.inr ⟨_, rfl⟩)
  | _ => first | exact Or.inl rfl | exact Or.inr (Or.inr ⟨_, rfl⟩)

/-- What no point of the callback holds, and no hang-up at its beginning, is
not held after a step of the callback. -/
theorem autoDial_none {cfg : Config} {sh sh' : Shared} {c : Nat} {p : AutoDialPc} {pc' : Pc}
    (h : AutoDialStep cfg sh c p sh' pc') {β : Type} {f : Pc → Option β}
    (hauto : ∀ p, f (.autoDial c p) = none)
    (hhang : ∀ status, f (.hangUp .callback c status .lock) = none) (hret : f .ret = none) :
    f pc' = none := by
  cases h with
  | @entered dw t _ =>
    rcases dealAutoDial_cases cfg (t.elapsed sh.now) c dw with he | he | ⟨status, he⟩ <;> rw [he]
    · exact hret
    · exact hauto _
    · exact hhang status
  | noTrunk => exact hret
  | queued => exact hret
  | unlocked => exact hret
  | _ => exact hauto _

/-! ## What a step writes on the trunks -/

/-- The one write a thread's step makes on the trunks and on the calls they
carry, by the program point it is made from. -/
inductive TrunkWrite (sh sh' : Shared) : Pc → Prop where
  | nothing {pc : Pc} (ht : sh'.trunkVector = sh.trunkVector) (hc : sh'.calls = sh.calls) :
      TrunkWrite sh sh' pc
  | mutex {pc : Pc} {c : Nat} {b : Bool}
      (ht : sh'.trunkVector = sh.trunkVector.modify c (.setMutex b)) (hc : sh'.calls = sh.calls) :
      TrunkWrite sh sh' pc
  | filled {x c : Nat} {p : CallOutParam} (hp : sh.params[x]? = some p)
      (ht : sh'.trunkVector = sh.trunkVector.modify c (.fill p sh.now))
      (hc : sh'.calls = sh.calls.set c (some x)) : TrunkWrite sh sh' (.callout x (.fill c))
  | released {k : Caller} {c : Nat} {status : Bytes} {retVal : Int}
      (ht : sh'.trunkVector = sh.trunkVector.modify c (.realseTrunk sh.now))
      (hc : sh'.calls = sh.calls.set c none) :
      TrunkWrite sh sh' (.hangUp k c status (.answer retVal))
  | slept {c : Nat} (ht : sh'.trunkVector = sh.trunkVector.modify c (.setStep .sleep))
      (hc : sh'.calls = sh.calls) : TrunkWrite sh sh' (.autoDial c .setSleep)
  | flagged {i : Nat}
      (ht : sh'.trunkVector
        = sh.trunkVector.modify i (fun t => { t with hungupByEchoTone := true }))
      (hc : sh'.calls = sh.calls) : TrunkWrite sh sh' (.timeoutCheck (.setFlag i))
  | hungup {c till : Nat} (ht : sh'.trunkVector = sh.trunkVector.modify c (.setStep .hungup))
      (hc : sh'.calls = sh.calls) : TrunkWrite sh sh' (.strategy (.wake c till))

theorem thread_write {cfg : Config} {sh sh' : Shared} {i : Nat} {pc pc' : Pc}
    (h : ThreadStep cfg sh i pc sh' pc') : TrunkWrite sh sh' pc := by
  cases h with
  | callout h =>
    cases h with
    | locked => exact .mutex rfl rfl
    | unlocked => exact .mutex rfl rfl
    | filled hp => exact .filled hp rfl rfl
    | _ => exact .nothing rfl rfl
  | @hangUp k _ _ _ _ _ h =>
    cases h with
    | noTrunk => cases k <;> exact .nothing rfl rfl
    | locked => exact .mutex rfl rfl
    | unlocked => exact .mutex rfl rfl
    | answered => exact .released rfl rfl
    | _ => exact .nothing rfl rfl
  | autoDial h =>
    cases h with
    | locked => exact .mutex rfl rfl
    | unlocked => exact .mutex rfl rfl
    | slept => exact .slept rfl rfl
    | _ => exact .nothing rfl rfl
  | timeoutCheck h =>
    cases h with
    | locked => exact .mutex rfl rfl
    | unlocked => exact .mutex rfl rfl
    | flagged => exact .flagged rfl rfl
    | _ => exact .nothing rfl rfl
  | strategy h =>
    cases h with
    | locked => exact .mutex rfl rfl
    | unlocked => exact .mutex rfl rfl
    | hungup => exact .hungup rfl rfl
    | _ => exact .nothing rfl rfl
  | ret => exact .nothing rfl rfl

/-! ## The start -/

section
variable {cfg : Config} {echo : Nat → Bool}

theorem mem_initial_threads {pc : Pc} (h : pc ∈ (initial cfg echo).threads) :
    pc = .timeoutCheck (.sleep 500) ∨ pc = .strategy .take := by
  rcases List.mem_cons.mp h with rfl | h
  · exact Or.inl rfl
  · exact Or.inr (List.eq_of_mem_replicate h)

/-- The threads of the constructor hold nothing. -/
theorem tokens_initial_threads {κ : Type} [DecidableEq κ] {f : Pc → Option κ}
    (ht : f (.timeoutCheck (.sleep 500)) = none) (hs : f (.strategy .take) = none) (k : κ) :
    tokens f k (initial cfg echo).threads = 0 := by
  refine tokens_eq_zero_iff.mpr fun pc hpc => ?_
  rcases mem_initial_threads hpc with rfl | rfl
  · rw [ht]
    exact nofun
  · rw [hs]
    exact nofun

theorem initial_trunk {c : Nat} {t : Trunk}
    (ht : (initial cfg echo).shared.trunkVector[c]? = some t) : ∃ i, t = .new (echo i) := by
  obtain ⟨i, _, rfl⟩ := List.mem_map.mp (List.mem_of_getElem? ht)
  exact ⟨i, rfl⟩

theorem initial_callOn (c : Nat) : (initial cfg echo).shared.callOn c = none := by
  show ((List.replicate cfg.numChannelCount none)[c]?).getD none = none
  rw [List.getElem?_replicate]
  split <;> rfl

end

end CiaServer.Cti
