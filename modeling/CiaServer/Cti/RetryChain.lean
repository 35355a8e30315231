import Mathlib.Data.List.Chain
import CiaServer.Cti.Callout

/-!
# The retry chain of a request

A request is attempted until it is dialled or answered: an attempt that finds
no free channel is made again, one whose dial fails is made again the first
time, and after 25 s it is not made again. `RetryChain` lists the attempts of
one request. Between two of them anything may happen to the card; only the
request's own record is as the last attempt left it, because nobody else writes
it while the request waits (`record_kept`).

The two stop conditions meet in the record: `m_repeat_call_out` remembers a
failed dial, `m_call_time` the beginning (`RetryChain.record`). Every earlier
attempt of a chain has armed the timer, so it neither dialled nor answered, and
what is left to say is about the newest attempt (`retryChain_ends`).
-/

namespace CiaServer.Cti

open Interleave

/-! ## What one attempt does -/

/-- The attempt comes to `cti_callout_again`. -/
def Attempt.Again (a : Attempt) (p : CallOutParam) : Prop :=
  a.outcome = .busy ∨ a.outcome = .failed ∧ p.repeatCallOut = true

/-- The responses the attempt writes. -/
def Attempt.wrote (a : Attempt) (x : Nat) : List Response :=
  (a.after x).responses.drop a.before.responses.length

/-- The attempt leaves request `x` waiting on its timer. -/
def Attempt.Arms (a : Attempt) (x : Nat) : Prop := (a.after x).waits = a.before.waits ++ [x]

/-- A failed dial is remembered. -/
def CallOutParam.dialFailed (p : CallOutParam) (o : Outcome) : CallOutParam :=
  { p with repeatCallOut := p.repeatCallOut && o != .failed }

/-- A channel is gone from the queue, and its trunk carries the call of `p`. -/
structure Taken (p : CallOutParam) (sh sh' : Shared) (c : Nat) : Prop where
  queue : sh.channelQueue = c :: sh'.channelQueue
  trunk : ∃ t, sh'.trunkVector[c]? = some t ∧ t.clientSocket = some p.baseClient ∧
    t.transId = p.transId ∧ t.callerId = p.authCode ∧ t.calledId = p.pn ∧ t.step = .calloutDail

/-- The four things an attempt of request `x` with record `p` can come to. -/
inductive Ending (a : Attempt) (x : Nat) (p : CallOutParam) : Prop where
  | timedOut (hagain : a.Again p) (ht : 25000 < p.elapsed a.decided)
      (hwrote : a.wrote x = [p.response ciaCallTimeout])
      (hwaits : (a.after x).waits = a.before.waits)
      (hq : (a.after x).channelQueue.Perm a.before.channelQueue)
  | armed (hagain : a.Again p) (ht : ¬25000 < p.elapsed a.decided) (hwrote : a.wrote x = [])
      (hwaits : a.Arms x) (hq : (a.after x).channelQueue.Perm a.before.channelQueue)
      (hp : (a.after x).params[x]? = some ((p.dialFailed a.outcome).armTimer a.decided))
  | failed (ho : a.outcome = .failed) (hr : p.repeatCallOut = false)
      (hwrote : a.wrote x = [p.response ciaCallFail])
      (hwaits : (a.after x).waits = a.before.waits)
      (hq : (a.after x).channelQueue.Perm a.before.channelQueue)
  | dialled {c : Nat} (ho : a.outcome = .dialled) (hwrote : a.wrote x = [])
      (hwaits : (a.after x).waits = a.before.waits) (hq : Taken p a.before (a.after x) c)

/-- An attempt that comes to `cti_callout_again` in a state with the old
responses and waits, its channel back and its record `p'`. -/
theorem ending_again {a : Attempt} {x : Nat} {p p' : CallOutParam} {sh : Shared}
    (hafter : a.after x = sh.again x p') (hagain : a.Again p) (hnow : sh.now = a.decided)
    (hresp : sh.responses = a.before.responses) (hwaits : sh.waits = a.before.waits)
    (hq : sh.channelQueue.Perm a.before.channelQueue) (hp' : p' = p.dialFailed a.outcome)
    (hp : sh.params[x]? = some p') : Ending a x p := by
  have helapsed : p'.elapsed sh.now = p.elapsed a.decided := by
    rw [hp', hnow]
    rfl
  by_cases ht : 25000 < p.elapsed a.decided
  · rw [Shared.again, helapsed, if_pos ht] at hafter
    refine .timedOut hagain ht ?_ ?_ ?_
    · rw [Attempt.wrote, hafter, ← hresp, hp']
      show ((sh.note _).responses).drop _ = _
      rw [Shared.note_response_responses, List.drop_left]
      rfl
    · rw [hafter, ← hwaits]
      rfl
    · rw [hafter]
      exact hq
  · rw [Shared.again, helapsed, if_neg ht] at hafter
    refine .armed hagain ht ?_ ?_ ?_ ?_
    · rw [Attempt.wrote, hafter, ← hresp]
      exact List.drop_length
    · rw [Attempt.Arms, hafter, ← hwaits]
    · rw [hafter]
      exact hq
    · rw [hafter, ← hp', ← hnow]
      exact getElem?_set_record hp _

/-- A record in which no dial has to be noted is as it was. -/
theorem dialFailed_of_ne {p : CallOutParam} {o : Outcome} (ho : o ≠ .failed) :
    p.dialFailed o = p := by
  rw [CallOutParam.dialFailed, bne_iff_ne.mpr ho, Bool.and_true]

theorem attempt_ending {a : Attempt} {x : Nat} {p : CallOutParam}
    (hp : a.before.params[x]? = some p) (hf : a.LockFree) : Ending a x p := by
  have hstep := (attempt_step hp hf).2
  generalize hafter : a.after x = sh' at hstep
  cases hstep with
  | busy hq =>
    have ho := Attempt.outcome_busy hq
    refine ending_again hafter (Or.inl ho) rfl rfl rfl (.refl _) ?_ hp
    rw [ho]
    exact (dialFailed_of_ne (by decide)).symm
  | @failedOnce c rest hq hd hr =>
    have ho := Attempt.outcome_failed hq hd
    refine ending_again hafter (Or.inr ⟨ho, hr⟩) rfl rfl rfl ?_ ?_ (getElem?_set_record hp _)
    · rw [hq]
      exact List.perm_append_singleton c rest
    · rw [ho, CallOutParam.dialFailed, hr]
      rfl
  | @failedTwice c rest hq hd hr =>
    refine .failed (Attempt.outcome_failed hq hd) hr ?_ ?_ ?_
    · rw [Attempt.wrote, hafter]
      show (((a.putBack c rest).note _).responses).drop _ = _
      rw [Shared.note_response_responses]
      exact List.drop_left
    · rw [hafter]
      rfl
    · rw [hafter, hq]
      exact List.perm_append_singleton c rest
  | @dialled c rest t hq hd ht hm =>
    refine .dialled (c := c) (Attempt.outcome_dialled hq hd) ?_ ?_ ⟨?_, ?_⟩
    · rw [Attempt.wrote, hafter]
      exact List.drop_length
    · rw [hafter]
      rfl
    · rw [hafter]
      exact hq
    · rw [hafter]
      exact ⟨Trunk.fill p a.decided t, Shared.modifyTrunk_get _ ht, rfl, rfl, rfl, rfl, rfl⟩

/-! ## The chain -/

/-- The attempts `as`, then `a`, of request `x`, made as `q`: each but the last
has armed the timer, and the next one starts when the timer fires, at a moment
`fires` allows, with the record as it was left. -/
inductive RetryChain (fires : CallOutParam → Nat → Prop) (q : CallOutParam) (x : Nat) :
    List Attempt → Attempt → Prop where
  | first {a : Attempt} (hr : q.repeatCallOut = true) (ht : q.repeatCallOutTimer = none)
      (hp : a.before.params[x]? = some q) (hf : a.LockFree) : RetryChain fires q x [] a
  | retry {as : List Attempt} {a b : Attempt} {p : CallOutParam} (h : RetryChain fires q x as a)
      (harms : a.Arms x) (ha : (a.after x).params[x]? = some p)
      (hb : b.before.params[x]? = some p) (hfires : fires p b.before.now) (hf : b.LockFree) :
      RetryChain fires q x (as ++ [a]) b

variable {fires : CallOutParam → Nat → Prop} {q : CallOutParam} {x : Nat} {as : List Attempt}
  {a : Attempt}

/-- The dial of the attempt failed. -/
def Attempt.failed (a : Attempt) : Bool := a.outcome == .failed

/-- The record of a request on its way: a failed dial and the timer are all that
changes in it. -/
def CallOutParam.onTheWay (q : CallOutParam) (as : List Attempt) (timer : Option Nat) :
    CallOutParam :=
  { q with repeatCallOut := !as.any (·.failed), repeatCallOutTimer := timer }

/-- An attempt that arms the timer has not ended in any other way. -/
theorem ending_of_arms {p : CallOutParam} (h : Ending a x p) (harms : a.Arms x) :
    a.Again p ∧ a.wrote x = [] ∧
      (a.after x).params[x]? = some ((p.dialFailed a.outcome).armTimer a.decided) := by
  have hne : (a.after x).waits ≠ a.before.waits := by
    rw [harms]
    exact fun he => absurd (congrArg List.length he) (by simp)
  cases h with
  | timedOut _ _ _ hw _ => exact absurd hw hne
  | armed hagain _ hwrote _ _ hp => exact ⟨hagain, hwrote, hp⟩
  | failed _ _ _ hw _ => exact absurd hw hne
  | dialled _ _ hw _ => exact absurd hw hne

theorem RetryChain.lockFree (h : RetryChain fires q x as a) : a.LockFree := by
  cases h with
  | first _ _ _ hf => exact hf
  | retry _ _ _ _ _ hf => exact hf

/-- A failed dial of attempt `a` is noted in the record. -/
theorem onTheWay_dialFailed (q : CallOutParam) (as : List Attempt) (a : Attempt)
    (timer : Option Nat) :
    (q.onTheWay as timer).dialFailed a.outcome = q.onTheWay (as ++ [a]) timer := by
  have hany : (!as.any (·.failed) && a.outcome != .failed) = !(as ++ [a]).any (·.failed) := by
    rw [List.any_append, Bool.not_or]
    simp [Attempt.failed, bne]
  rw [CallOutParam.onTheWay, CallOutParam.onTheWay, ← hany]
  rfl

/-- What `cti_callout_again` leaves of the timer. -/
def armedTimer (timer : Option Nat) (now : Nat) : Option Nat := some (timer.getD (now + 2000))

theorem onTheWay_armTimer (q : CallOutParam) (as : List Attempt) (timer : Option Nat) (now : Nat) :
    (q.onTheWay as timer).armTimer now = q.onTheWay as (armedTimer timer now) := by
  cases timer <;> rfl

/-- **The record of the newest attempt**: it knows whether a dial has failed. -/
theorem RetryChain.record (h : RetryChain fires q x as a) :
    ∃ timer, a.before.params[x]? = some (q.onTheWay as timer) := by
  induction h with
  | first hr ht hp hf =>
    refine ⟨none, ?_⟩
    rw [hp, CallOutParam.onTheWay, ← ht]
    rw [show (!([] : List Attempt).any (·.failed)) = q.repeatCallOut from hr.symm]
  | @retry as a b p h harms ha hb _ _ ih =>
    obtain ⟨timer, hp⟩ := ih
    have hend := ending_of_arms (attempt_ending hp h.lockFree) harms
    refine ⟨armedTimer timer a.decided, ?_⟩
    rw [hb, ← ha, hend.2.2, onTheWay_dialFailed, onTheWay_armTimer]

/-- The earlier attempts were not dialled, wrote nothing, and at most one of
their dials failed. -/
theorem RetryChain.earlier (h : RetryChain fires q x as a) :
    (∀ b ∈ as, b.outcome ≠ .dialled ∧ b.wrote x = []) ∧ as.countP (·.failed) ≤ 1 := by
  induction h with
  | first => exact ⟨nofun, Nat.zero_le _⟩
  | @retry as a b p h harms _ _ _ _ ih =>
    obtain ⟨timer, hp⟩ := h.record
    obtain ⟨hagain, hwrote, _⟩ := ending_of_arms (attempt_ending hp h.lockFree) harms
    refine ⟨?_, ?_⟩
    · intro b hb
      rcases List.mem_append.mp hb with hb | hb
      · exact ih.1 b hb
      · rw [List.mem_singleton.mp hb]
        refine ⟨fun ho => ?_, hwrote⟩
        rcases hagain with hbusy | ⟨hfail, _⟩
        · rw [ho] at hbusy
          cases hbusy
        · rw [ho] at hfail
          cases hfail
    · rw [List.countP_append, List.countP_singleton]
      by_cases ha : a.failed = true
      · -- a failing dial is tried again only if it is the first
        rw [if_pos ha]
        have hnone : as.any (·.failed) = false := by
          rcases hagain with hbusy | ⟨_, hr⟩
          · rw [Attempt.failed, hbusy] at ha
            cases ha
          · exact Bool.not_eq_true' _ |>.mp hr
        have hzero : as.countP (·.failed) = 0 := by
          rw [List.countP_eq_zero]
          rw [List.any_eq_false] at hnone
          exact hnone
        omega
      · rw [if_neg ha]
        exact ih.2

/-! ## How it ends -/

/-- Attempt `a` after the attempts `as`: what it answers, whether it goes on, and
what it does to the channels. -/
structure AttemptEnds (q : CallOutParam) (x : Nat) (as : List Attempt) (a : Attempt) : Prop where
  returns : ((ctiCallout a.driver a.took x).exec a.before).1 = .ok ()
  fail : a.wrote x = [q.response ciaCallFail] ↔
    a.outcome = .failed ∧ ∃ b ∈ as, b.outcome = .failed
  timeout : a.wrote x = [q.response ciaCallTimeout] ↔
    (a.outcome = .busy ∨ a.outcome = .failed ∧ ¬∃ b ∈ as, b.outcome = .failed) ∧
      25000 < q.elapsed a.decided
  answers : a.wrote x = [] ∨ a.wrote x = [q.response ciaCallFail] ∨
    a.wrote x = [q.response ciaCallTimeout]
  arms : a.Arms x ↔ a.outcome ≠ .dialled ∧ a.wrote x = []
  kept : a.outcome ≠ .dialled → (a.after x).channelQueue.Perm a.before.channelQueue
  taken : a.outcome = .dialled → ∃ c, Taken q a.before (a.after x) c

/-- The attempts `as` of one chain, each after the ones before it, and all of
them together. -/
structure ChainEnds (q : CallOutParam) (x : Nat) (as : List Attempt) : Prop where
  each : ∀ pre a post, as = pre ++ a :: post → AttemptEnds q x pre a
  failures : as.countP (·.outcome == .failed) ≤ 2
  successes : as.countP (·.outcome == .dialled) ≤ 1
  once : (as.flatMap (·.wrote x)).length ≤ 1
  silent : (∃ a ∈ as, a.outcome = .dialled) → as.flatMap (·.wrote x) = []

/-- The request's flag says whether a dial has failed. -/
theorem onTheWay_repeat {timer : Option Nat} :
    (q.onTheWay as timer).repeatCallOut = true ↔ ¬∃ b ∈ as, b.outcome = .failed := by
  show (!as.any (·.failed)) = true ↔ _
  rw [Bool.not_eq_true', List.any_eq_false]
  simp [Attempt.failed]

/-- Coming to `cti_callout_again`, in terms of the earlier attempts. -/
theorem again_onTheWay {timer : Option Nat} :
    a.Again (q.onTheWay as timer) ↔
      a.outcome = .busy ∨ a.outcome = .failed ∧ ¬∃ b ∈ as, b.outcome = .failed := by
  rw [Attempt.Again, onTheWay_repeat]

/-- An attempt that comes to `cti_callout_again` is not a second failed dial. -/
theorem not_second_of_again {timer : Option Nat} (h : a.Again (q.onTheWay as timer)) :
    ¬(a.outcome = .failed ∧ ∃ b ∈ as, b.outcome = .failed) := by
  rintro ⟨ho, hex⟩
  rcases again_onTheWay.mp h with hbusy | ⟨_, hno⟩
  · rw [ho] at hbusy
    cases hbusy
  · exact hno hex

theorem not_dialled_of_again {p : CallOutParam} (h : a.Again p) : a.outcome ≠ .dialled := by
  intro ho
  rcases h with h | ⟨h, _⟩ <;> rw [ho] at h <;> cases h

theorem response_ne {s s' : Bytes} (h : s ≠ s') : [q.response s] ≠ [q.response s'] := by
  intro he
  exact h (congrArg Response.status (List.cons.inj he).1)

theorem not_arms_of_waits (h : (a.after x).waits = a.before.waits) : ¬a.Arms x := by
  intro harms
  rw [Attempt.Arms, h] at harms
  exact absurd (congrArg List.length harms) (by simp)

theorem attemptEnds_of_ending {timer : Option Nat} (h : Ending a x (q.onTheWay as timer))
    (hret : ((ctiCallout a.driver a.took x).exec a.before).1 = .ok ()) : AttemptEnds q x as a := by
  have hstatus : ciaCallFail ≠ ciaCallTimeout := by decide
  cases h with
  | timedOut hagain ht hwrote hwaits hq =>
    have hwrote' : a.wrote x = [q.response ciaCallTimeout] := hwrote
    have hne : a.wrote x ≠ [] := by rw [hwrote]; exact nofun
    refine ⟨hret, iff_of_false ?_ (not_second_of_again hagain),
      iff_of_true hwrote' ⟨again_onTheWay.mp hagain, ht⟩, Or.inr (Or.inr hwrote'),
      iff_of_false (not_arms_of_waits hwaits) fun h => hne h.2, fun _ => hq,
      fun ho => absurd ho (not_dialled_of_again hagain)⟩
    rw [hwrote']
    exact (response_ne hstatus).symm
  | armed hagain ht hwrote harms hq _ =>
    refine ⟨hret, iff_of_false ?_ (not_second_of_again hagain), iff_of_false ?_ fun h => ht h.2,
      Or.inl hwrote, iff_of_true harms ⟨not_dialled_of_again hagain, hwrote⟩, fun _ => hq,
      fun ho => absurd ho (not_dialled_of_again hagain)⟩
    · rw [hwrote]
      exact nofun
    · rw [hwrote]
      exact nofun
  | failed ho hr hwrote hwaits hq =>
    have hwrote' : a.wrote x = [q.response ciaCallFail] := hwrote
    have hne : a.wrote x ≠ [] := by rw [hwrote]; exact nofun
    have hsecond : ∃ b ∈ as, b.outcome = .failed := by
      by_contra hno
      rw [onTheWay_repeat.mpr hno] at hr
      cases hr
    refine ⟨hret, iff_of_true hwrote' ⟨ho, hsecond⟩, iff_of_false ?_ ?_, Or.inr (Or.inl hwrote'),
      iff_of_false (not_arms_of_waits hwaits) fun h => hne h.2, fun _ => hq, fun hd => ?_⟩
    · rw [hwrote']
      exact response_ne hstatus
    · rintro ⟨hbusy | ⟨_, hno⟩, _⟩
      · rw [ho] at hbusy
        cases hbusy
      · exact hno hsecond
    · rw [ho] at hd
      cases hd
  | @dialled c ho hwrote hwaits hq =>
    refine ⟨hret, iff_of_false ?_ ?_, iff_of_false ?_ ?_, Or.inl hwrote,
      iff_of_false (not_arms_of_waits hwaits) fun h => h.1 ho, fun hd => absurd ho hd,
      fun _ => ⟨c, hq.queue, hq.trunk⟩⟩
    · rw [hwrote]
      exact nofun
    · rintro ⟨hf, _⟩
      rw [ho] at hf
      cases hf
    · rw [hwrote]
      exact nofun
    · rintro ⟨hbusy | ⟨hf, _⟩, _⟩
      · rw [ho] at hbusy
        cases hbusy
      · rw [ho] at hf
        cases hf

/-- An attempt that is dialled has nothing to say. -/
theorem AttemptEnds.wrote_of_dialled (h : AttemptEnds q x as a) (ho : a.outcome = .dialled) :
    a.wrote x = [] := by
  rcases h.answers with he | he | he
  · exact he
  · have hf := (h.fail.mp he).1
    rw [ho] at hf
    cases hf
  · rcases (h.timeout.mp he).1 with hbusy | ⟨hf, _⟩
    · rw [ho] at hbusy
      cases hbusy
    · rw [ho] at hf
      cases hf

theorem RetryChain.attemptEnds (h : RetryChain fires q x as a) : AttemptEnds q x as a := by
  obtain ⟨timer, hp⟩ := h.record
  exact attemptEnds_of_ending (attempt_ending hp h.lockFree) (attempt_step hp h.lockFree).1

/-- The beginning of a chain is a chain. -/
theorem RetryChain.cut (h : RetryChain fires q x as a) :
    ∀ {pre post : List Attempt} {b : Attempt}, as ++ [a] = pre ++ b :: post →
      RetryChain fires q x pre b := by
  induction h with
  | @first a hr ht hp hf =>
    intro pre post b he
    cases pre with
    | nil =>
      cases he
      exact .first hr ht hp hf
    | cons c pre => exact absurd (congrArg List.length he) (by simp)
  | @retry as a b' p h harms ha hb hfires hf ih =>
    intro pre post b he
    rcases List.eq_nil_or_concat post with rfl | ⟨post', z, rfl⟩
    · obtain ⟨rfl, hbb⟩ := List.append_inj' he rfl
      cases hbb
      exact .retry h harms ha hb hfires hf
    · rw [List.concat_eq_append, ← List.cons_append, ← List.append_assoc] at he
      exact ih (List.append_inj' he rfl).1

/-- **The retry chain of one request ends correctly.** -/
theorem retryChain_ends (h : RetryChain fires q x as a) : ChainEnds q x (as ++ [a]) := by
  obtain ⟨hearlier, hfailures⟩ := h.earlier
  have hend := h.attemptEnds
  have hwrote : (as ++ [a]).flatMap (·.wrote x) = a.wrote x := by
    rw [List.flatMap_append, List.flatMap_eq_nil_iff.mpr fun b hb => (hearlier b hb).2]
    simp
  refine ⟨fun pre b post he => (h.cut he).attemptEnds, ?_, ?_, ?_, ?_⟩
  · have hf : as.countP (·.outcome == .failed) ≤ 1 := hfailures
    rw [List.countP_append, List.countP_singleton]
    split <;> omega
  · have hzero : as.countP (·.outcome == .dialled) = 0 := by
      rw [List.countP_eq_zero]
      intro b hb
      rw [beq_iff_eq]
      exact (hearlier b hb).1
    rw [List.countP_append, List.countP_singleton, hzero]
    split <;> omega
  · rw [hwrote]
    rcases hend.answers with he | he | he <;> rw [he] <;> simp
  · rintro ⟨b, hb, ho⟩
    rw [hwrote]
    rcases List.mem_append.mp hb with hb | hb
    · exact absurd ho (hearlier b hb).1
    · -- only the newest attempt can be dialled
      rw [List.mem_singleton.mp hb] at ho
      exact hend.wrote_of_dialled ho

/-! ## Who writes the record -/

/-- A thread that does not work on request `x` leaves its record and its wait
alone. -/
theorem thread_record {cfg : Config} {sh sh' : Shared} {i : Nat} {pc pc' : Pc}
    (h : ThreadStep cfg sh i pc sh' pc') {x : Nat} (hx : pc.request ≠ some x)
    (hw : x ∈ sh.waits) : sh'.params[x]? = sh.params[x]? ∧ x ∈ sh'.waits := by
  cases h with
  | @callout y _ _ _ h =>
    cases h with
    | secondTry =>
      have hne : y ≠ x := fun he => hx (congrArg some he)
      exact ⟨List.getElem?_set_ne hne, hw⟩
    | armed =>
      have hne : y ≠ x := fun he => hx (congrArg some he)
      exact ⟨List.getElem?_set_ne hne, List.mem_append_left _ hw⟩
    | _ => exact ⟨rfl, hw⟩
  | @hangUp k _ _ _ _ _ h =>
    cases h with
    | noTrunk => cases k <;> exact ⟨rfl, hw⟩
    | _ => exact ⟨rfl, hw⟩
  | autoDial h => cases h <;> exact ⟨rfl, hw⟩
  | timeoutCheck h => cases h <;> exact ⟨rfl, hw⟩
  | strategy h => cases h <;> exact ⟨rfl, hw⟩
  | ret => exact ⟨rfl, hw⟩

/-- Neither does the environment, until the timer fires. -/
theorem env_record {sh sh' : Shared} {i : Nat} {e : Action} {new : List Pc}
    (h : EnvStep sh i e sh' new) {x : Nat} (he : ∀ ec, e ≠ .fire x ec) (hx : x < sh.params.length)
    (hw : x ∈ sh.waits) : sh'.params[x]? = sh.params[x]? ∧ x ∈ sh'.waits := by
  cases h with
  | call => exact ⟨List.getElem?_append_left hx, hw⟩
  | @fired y => exact ⟨rfl, (List.mem_erase_of_ne fun hy => he false (by rw [hy])).mpr hw⟩
  | @fireError y => exact ⟨rfl, (List.mem_erase_of_ne fun hy => he true (by rw [hy])).mpr hw⟩
  | _ => exact ⟨rfl, hw⟩

/-- A request that waits is in nobody's hands. -/
theorem request_of_waits {sh : Shared} {ts : List Pc} (hQ : RequestInv sh ts) {x : Nat}
    (hw : x ∈ sh.waits) : x < sh.params.length ∧ ∀ pc ∈ ts, pc.request ≠ some x := by
  have hone := hQ x
  have hwait : 1 ≤ tokens some x sh.waits := one_le_tokens hw rfl
  rw [Shared.placed, Shared.made] at hone
  by_cases hx : x < sh.params.length
  · rw [if_pos hx] at hone
    refine ⟨hx, fun pc hpc hr => ?_⟩
    have : 1 ≤ tokens Pc.request x ts := one_le_tokens hpc hr
    omega
  · rw [if_neg hx] at hone
    omega

/-- **A waiting request keeps its record**, whatever happens before its timer
fires: the next attempt of a chain starts with what the last one left. -/
theorem record_kept {cfg : Config} {s s' : Conf Shared Pc} (hs : Reachable cfg s) {x : Nat}
    (hw : x ∈ s.shared.waits)
    (h : (voiceCard cfg).Reach (fun _ m => ∀ ec, m ≠ .env (.fire x ec)) s s') :
    s'.shared.params[x]? = s.shared.params[x]? ∧ x ∈ s'.shared.waits := by
  obtain ⟨echo, hs⟩ := hs
  -- what is reached from `s` is reached from the start
  have hreq : ∀ {sh : Shared} {ts : List Pc},
      (voiceCard cfg).Reach (fun _ m => ∀ ec, m ≠ .env (.fire x ec)) s ⟨sh, ts⟩ →
        RequestInv sh ts := by
    intro sh ts hr
    have hr' : (voiceCard cfg).Reach (fun _ _ => True) s ⟨sh, ts⟩ :=
      Program.Reach.mono (fun _ _ _ => trivial) hr
    have hreach : ReachableBy cfg (fun _ _ => True) ⟨sh, ts⟩ := ⟨echo, hs.trans hr'⟩
    exact reachable_requestInv hreach
  refine Program.Reach.rule
    (I := fun sh _ => sh.params[x]? = s.shared.params[x]? ∧ x ∈ sh.waits) ⟨rfl, hw⟩ ?_ ?_ h
  · intro sh ts e sh' new hr hI hok henv
    obtain ⟨hx, _⟩ := request_of_waits (hreq hr) hI.2
    have hkeep := env_record (env_step henv).2 (fun ec he => hok ec (congrArg _ he)) hx hI.2
    exact ⟨hkeep.1.trans hI.1, hkeep.2⟩
  · intro sh ts i l r sh' l' hr hI _ hl hex
    obtain ⟨_, hothers⟩ := request_of_waits (hreq hr) hI.2
    have hkeep := thread_record (exec_step hex).2 (hothers l (List.mem_of_getElem? hl)) hI.2
    exact ⟨hkeep.1.trans hI.1, hkeep.2⟩

/-- Any move but the timer of request `x`. -/
def notFired (x : Nat) : Conf Shared Pc → Move Action Int → Bool
  | _, .env (.fire y _) => y != x
  | _, _ => true

theorem ne_fire_of_notFired {x : Nat} {s : Conf Shared Pc} {m : Move Action Int}
    (h : notFired x s m = true) (ec : Bool) : m ≠ .env (.fire x ec) := by
  rintro rfl
  exact bne_iff_ne.mp h rfl

/-- A request whose dial has failed waits on its timer. -/
def failedDialMoves : List (Move Action Int) :=
  [.env (.call 0 [1] [2] [3] true), .run 2 0, .run 2 1, .run 2 0, .run 2 0, .run 2 0]

def failedDial : Conf Shared Pc := after oneChannel anyMove (fun _ => true) failedDialMoves

/-- Meanwhile another is dialled and answered. -/
def meanwhileMoves : List (Move Action Int) :=
  [.env (.tick 1000), .env (.call 1 [4] [5] [6] true), .run 3 0, .run 3 0, .run 3 0, .run 3 0,
    .run 3 0, .env (.event .procAutoDial 0 .busytone), .run 4 0, .run 4 0, .run 4 0, .run 4 0,
    .run 4 0]

theorem record_kept_failedDial :
    ((voiceCard oneChannel).after (notFired 0) failedDial meanwhileMoves).shared.params[0]?
      = failedDial.shared.params[0]? ∧
    0 ∈ ((voiceCard oneChannel).after (notFired 0) failedDial meanwhileMoves).shared.waits :=
  record_kept (reachable_after (by decide)).reachable (by decide)
    ((Program.reach_after (by decide)).mono fun _ _ => ne_fire_of_notFired)

/-! ## A chain of three attempts -/

/-- The card with one channel, free or not, and one request. -/
def chainState (channelQueue : List Nat) (now : Nat) (p : CallOutParam) : Shared :=
  { channelQueue, sleepChannelQueue := [], trunkVector := [.new true], params := [p], waits := []
    now, crashed := false, calls := [none], log := [] }

/-- A driver that answers every dial with `r`. -/
def dialAnswers (r : Int) : Driver :=
  { ssmAutoDial := fun _ => r, ssmHangup := fun _ => 0, ssmGetSs7Msu := none }

def chainRequest : CallOutParam := .new 7 [1] [2] [3] true 0

/-- No channel is free. -/
def busyAttempt (now : Nat) (p : CallOutParam) : Attempt :=
  { before := chainState [] now p, driver := dialAnswers 0, took := 0 }

/-- The driver answers the dial with `r`. -/
def dialAttempt (r : Int) (now : Nat) (p : CallOutParam) : Attempt :=
  { before := chainState [0] now p, driver := dialAnswers r, took := 0 }

theorem lockFree_of_free {a : Attempt}
    (h : ∀ c ∈ a.before.channelQueue, ∃ t ∈ a.before.trunkVector[c]?, t.trunkMutex = false) :
    a.LockFree := by
  intro c rest hq _
  obtain ⟨t, ht, hm⟩ := h c (by rw [hq]; exact List.mem_cons_self ..)
  exact ⟨t, ht, hm⟩

/-- The timer of a record has fired. -/
def expired (p : CallOutParam) (now : Nat) : Prop := p.repeatCallOutTimer.getD 0 ≤ now

/-- A busy card, then a failed dial, then one that succeeds. -/
theorem chain_three : RetryChain expired chainRequest 0
    [busyAttempt 0 chainRequest,
      dialAttempt 1 2000 { chainRequest with repeatCallOutTimer := some 2000 }]
    (dialAttempt 0 2000 { chainRequest with
      repeatCallOutTimer := some 2000, repeatCallOut := false }) := by
  have h₀ : RetryChain expired chainRequest 0 [] (busyAttempt 0 chainRequest) :=
    .first rfl rfl rfl (lockFree_of_free (by decide))
  have h₁ := RetryChain.retry (b := dialAttempt 1 2000
    { chainRequest with repeatCallOutTimer := some 2000 }) h₀ rfl rfl rfl (Nat.le_refl _)
      (lockFree_of_free (by decide))
  exact .retry h₁ rfl rfl rfl (Nat.le_refl _) (lockFree_of_free (by decide))

theorem retryChain_ends_three : ChainEnds chainRequest 0
    [busyAttempt 0 chainRequest,
      dialAttempt 1 2000 { chainRequest with repeatCallOutTimer := some 2000 },
      dialAttempt 0 2000 { chainRequest with
        repeatCallOutTimer := some 2000, repeatCallOut := false }] :=
  retryChain_ends chain_three

end CiaServer.Cti
