import CiaServer.Cti.Routines
import CiaServer.Cti.BusyClient

/-!
# Is `cti_hangUp` all or nothing?

`cti_hangUp` leaves a trunk alone and returns -1 if the trunk is locked, its
flag is off, or it is idle or asleep. Past these checks it calls `SsmHangup`
and then answers the client, resets the trunk and returns the channel whatever
the driver said; -1 is logged and returned. So a hang-up that did not happen
releases its line.

`exec_ctiHangUp` is the whole function, `ctiHangUp_solo` ties it to the step
relation, and `allOrNothing_iff` says when its return value tells the truth.
-/

namespace CiaServer.Cti

open Interleave

/-! ## Writing one trunk -/

/-- Only what a write does to the trunk that is there matters. -/
theorem Shared.modifyTrunk_congr {sh : Shared} {c : Nat} {t : Trunk} {f g : Trunk → Trunk}
    (ht : sh.trunkVector[c]? = some t) (hf : f t = g t) : sh.modifyTrunk c f = sh.modifyTrunk c g := by
  have hv : sh.trunkVector.modify c f = sh.trunkVector.modify c g := by
    apply List.ext_getElem?
    intro d
    rw [List.getElem?_modify, List.getElem?_modify]
    by_cases hd : c = d
    · subst hd
      simp only [ht, if_true, Option.map_eq_map, Option.map_some, hf]
    · simp only [if_neg hd]
  rw [Shared.modifyTrunk, Shared.modifyTrunk, hv]

theorem Shared.modifyTrunk_of_eq {sh : Shared} {c : Nat} {t : Trunk} {f : Trunk → Trunk}
    (ht : sh.trunkVector[c]? = some t) (hf : f t = t) : sh.modifyTrunk c f = sh := by
  rw [Shared.modifyTrunk_congr (g := id) ht hf, Shared.modifyTrunk, List.modify_id]

theorem Shared.modifyTrunk_modifyTrunk (sh : Shared) (c : Nat) (f g : Trunk → Trunk) :
    (sh.modifyTrunk c f).modifyTrunk c g = sh.modifyTrunk c (g ∘ f) := by
  simp only [Shared.modifyTrunk, List.modify_modify_eq]

theorem Shared.modifyTrunk_get {sh : Shared} {c : Nat} {t : Trunk} (f : Trunk → Trunk)
    (ht : sh.trunkVector[c]? = some t) : (sh.modifyTrunk c f).trunkVector[c]? = some (f t) := by
  rw [getElem?_modifyTrunk, if_pos rfl, ht, Option.map_some]

/-! ## The function -/

@[simp] theorem exec_trunkAt_some {sh : Shared} {c : Nat} {t : Trunk}
    (ht : sh.trunkVector[c]? = some t) : (trunkAt c).exec sh = (.ok t, sh) := by
  rw [trunkAt, Routine.exec_bind_ok (Routine.exec_get sh), ht]
  rfl

@[simp] theorem exec_trunkAt_none {sh : Shared} {c : Nat} (ht : sh.trunkVector[c]? = none) :
    (trunkAt c).exec sh = (.error .outOfRange, sh) := by
  rw [trunkAt, Routine.exec_bind_ok (Routine.exec_get sh), ht]
  rfl

/-- `cti_hangUp` gets past its checks. -/
def Trunk.hangsUp (t : Trunk) : Bool := !t.trunkMutex && !t.refusesHangUp

/-- **What `cti_hangUp` does**, to a trunk that is there. -/
theorem exec_ctiHangUp {sh : Shared} {c : Nat} {t : Trunk} (d : Driver) (status : Bytes)
    (ht : sh.trunkVector[c]? = some t) :
    (ctiHangUp d c status).exec sh =
      if t.hangsUp then
        match t.clientSocket with
        | none => (.error .nullPointer, sh)
        | some client => (.ok (d.ssmHangup c), sh.release c t client status)
      else (.ok (-1), sh) := by
  rw [ctiHangUp, Routine.exec_bind_ok (exec_trunkAt_some ht), Trunk.hangsUp]
  cases t.trunkMutex with
  | true => rfl
  | false =>
    cases t.refusesHangUp with
    | true => rfl
    | false => cases t.clientSocket <;> rfl

theorem exec_ctiHangUp_none {sh : Shared} {c : Nat} (d : Driver) (status : Bytes)
    (ht : sh.trunkVector[c]? = none) :
    (ctiHangUp d c status).exec sh = (.error .outOfRange, sh) := by
  rw [ctiHangUp, Routine.exec_bind_error (exec_trunkAt_none ht)]

/-- A trunk that is hung up is not idle. -/
theorem busy_of_hangsUp {t : Trunk} (h : t.hangsUp = true) : t.step ≠ .idle := by
  intro hi
  simp [Trunk.hangsUp, Trunk.refusesHangUp, hi] at h

/-- A hang-up of a trunk that has its client while it is busy: it is refused, or
the trunk is released. -/
theorem ctiHangUp_cases {sh : Shared} {c : Nat} {t : Trunk} (d : Driver) (status : Bytes)
    (ht : sh.trunkVector[c]? = some t) (hc : t.step ≠ .idle → t.clientSocket ≠ none) :
    (t.hangsUp = false ∧ (ctiHangUp d c status).exec sh = (.ok (-1), sh)) ∨
    (t.hangsUp = true ∧ ∃ client, t.clientSocket = some client ∧
      (ctiHangUp d c status).exec sh = (.ok (d.ssmHangup c), sh.release c t client status)) := by
  rw [exec_ctiHangUp d status ht]
  cases hu : t.hangsUp with
  | false => exact Or.inl ⟨rfl, rfl⟩
  | true =>
    obtain ⟨client, hcl⟩ := Option.ne_none_iff_exists'.mp (hc (busy_of_hangsUp hu))
    rw [hcl]
    exact Or.inr ⟨rfl, client, rfl, rfl⟩

/-! ## The function as steps of a thread -/

/-- The driver's answer to the step a thread is about to take. -/
def Driver.answer (d : Driver) : Pc → Int
  | .callout _ (.dial c) => d.ssmAutoDial c
  | .hangUp _ c _ .driver => d.ssmHangup c
  | _ => 0

/-- The environment's move that only lets time pass. -/
def Action.isTick (a : Action) : Prop := ∃ took, a = .tick took

/-- A thread of the card comes from one point to another while no other steps. -/
abbrev Alone (cfg : Config) (d : Driver) (n i : Nat) : Shared × Pc → Shared × Pc → Prop :=
  (voiceCard cfg).Solo Action.isTick d.answer n i

section
variable {cfg : Config} {d : Driver} {n i : Nat} {sh : Shared} {k : Caller} {c : Nat}
  {status : Bytes}

theorem alone_hangUp {p : HangUpPc} {pc' : Pc} {sh' : Shared} {b : Shared × Pc}
    (hrun : sh.crashed = false)
    (h : execHangUp sh k c status (d.answer (.hangUp k c status p)) p = some (sh', pc'))
    (hb : Alone cfg d n i (sh', pc') b) : Alone cfg d n i (sh, .hangUp k c status p) b := by
  refine Program.Solo.head ?_ hb
  show exec cfg sh i (.hangUp k c status p) (d.answer (.hangUp k c status p)) = some (sh', pc')
  rw [exec.eq_def, hrun]
  exact h

/-- What a thread writes to a trunk between its lock and its unlock. -/
theorem modify_locked {t : Trunk} {f : Trunk → Trunk} (ht : sh.trunkVector[c]? = some t)
    (hm : t.trunkMutex = false)
    (hf : ∀ t : Trunk, (f (t.setMutex true)).setMutex false = f (t.setMutex false)) :
    ((sh.trunkVector.modify c (.setMutex true)).modify c f).modify c (.setMutex false)
      = sh.trunkVector.modify c f := by
  rw [List.modify_modify_eq, List.modify_modify_eq]
  refine congrArg Shared.trunkVector (Shared.modifyTrunk_congr ht ((hf t).trans ?_))
  rw [show t.setMutex false = t by rw [Trunk.setMutex, ← hm]]

/-- A thread that takes the trunk's lock and gives it back has changed nothing. -/
theorem unlock_lock {t : Trunk} (ht : sh.trunkVector[c]? = some t) (hm : t.trunkMutex = false) :
    (sh.modifyTrunk c (.setMutex true)).modifyTrunk c (.setMutex false) = sh := by
  rw [Shared.modifyTrunk_modifyTrunk]
  refine Shared.modifyTrunk_of_eq ht ?_
  show t.setMutex false = t
  rw [← hm]
  rfl

/-- Locked, released and unlocked, the trunk is released. -/
theorem release_locked {t : Trunk} (ht : sh.trunkVector[c]? = some t) (hm : t.trunkMutex = false)
    (client : Client) :
    ((sh.modifyTrunk c (.setMutex true)).release c (t.setMutex true) client status).modifyTrunk c
      (.setMutex false) = sh.release c t client status := by
  have hv := modify_locked (f := .realseTrunk sh.now) ht hm fun _ => rfl
  simp only [Shared.release, Shared.modifyTrunk, Shared.respond, Shared.note, Shared.callOn, hv]
  rfl

/-- **`cti_hangUp` is what its thread does by itself.** -/
theorem ctiHangUp_solo {sh' : Shared} {v : Int} (hrun : sh.crashed = false)
    (h : (ctiHangUp d c status).exec sh = (.ok v, sh')) :
    Alone cfg d n i (sh, .hangUp k c status .lock) (sh', k.resume) := by
  cases ht : sh.trunkVector[c]? with
  | none =>
    rw [exec_ctiHangUp_none d status ht] at h
    cases h
  | some t =>
    rw [exec_ctiHangUp d status ht] at h
    cases hm : t.trunkMutex with
    | true =>
      rw [Trunk.hangsUp, hm] at h
      cases h
      exact alone_hangUp hrun (by simp only [execHangUp, ht, hm, if_true]) .refl
    | false =>
      -- the lock is free: the thread goes on with a locked trunk
      have ht₁ := Shared.modifyTrunk_get (.setMutex true) ht
      have hlock : execHangUp sh k c status 0 .lock
          = some (sh.modifyTrunk c (.setMutex true), .hangUp k c status .check) := by
        simp only [execHangUp, ht, hm, Bool.false_eq_true, if_false]
      refine alone_hangUp hrun hlock ?_
      rw [Trunk.hangsUp, hm] at h
      cases hr : t.refusesHangUp with
      | true =>
        rw [hr] at h
        cases h
        have hr₁ : (t.setMutex true).refusesHangUp = true := hr
        have hrefuse : execHangUp (sh.modifyTrunk c (.setMutex true)) k c status 0 .check
            = some (sh.modifyTrunk c (.setMutex true), .hangUp k c status (.unlock (-1))) := by
          simp only [execHangUp, ht₁, hr₁, if_true]
        refine alone_hangUp hrun hrefuse (alone_hangUp hrun rfl ?_)
        rw [unlock_lock ht hm]
        exact .refl
      | false =>
        rw [hr] at h
        cases hcl : t.clientSocket with
        | none =>
          rw [hcl] at h
          cases h
        | some client =>
          rw [hcl] at h
          cases h
          have hr₁ : (t.setMutex true).refusesHangUp = false := hr
          have hcl₁ : (t.setMutex true).clientSocket = some client := hcl
          have haccept : execHangUp (sh.modifyTrunk c (.setMutex true)) k c status 0 .check
              = some (sh.modifyTrunk c (.setMutex true), .hangUp k c status .driver) := by
            simp only [execHangUp, ht₁, hr₁, Bool.false_eq_true, if_false]
          refine alone_hangUp hrun haccept (alone_hangUp hrun rfl ?_)
          refine alone_hangUp hrun (by simp only [execHangUp, ht₁, hcl₁]; rfl) ?_
          refine alone_hangUp hrun rfl (alone_hangUp hrun rfl ?_)
          show Alone cfg d n i (((sh.modifyTrunk c (.setMutex true)).release c (t.setMutex true)
            client status).modifyTrunk c (.setMutex false), k.resume) _
          rw [release_locked ht hm]
          exact .refl

end

/-! ## All or nothing -/

/-- The trunks, the queues and the messages are as before. -/
structure Untouched (sh sh' : Shared) : Prop where
  trunks : sh'.trunkVector = sh.trunkVector
  channels : sh'.channelQueue = sh.channelQueue
  sleepers : sh'.sleepChannelQueue = sh.sleepChannelQueue
  responses : sh'.responses = sh.responses

/-- A trunk that carries no call since `now`. -/
structure Trunk.Released (now : Nat) (t : Trunk) : Prop where
  step : t.step = .idle
  callerId : t.callerId = []
  calledId : t.calledId = []
  transId : t.transId = []
  callTime : t.callTime = now
  flag : t.hungupByEchoTone = true
  client : t.clientSocket = none

/-- The call on trunk `c`, and no other, was answered with `status`, and its
channel is free again. -/
structure HungUp (sh sh' : Shared) (c : Nat) (status : Bytes) : Prop where
  answered : ∃ t client, sh.trunkVector[c]? = some t ∧ t.clientSocket = some client ∧
    sh'.responses = sh.responses ++ [{ client, transId := t.transId, status }]
  released : ∃ t', sh'.trunkVector[c]? = some t' ∧ t'.Released sh.now ∧ t'.trunkMutex = false
  others : ∀ e, e ≠ c → sh'.trunkVector[e]? = sh.trunkVector[e]?
  channels : sh'.channelQueue = sh.channelQueue ++ [c]
  sleepers : sh'.sleepChannelQueue = sh.sleepChannelQueue

/-- `cti_hangUp` returns; -1 is nothing done, 0 is everything done. -/
def AllOrNothing (d : Driver) (sh : Shared) (c : Nat) (status : Bytes) : Prop :=
  ∃ v sh', (ctiHangUp d c status).exec sh = (.ok v, sh') ∧
    (v = -1 → Untouched sh sh') ∧ (v = 0 → HungUp sh sh' c status)

theorem Untouched.refl (sh : Shared) : Untouched sh sh := ⟨rfl, rfl, rfl, rfl⟩

theorem released_realseTrunk (t : Trunk) (now : Nat) : (t.realseTrunk now).Released now :=
  ⟨rfl, rfl, rfl, rfl, rfl, rfl, rfl⟩

theorem hungUp_release {sh : Shared} {c : Nat} {t : Trunk} {client : Client}
    (ht : sh.trunkVector[c]? = some t) (hm : t.trunkMutex = false) (hcl : t.clientSocket = some client)
    (status : Bytes) : HungUp sh (sh.release c t client status) c status := by
  refine ⟨⟨t, client, ht, hcl, ?_⟩, ⟨t.realseTrunk sh.now, ?_, ?_, hm⟩, fun e he => ?_, ?_, ?_⟩
  · exact sh.release_responses c t client status
  · exact Shared.modifyTrunk_get (.realseTrunk sh.now) ht
  · exact released_realseTrunk t sh.now
  · exact (getElem?_modifyTrunk sh c e (.realseTrunk sh.now)).trans (if_neg fun h => he h.symm)
  · exact sh.release_channelQueue c t client status
  · exact sh.release_sleepChannelQueue c t client status

/-- **`cti_hangUp` is all or nothing exactly if it stops at its checks or the
driver does not answer -1.** -/
theorem allOrNothing_iff {sh : Shared} {c : Nat} {t : Trunk} (d : Driver) (status : Bytes)
    (ht : sh.trunkVector[c]? = some t) (hc : t.step ≠ .idle → t.clientSocket ≠ none) :
    AllOrNothing d sh c status ↔ t.hangsUp = false ∨ d.ssmHangup c ≠ -1 := by
  rcases ctiHangUp_cases d status ht hc with ⟨hu, hex⟩ | ⟨hu, client, hcl, hex⟩
  · refine ⟨fun _ => Or.inl hu, fun _ => ⟨-1, sh, hex, fun _ => .refl sh, fun hv => ?_⟩⟩
    cases hv
  · constructor
    · rintro ⟨v, sh', hex', hnothing, _⟩
      refine Or.inr fun hr => ?_
      rw [hex] at hex'
      cases hex'
      -- the channel was put back all the same
      have hq := (hnothing hr).channels
      rw [Shared.release_channelQueue] at hq
      exact absurd (congrArg List.length hq) (by simp)
    · intro h
      have hr : d.ssmHangup c ≠ -1 := h.resolve_left (by rw [hu]; exact Bool.noConfusion)
      have hm : t.trunkMutex = false := by
        rw [Trunk.hangsUp, Bool.and_eq_true] at hu
        exact Bool.not_eq_true' _ |>.mp hu.1
      exact ⟨d.ssmHangup c, _, hex, fun hv => absurd hv hr, fun _ => hungUp_release ht hm hcl status⟩

/-- The state with one call on its channel. -/
def oneCall : Shared :=
  (after oneChannel anyMove (fun _ => true)
    [.env (.call 7 [1] [] [] true), .run 2 0, .run 2 0, .run 2 0, .run 2 0, .run 2 0]).shared

/-- A driver that answers every hang-up with `r`. -/
def hangupAnswers (r : Int) : Driver :=
  { ssmAutoDial := fun _ => 0, ssmHangup := fun _ => r, ssmGetSs7Msu := none }

/-- The trunk of `oneCall`. -/
def oneCallTrunk : Trunk :=
  Trunk.fill (.new 7 [1] [] [] true 0) 0 (.new true)

theorem allOrNothing_oneCall : AllOrNothing (hangupAnswers 0) oneCall 0 ciaCallSuccess :=
  (allOrNothing_iff (hangupAnswers 0) ciaCallSuccess (t := oneCallTrunk) (by decide)
    (by decide)).mpr (Or.inr (by decide))

/-- **`cti_hangUp` is not all or nothing**: the driver refuses, and the line is
released and answered with success, under the return value -1. -/
theorem allOrNothing_fails : ¬∀ (d : Driver) (sh : Shared) (c : Nat) (t : Trunk) (status : Bytes),
    sh.trunkVector[c]? = some t → (t.step ≠ .idle → t.clientSocket ≠ none) →
      AllOrNothing d sh c status := by
  intro h
  obtain ⟨v, sh', hex, hnothing, _⟩ := h (hangupAnswers (-1)) oneCall 0 oneCallTrunk ciaCallSuccess
    (by decide) (by decide)
  rw [exec_ctiHangUp (t := oneCallTrunk) _ _ (by decide)] at hex
  cases hex
  exact absurd (hnothing rfl).channels (by decide)

end CiaServer.Cti
