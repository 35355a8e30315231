import CiaServer.Cti.TimeoutScan

/-!
# Driver events (`cti_callback`)

Of all driver events only `E_PROC_AutoDial` changes anything, and that only at
the channel it is for: depending on the dial result the channel is hung up, put
to sleep or left alone (`Deed`). A `nReference` that is no index of the vector
throws before the first change, in a log record or at the latest in the branch
itself, and `cti_callback` catches it.

`callback_ownChannel` says so for every event, and that two events on different
channels may be handled in either order. `ctiCallback_solo` ties the function to
the thread's steps.
-/

namespace CiaServer.Cti

open Interleave

/-- What an `E_PROC_AutoDial` event does to its channel. -/
inductive Deed where
  | nothing
  /-- `TRK_SLEEP`, and into the queue of delayed hang-ups -/
  | sleep
  | hangUp (status : Bytes)
  deriving DecidableEq, Repr

/-- What a dial result means for a call of age `elapsed`. -/
def deed (cfg : Config) (elapsed : Nat) : DialResult → Deed
  | .echotone =>
    if cfg.useStrategy && elapsed ≤ cfg.ctiWarningElapse then .sleep else .hangUp ciaCallSuccess
  | .busytone => .hangUp ciaCallSuccess
  | .voice => .hangUp ciaCallSuccess
  | .voicef1 => .hangUp ciaCallSuccess
  | .voicef2 => .hangUp ciaCallSuccess
  | .noDialtone => .hangUp ciaCallFail
  | .noanswer => .hangUp ciaCallFail
  | .failure => .hangUp ciaCallFail
  | .invalidPhonum => .hangUp ciaCallFail
  | .standby => .nothing
  | .dialing => .nothing
  | .echoNovoice => .nothing
  | .novoice => .nothing
  | .sessionProceeding => .nothing
  | .isdnProgress => .nothing
  | .other _ => .nothing

namespace Deed

/-- A deed as a call by itself. -/
def call (d : Driver) (c : Nat) : Deed → CardM Int
  | .nothing => pure 1
  | .sleep => do
    let t ← trunkAt c
    if t.trunkMutex then pure () else modify fun sh => sh.modifyTrunk c (.setStep .sleep)
    modify fun sh => { sh with sleepChannelQueue := sh.sleepChannelQueue ++ [c] }
    pure 1
  | .hangUp status => do
    discard (ctiHangUp d c status)
    pure 1

/-- A deed as the point its thread goes to. -/
def pc (c : Nat) : Deed → Pc
  | .nothing => .ret
  | .sleep => .autoDial c .lock
  | .hangUp status => .hangUp .callback c status .lock

/-- What a deed leaves of the channel's trunk. -/
def trunk (now : Nat) (t : Trunk) : Deed → Trunk
  | .nothing => t
  | .sleep => if t.trunkMutex then t else t.setStep .sleep
  | .hangUp _ => if t.hangsUp then t.realseTrunk now else t

/-- What a deed answers. -/
def answers (t : Trunk) : Deed → List Response
  | .hangUp status =>
    if t.hangsUp then
      t.clientSocket.toList.map fun client => { client, transId := t.transId, status }
    else []
  | _ => []

/-- What a deed adds to `m_channel_queue`. -/
def channels (c : Nat) (t : Trunk) : Deed → List Nat
  | .hangUp _ => if t.hangsUp then [c] else []
  | _ => []

/-- What a deed adds to `m_sleep_channel_queue`. -/
def sleepers (c : Nat) : Deed → List Nat
  | .sleep => [c]
  | _ => []

end Deed

/-- Deed `a` was done to channel `c`, whose trunk was `t`. -/
structure Dealt (sh : Shared) (c : Nat) (t : Trunk) (a : Deed) (sh' : Shared) : Prop where
  trunks : sh'.trunkVector = sh.trunkVector.set c (a.trunk sh.now t)
  responses : sh'.responses = sh.responses ++ a.answers t
  channels : sh'.channelQueue = sh.channelQueue ++ a.channels c t
  sleepers : sh'.sleepChannelQueue = sh.sleepChannelQueue ++ a.sleepers c

/-- The two descriptions of `deal_e_proc_auto_dial` agree on the dial results. -/
theorem dealAutoDial_eq (cfg : Config) (elapsed c : Nat) (dw : DialResult) :
    dealAutoDial cfg elapsed c dw = (deed cfg elapsed dw).pc c := by
  cases dw with
  | echotone =>
    rw [dealAutoDial, deed]
    split <;> rfl
  | _ => rfl

/-! ## Log records -/

section
variable {cfg : Config} {d : Driver} {enabled : Severity → Bool} {sh : Shared} {n : Int}

/-- A record about a channel that exists is written. -/
theorem exec_logAt_some {t : Trunk} (severity : Severity)
    (ht : sh.trunkVector[toSizeT n]? = some t) :
    (logAt enabled severity n).exec sh = (.ok ⟨⟩, sh) := by
  rw [logAt]
  by_cases he : enabled severity = true
  · rw [if_pos he]
    exact Routine.exec_discard_ok (exec_trunkAt_some ht)
  · rw [if_neg he]
    rfl

/-- The call returns 1 or throws `std::out_of_range`, and changes nothing. -/
def Harmless (m : CardM Int) (sh : Shared) : Prop :=
  m.exec sh = (.ok 1, sh) ∨ m.exec sh = (.error .outOfRange, sh)

theorem harmless_one (sh : Shared) : Harmless (pure 1) sh := Or.inl rfl

/-- A record in front of a harmless call is harmless. -/
theorem Harmless.logged {m : CardM Int} (h : Harmless m sh) (severity : Severity) :
    Harmless (logAt enabled severity n >>= fun _ => m) sh := by
  rw [logAt, Harmless]
  by_cases he : enabled severity = true
  · rw [if_pos he]
    cases ht : sh.trunkVector[toSizeT n]? with
    | none =>
      refine Or.inr ?_
      rw [Routine.exec_bind_error (Routine.exec_discard_error (exec_trunkAt_none ht))]
    | some t =>
      rw [Routine.exec_bind_ok (Routine.exec_discard_ok (exec_trunkAt_some ht))]
      exact h
  · rw [if_neg he, Routine.exec_bind_ok (Routine.exec_pure _ sh)]
    exact h

theorem harmless_logOnly (severity : Severity) : Harmless (logOnly enabled severity n) sh :=
  (harmless_one sh).logged severity

/-- A hang-up of a channel that does not exist throws before it changes
anything. -/
theorem harmless_hangUp (status : Bytes) (ht : sh.trunkVector[toSizeT n]? = none) :
    Harmless (discard (ctiHangUp d (toSizeT n) status) >>= fun _ => pure 1) sh := by
  refine Or.inr ?_
  rw [Routine.exec_bind_error (Routine.exec_discard_error (exec_ctiHangUp_none d status ht))]

theorem harmless_logAndHangUp (severity : Severity) (status : Bytes)
    (ht : sh.trunkVector[toSizeT n]? = none) :
    Harmless (logAndHangUp d enabled severity n status) sh :=
  (harmless_hangUp status ht).logged severity

/-- `deal_e_rcv_ss7msu` reads its message and nothing else. -/
theorem harmless_dealERcvSs7Msu (d : Driver) (sh : Shared) : Harmless (dealERcvSs7Msu d) sh := by
  unfold dealERcvSs7Msu
  split
  · exact harmless_one sh
  · split
    · exact harmless_one sh
    · split
      · split <;> exact harmless_one sh
      · exact harmless_one sh

/-! ## `deal_e_proc_auto_dial` -/

/-- With an index outside the vector every dial result is harmless. -/
theorem harmless_dealEProcAutoDial (dw : DialResult) (ht : sh.trunkVector[toSizeT n]? = none) :
    Harmless (dealEProcAutoDial cfg d enabled n dw) sh := by
  cases dw with
  | standby => exact harmless_one sh
  | dialing => exact harmless_logOnly _
  | echotone =>
    refine Harmless.logged (Harmless.logged (Or.inr ?_) _) _
    rw [Routine.exec_bind_error (exec_trunkAt_none ht)]
  | noDialtone => exact harmless_logAndHangUp _ _ ht
  | busytone => exact harmless_logAndHangUp _ _ ht
  | echoNovoice => exact harmless_logOnly _
  | novoice => exact harmless_logOnly _
  | voice => exact harmless_logAndHangUp _ _ ht
  | voicef1 => exact harmless_logAndHangUp _ _ ht
  | voicef2 => exact harmless_logAndHangUp _ _ ht
  | noanswer => exact harmless_logAndHangUp _ _ ht
  | failure => exact harmless_logAndHangUp _ _ ht
  | invalidPhonum => exact harmless_logAndHangUp _ _ ht
  | sessionProceeding => exact harmless_logOnly _
  | isdnProgress => exact harmless_logOnly _
  | other _ => exact harmless_one sh

theorem exec_logOnly_some {t : Trunk} (severity : Severity)
    (ht : sh.trunkVector[toSizeT n]? = some t) :
    (logOnly enabled severity n).exec sh = (.ok 1, sh) := by
  rw [logOnly, Routine.exec_bind_ok (exec_logAt_some severity ht)]
  rfl

theorem exec_logAndHangUp_some {t : Trunk} (severity : Severity) (status : Bytes)
    (ht : sh.trunkVector[toSizeT n]? = some t) :
    (logAndHangUp d enabled severity n status).exec sh
      = (Deed.call d (toSizeT n) (.hangUp status)).exec sh := by
  rw [logAndHangUp, Routine.exec_bind_ok (exec_logAt_some severity ht)]
  rfl

/-- With a valid index the dial result's deed is done. -/
theorem exec_dealEProcAutoDial {t : Trunk} (dw : DialResult)
    (ht : sh.trunkVector[toSizeT n]? = some t) :
    (dealEProcAutoDial cfg d enabled n dw).exec sh
      = ((deed cfg (t.elapsed sh.now) dw).call d (toSizeT n)).exec sh := by
  cases dw with
  | standby => rfl
  | dialing => exact exec_logOnly_some _ ht
  | echotone =>
    rw [dealEProcAutoDial, Routine.exec_bind_ok (exec_logAt_some _ ht),
      Routine.exec_bind_ok (exec_logAt_some _ ht), Routine.exec_bind_ok (exec_trunkAt_some ht),
      Routine.exec_bind_ok (Routine.exec_get sh), deed]
    by_cases hearly : (cfg.useStrategy && t.elapsed sh.now ≤ cfg.ctiWarningElapse) = true
    · rw [if_pos hearly, if_pos hearly, Deed.call, Routine.exec_bind_ok (exec_trunkAt_some ht)]
    · rw [if_neg hearly, if_neg hearly, Deed.call]
  | noDialtone => exact exec_logAndHangUp_some _ _ ht
  | busytone => exact exec_logAndHangUp_some _ _ ht
  | echoNovoice => exact exec_logOnly_some _ ht
  | novoice => exact exec_logOnly_some _ ht
  | voice => exact exec_logAndHangUp_some _ _ ht
  | voicef1 => exact exec_logAndHangUp_some _ _ ht
  | voicef2 => exact exec_logAndHangUp_some _ _ ht
  | noanswer => exact exec_logAndHangUp_some _ _ ht
  | failure => exact exec_logAndHangUp_some _ _ ht
  | invalidPhonum => exact exec_logAndHangUp_some _ _ ht
  | sessionProceeding => exact exec_logOnly_some _ ht
  | isdnProgress => exact exec_logOnly_some _ ht
  | other _ => rfl

end

/-! ## A deed and its channel -/

section
variable {cfg : Config} {d : Driver} {sh : Shared} {c : Nat} {t : Trunk}

/-- A deed that writes `f` to its trunk writes what `f` makes of that trunk. -/
theorem modify_eq_set (ht : sh.trunkVector[c]? = some t) (f : Trunk → Trunk) :
    sh.trunkVector.modify c f = sh.trunkVector.set c (f t) := by
  rw [List.modify_eq_set_getElem?, ht]
  rfl

/-- The trunk as it is. -/
theorem set_self (ht : sh.trunkVector[c]? = some t) : sh.trunkVector.set c t = sh.trunkVector := by
  obtain ⟨hl, rfl⟩ := List.getElem?_eq_some_iff.mp ht
  exact List.set_getElem_self hl

/-- **A deed returns 1 and is done.** -/
theorem exec_deed (a : Deed) (ht : sh.trunkVector[c]? = some t)
    (hc : t.step ≠ .idle → t.clientSocket ≠ none) :
    ∃ sh', (a.call d c).exec sh = (.ok 1, sh') ∧ Dealt sh c t a sh' := by
  cases a with
  | nothing =>
    exact ⟨sh, rfl, (set_self ht).symm, (List.append_nil _).symm, (List.append_nil _).symm,
      (List.append_nil _).symm⟩
  | sleep =>
    rw [Deed.call, Routine.exec_bind_ok (exec_trunkAt_some ht)]
    by_cases hm : t.trunkMutex = true
    · rw [if_pos hm]
      refine ⟨{ sh with sleepChannelQueue := sh.sleepChannelQueue ++ [c] }, rfl, ?_,
        (List.append_nil _).symm, (List.append_nil _).symm, rfl⟩
      rw [Deed.trunk, if_pos hm, set_self ht]
    · rw [if_neg hm]
      refine ⟨{ sh.modifyTrunk c (.setStep .sleep) with
        sleepChannelQueue := sh.sleepChannelQueue ++ [c] }, rfl, ?_,
        (List.append_nil _).symm, (List.append_nil _).symm, rfl⟩
      rw [Deed.trunk, if_neg hm]
      exact modify_eq_set ht (.setStep .sleep)
  | hangUp status =>
    rw [Deed.call]
    rcases ctiHangUp_cases d status ht hc with ⟨hu, hex⟩ | ⟨hu, client, hcl, hex⟩
    · refine ⟨sh, ?_, ?_, ?_, ?_, (List.append_nil _).symm⟩
      · rw [Routine.exec_bind_ok (Routine.exec_discard_ok hex)]
        rfl
      · rw [Deed.trunk, hu]
        exact (set_self ht).symm
      · rw [Deed.answers, hu]
        exact (List.append_nil _).symm
      · rw [Deed.channels, hu]
        exact (List.append_nil _).symm
    · refine ⟨sh.release c t client status, ?_, ?_, ?_, ?_, (List.append_nil _).symm⟩
      · rw [Routine.exec_bind_ok (Routine.exec_discard_ok hex)]
        rfl
      · rw [Deed.trunk, hu]
        exact modify_eq_set ht (.realseTrunk sh.now)
      · rw [Deed.answers, hu, hcl]
        exact sh.release_responses c t client status
      · rw [Deed.channels, hu]
        exact sh.release_channelQueue c t client status

theorem alone_autoDial {n i : Nat} {p : AutoDialPc} {pc' : Pc} {sh' : Shared} {b : Shared × Pc}
    (hrun : sh.crashed = false) (h : execAutoDial cfg sh c p = some (sh', pc'))
    (hb : Alone cfg d n i (sh', pc') b) : Alone cfg d n i (sh, .autoDial c p) b := by
  refine Program.Solo.head ?_ hb
  show exec cfg sh i (.autoDial c p) (d.answer (.autoDial c p)) = some (sh', pc')
  rw [exec.eq_def, hrun]
  exact h

/-- A deed as steps of its thread. -/
theorem deed_solo {n i : Nat} {sh' : Shared} (a : Deed) (hrun : sh.crashed = false)
    (ht : sh.trunkVector[c]? = some t) (h : (a.call d c).exec sh = (.ok 1, sh')) :
    Alone cfg d n i (sh, a.pc c) (sh', .ret) := by
  cases a with
  | nothing =>
    cases h
    exact .refl
  | sleep =>
    rw [Deed.call, Routine.exec_bind_ok (exec_trunkAt_some ht)] at h
    by_cases hm : t.trunkMutex = true
    · rw [if_pos hm] at h
      cases h
      have hlock : execAutoDial cfg sh c .lock = some (sh, .autoDial c (.put false)) := by
        simp only [execAutoDial, ht, if_pos hm]
      exact alone_autoDial hrun hlock (alone_autoDial hrun rfl .refl)
    · rw [if_neg hm] at h
      cases h
      have hlock : execAutoDial cfg sh c .lock
          = some (sh.modifyTrunk c (.setMutex true), .autoDial c .setSleep) := by
        simp only [execAutoDial, ht, if_neg hm]
      refine alone_autoDial hrun hlock (alone_autoDial hrun rfl (alone_autoDial hrun rfl
        (alone_autoDial hrun rfl ?_)))
      -- locked, marked and unlocked, the trunk is marked
      have hv := modify_locked (f := .setStep .sleep) ht (Bool.eq_false_iff.mpr hm) fun _ => rfl
      simp only [Shared.modifyTrunk, hv]
      exact .refl
  | hangUp status =>
    rw [Deed.call] at h
    cases hex : (ctiHangUp d c status).exec sh with
    | mk v sh₁ =>
      cases v with
      | error e =>
        rw [Routine.exec_bind_error (Routine.exec_discard_error hex)] at h
        cases h
      | ok v =>
        rw [Routine.exec_bind_ok (Routine.exec_discard_ok hex)] at h
        cases h
        exact ctiHangUp_solo hrun hex

end

/-! ## `cti_callback` -/

section
variable {cfg : Config} {d : Driver} {enabled : Severity → Bool} {sh : Shared} {n : Int}
  {dw : DialResult}

/-- `nReference`, as a `size_t`, is an index of `m_trunk_vector`. -/
def Shared.IsChannel (sh : Shared) (nReference : Int) : Prop :=
  toSizeT nReference < sh.trunkVector.length

instance (sh : Shared) (nReference : Int) : Decidable (sh.IsChannel nReference) :=
  inferInstanceAs (Decidable (toSizeT nReference < sh.trunkVector.length))

/-- A harmless `switch` is the end of it: the handler catches what it throws. -/
theorem Harmless.caught {wEvent : CardEvent}
    (h : Harmless (dispatch cfg d enabled wEvent n dw) sh) :
    (ctiCallback cfg d enabled wEvent n dw).exec sh = (.ok 1, sh) := by
  rw [ctiCallback]
  rcases h with h | h
  · exact Routine.exec_tryCatch_ok h
  · rw [Routine.exec_tryCatch_error h]
    rfl

/-- Events other than `E_PROC_AutoDial` change nothing. -/
theorem harmless_dispatch {wEvent : CardEvent} (hw : wEvent ≠ .procAutoDial) :
    Harmless (dispatch cfg d enabled wEvent n dw) sh := by
  cases wEvent with
  | sysNoSound => exact harmless_one sh
  | rcvSs7Msu => exact harmless_dealERcvSs7Msu d sh
  | sysBargeIn => exact (harmless_one sh).logged _
  | procAutoDial => exact absurd rfl hw
  | rcvSs7IsupCpg => exact harmless_logOnly _
  | chgChState => exact harmless_logOnly _
  | chgMtp2Status => exact harmless_one sh
  | chgPcmLinkStatus => exact harmless_logOnly _
  | other _ => exact harmless_one sh

/-- An event that is no dial result of a channel changes nothing. -/
theorem ctiCallback_ignored {wEvent : CardEvent}
    (h : wEvent ≠ .procAutoDial ∨ ¬sh.IsChannel n) :
    (ctiCallback cfg d enabled wEvent n dw).exec sh = (.ok 1, sh) := by
  by_cases hw : wEvent = .procAutoDial
  · subst hw
    have ht : sh.trunkVector[toSizeT n]? = none :=
      List.getElem?_eq_none (Nat.le_of_not_lt (h.resolve_left fun hne => hne rfl))
    have hlog : Harmless (dispatch cfg d enabled .procAutoDial n dw) sh :=
      (harmless_dealEProcAutoDial dw ht).logged .debug
    exact hlog.caught
  · exact (harmless_dispatch hw).caught

/-- A dial result of a channel is its deed. -/
theorem ctiCallback_deed {t : Trunk} (ht : sh.trunkVector[toSizeT n]? = some t) {sh' : Shared}
    (h : ((deed cfg (t.elapsed sh.now) dw).call d (toSizeT n)).exec sh = (.ok 1, sh')) :
    (ctiCallback cfg d enabled .procAutoDial n dw).exec sh = (.ok 1, sh') := by
  rw [ctiCallback]
  apply Routine.exec_tryCatch_ok
  rw [dispatch, Routine.exec_bind_ok (exec_logAt_some .debug ht), exec_dealEProcAutoDial dw ht]
  exact h

/-- The trunk of a channel, which has its client while it is busy. -/
theorem trunk_of_isChannel (hC : ClientInv sh) (hn : sh.IsChannel n) :
    ∃ t, sh.trunkVector[toSizeT n]? = some t ∧ (t.step ≠ .idle → t.clientSocket ≠ none) :=
  ⟨_, List.getElem?_eq_getElem hn, hC _ _ (List.getElem?_eq_getElem hn)⟩

/-- **`cti_callback` is what its thread does by itself**, from the driver's call
to its return. -/
theorem ctiCallback_solo {m i : Nat} (hC : ClientInv sh) (hrun : sh.crashed = false) :
    ∃ sh', (ctiCallback cfg d enabled .procAutoDial n dw).exec sh = (.ok 1, sh') ∧
      Alone cfg d m i (sh, .autoDial (toSizeT n) (.enter dw)) (sh', .ret) := by
  by_cases hn : sh.IsChannel n
  · obtain ⟨t, ht, hc⟩ := trunk_of_isChannel hC hn
    obtain ⟨sh', hex, _⟩ := exec_deed (d := d) (deed cfg (t.elapsed sh.now) dw) ht hc
    refine ⟨sh', ctiCallback_deed ht hex, alone_autoDial hrun ?_ (deed_solo _ hrun ht hex)⟩
    simp only [execAutoDial, ht, dealAutoDial_eq]
  · refine ⟨sh, ctiCallback_ignored (Or.inr hn), alone_autoDial hrun ?_ .refl⟩
    have ht : sh.trunkVector[toSizeT n]? = none := List.getElem?_eq_none (Nat.le_of_not_lt hn)
    simp only [execAutoDial, ht]

end

/-! ## Only its own channel -/

/-- Nothing but channel `c` is touched: at most one response is written and at
most one queue gets the channel, once. -/
structure OwnChannel (sh sh' : Shared) (c : Nat) : Prop where
  others : ∀ e, e ≠ c → sh'.trunkVector[e]? = sh.trunkVector[e]?
  responses : ∃ rs, rs.length ≤ 1 ∧ sh'.responses = sh.responses ++ rs
  queues : ∃ cs ss, cs.length + ss.length ≤ 1 ∧ (∀ e ∈ cs ++ ss, e = c) ∧
    sh'.channelQueue = sh.channelQueue ++ cs ∧
    sh'.sleepChannelQueue = sh.sleepChannelQueue ++ ss

theorem OwnChannel.refl (sh : Shared) (c : Nat) : OwnChannel sh sh c :=
  ⟨fun _ _ => rfl, ⟨[], Nat.zero_le _, (List.append_nil _).symm⟩,
    ⟨[], [], Nat.zero_le _, (by intro _ he; cases he), (List.append_nil _).symm,
      (List.append_nil _).symm⟩⟩

theorem Deed.length_answers_le (a : Deed) (t : Trunk) : (a.answers t).length ≤ 1 := by
  unfold Deed.answers
  split
  · split
    · cases t.clientSocket <;> simp
    · exact Nat.zero_le _
  · exact Nat.zero_le _

theorem Deed.length_queues_le (a : Deed) (c : Nat) (t : Trunk) :
    (a.channels c t).length + (a.sleepers c).length ≤ 1 := by
  cases a with
  | nothing => exact Nat.zero_le _
  | sleep => exact Nat.le_refl _
  | hangUp _ =>
    rw [Deed.channels]
    split
    · exact Nat.le_refl _
    · exact Nat.zero_le _

theorem Deed.mem_queues {a : Deed} {c e : Nat} {t : Trunk}
    (h : e ∈ a.channels c t ++ a.sleepers c) : e = c := by
  cases a with
  | nothing => cases h
  | sleep => exact List.mem_singleton.mp h
  | hangUp _ =>
    rcases List.mem_append.mp h with h | h
    · rw [Deed.channels] at h
      split at h
      · exact List.mem_singleton.mp h
      · cases h
    · cases h

theorem Dealt.ownChannel {sh sh' : Shared} {c : Nat} {t : Trunk} {a : Deed}
    (h : Dealt sh c t a sh') : OwnChannel sh sh' c := by
  refine ⟨fun e he => ?_, ⟨_, a.length_answers_le t, h.responses⟩,
    ⟨_, _, a.length_queues_le c t, fun _ => Deed.mem_queues, h.channels, h.sleepers⟩⟩
  rw [h.trunks, List.getElem?_set_ne he.symm]

/-! ## Either order -/

/-- An `E_PROC_AutoDial` event, and the clock when it is handled. -/
structure AutoDialEvent where
  nReference : Int
  dwParam : DialResult
  now : Nat

/-- The channel an event is for. -/
def AutoDialEvent.channel (e : AutoDialEvent) : Nat := toSizeT e.nReference

/-- The state after an event. -/
def handle (cfg : Config) (d : Driver) (enabled : Severity → Bool) (e : AutoDialEvent)
    (sh : Shared) : Shared :=
  ((ctiCallback cfg d enabled .procAutoDial e.nReference e.dwParam).exec
    { sh with now := e.now }).2

/-- The same trunks; the same responses and queues up to order. -/
structure SameUpToOrder (sh sh' : Shared) : Prop where
  trunks : sh.trunkVector = sh'.trunkVector
  responses : sh.responses.Perm sh'.responses
  channels : sh.channelQueue.Perm sh'.channelQueue
  sleepers : sh.sleepChannelQueue.Perm sh'.sleepChannelQueue

section
variable {cfg : Config} {d : Driver} {enabled : Severity → Bool} {sh : Shared}

/-- An event at a channel does the deed that its trunk and the clock ask for. -/
theorem handle_dealt {e : AutoDialEvent} {t : Trunk}
    (ht : sh.trunkVector[e.channel]? = some t) (hc : t.step ≠ .idle → t.clientSocket ≠ none) :
    Dealt { sh with now := e.now } e.channel t (deed cfg (t.elapsed e.now) e.dwParam)
      (handle cfg d enabled e sh) := by
  have ht' : ({ sh with now := e.now } : Shared).trunkVector[toSizeT e.nReference]? = some t := ht
  obtain ⟨sh', hex, hdealt⟩ := exec_deed (d := d) (deed cfg (t.elapsed e.now) e.dwParam) ht' hc
  rw [handle, ctiCallback_deed ht' hex]
  exact hdealt

/-- What two events append, either first. -/
theorem append_perm {α : Type} {old xs ys new new' : List α} (h : new = (old ++ xs) ++ ys)
    (h' : new' = (old ++ ys) ++ xs) : new.Perm new' := by
  rw [h, h', List.append_assoc, List.append_assoc]
  exact List.perm_append_comm.append_left old

/-- Events on different channels commute. -/
theorem handle_comm (hC : ClientInv sh) {e₁ e₂ : AutoDialEvent} (h₁ : sh.IsChannel e₁.nReference)
    (h₂ : sh.IsChannel e₂.nReference) (hne : e₁.channel ≠ e₂.channel) :
    SameUpToOrder (handle cfg d enabled e₂ (handle cfg d enabled e₁ sh))
      (handle cfg d enabled e₁ (handle cfg d enabled e₂ sh)) := by
  obtain ⟨t₁, ht₁, hc₁⟩ := trunk_of_isChannel hC h₁
  obtain ⟨t₂, ht₂, hc₂⟩ := trunk_of_isChannel hC h₂
  have hdeed : ∀ {s : Shared} {e : AutoDialEvent} {t : Trunk},
      s.trunkVector[e.channel]? = some t → (t.step ≠ .idle → t.clientSocket ≠ none) →
      Dealt { s with now := e.now } e.channel t (deed cfg (t.elapsed e.now) e.dwParam)
        (handle cfg d enabled e s) := fun ht hc => handle_dealt ht hc
  have d₁ := hdeed ht₁ hc₁
  have d₂ := hdeed ht₂ hc₂
  -- the second event finds its trunk as it was
  have ht₁' : (handle cfg d enabled e₂ sh).trunkVector[e₁.channel]? = some t₁ :=
    (d₂.ownChannel.others _ hne).trans ht₁
  have ht₂' : (handle cfg d enabled e₁ sh).trunkVector[e₂.channel]? = some t₂ :=
    (d₁.ownChannel.others _ hne.symm).trans ht₂
  have d₁₂ := hdeed ht₂' hc₂
  have d₂₁ := hdeed ht₁' hc₁
  refine ⟨?_, ?_, ?_, ?_⟩
  · rw [d₁₂.trunks, d₂₁.trunks]
    show (handle cfg d enabled e₁ sh).trunkVector.set _ _
      = (handle cfg d enabled e₂ sh).trunkVector.set _ _
    rw [d₁.trunks, d₂.trunks, List.set_comm _ _ hne]
  · exact append_perm (d₁₂.responses.trans (congrArg (· ++ _) d₁.responses))
      (d₂₁.responses.trans (congrArg (· ++ _) d₂.responses))
  · exact append_perm (d₁₂.channels.trans (congrArg (· ++ _) d₁.channels))
      (d₂₁.channels.trans (congrArg (· ++ _) d₂.channels))
  · exact append_perm (d₁₂.sleepers.trans (congrArg (· ++ _) d₁.sleepers))
      (d₂₁.sleepers.trans (congrArg (· ++ _) d₂.sleepers))

/-- **Driver events touch only their own channel**, and two of them on different
channels may come in either order. -/
theorem callback_ownChannel (cfg : Config) (d : Driver) (enabled : Severity → Bool)
    (hC : ClientInv sh) :
    (∀ (wEvent : CardEvent) (nReference : Int) (dwParam : DialResult), ∃ sh',
      (ctiCallback cfg d enabled wEvent nReference dwParam).exec sh = (.ok 1, sh') ∧
      (wEvent ≠ .procAutoDial ∨ ¬sh.IsChannel nReference → Untouched sh sh') ∧
      OwnChannel sh sh' (toSizeT nReference)) ∧
    ∀ e₁ e₂ : AutoDialEvent, sh.IsChannel e₁.nReference → sh.IsChannel e₂.nReference →
      e₁.channel ≠ e₂.channel →
      SameUpToOrder (handle cfg d enabled e₂ (handle cfg d enabled e₁ sh))
        (handle cfg d enabled e₁ (handle cfg d enabled e₂ sh)) := by
  refine ⟨fun wEvent nReference dwParam => ?_, fun e₁ e₂ h₁ h₂ hne => handle_comm hC h₁ h₂ hne⟩
  by_cases h : wEvent ≠ .procAutoDial ∨ ¬sh.IsChannel nReference
  · exact ⟨sh, ctiCallback_ignored h, fun _ => .refl sh, .refl sh _⟩
  · rw [not_or, not_not, not_not] at h
    obtain ⟨rfl, hn⟩ := h
    obtain ⟨t, ht, hc⟩ := trunk_of_isChannel hC hn
    obtain ⟨sh', hex, hdealt⟩ := exec_deed (d := d) (deed cfg (t.elapsed sh.now) dwParam) ht hc
    refine ⟨sh', ctiCallback_deed ht hex, fun hor => ?_, hdealt.ownChannel⟩
    exact absurd hn (hor.resolve_left fun hne => hne rfl)

end

/-- The answer to the call on trunk 0, and the ring of the call on trunk 3. -/
theorem callback_crowded :
    ¬crowded.IsChannel (-1) ∧
    SameUpToOrder
      (handle oneChannel (hangupAnswers 0) (fun _ => true) ⟨3, .echotone, 17000⟩
        (handle oneChannel (hangupAnswers 0) (fun _ => true) ⟨0, .voice, 20000⟩ crowded))
      (handle oneChannel (hangupAnswers 0) (fun _ => true) ⟨0, .voice, 20000⟩
        (handle oneChannel (hangupAnswers 0) (fun _ => true) ⟨3, .echotone, 17000⟩ crowded)) :=
  ⟨by decide, (callback_ownChannel oneChannel (hangupAnswers 0) (fun _ => true)
    (clientInv_of_forall (by decide))).2 ⟨0, .voice, 20000⟩ ⟨3, .echotone, 17000⟩ (by decide)
      (by decide) (by decide)⟩

end CiaServer.Cti
