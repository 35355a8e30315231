import CiaServer.Cti.HangUp

/-!
# One timeout scan (`timeout_check`)

The `for` loop of `timeout_check` looks at every trunk in turn. A call that has
lasted `m_timeout_elapse` is hung up: its flag is set first if it is off, under
a first `try_lock`, and `cti_hangUp` then takes the lock again and leaves a
sleeping trunk alone.

`timeoutPass_scanned` says what a whole pass leaves of a vector of trunks, with
no other thread interleaved; the trunks that others keep locked are those whose
`trunkMutex` is set. `timeoutPass_solo` ties the pass to the thread's steps.
-/

namespace CiaServer.Cti

open Interleave

/-- The scan releases the trunk. -/
def Trunk.overdue (cfg : Config) (now : Nat) (t : Trunk) : Bool :=
  t.step != .idle && t.step != .sleep && decide (cfg.timeoutElapse ≤ t.elapsed now) &&
    !t.trunkMutex

/-- The scan sets the flag of the trunk and leaves it otherwise. -/
def Trunk.overslept (cfg : Config) (now : Nat) (t : Trunk) : Bool :=
  t.step == .sleep && decide (cfg.timeoutElapse ≤ t.elapsed now) && !t.trunkMutex

/-- `m_hungup_by_echo_tone = true`. -/
def Trunk.setFlag (t : Trunk) : Trunk := { t with hungupByEchoTone := true }

/-- What a scan leaves of a trunk. -/
def Trunk.scanned (cfg : Config) (now : Nat) (t : Trunk) : Trunk :=
  if t.overdue cfg now then t.realseTrunk now
  else if t.overslept cfg now then t.setFlag
  else t

/-- Trunk `i` is overdue. -/
def Shared.overdueAt (sh : Shared) (cfg : Config) (i : Nat) : Bool :=
  (sh.trunkVector[i]?).any (·.overdue cfg sh.now)

/-- The overdue trunks, in increasing order. -/
def Shared.overdue (sh : Shared) (cfg : Config) : List Nat :=
  (List.range sh.trunkVector.length).filter (sh.overdueAt cfg)

/-- The answer to the call on trunk `i`: failed, under the call's own number. -/
def Shared.FailedCall (sh : Shared) (i : Nat) (r : Response) : Prop :=
  ∃ t client, sh.trunkVector[i]? = some t ∧ t.clientSocket = some client ∧
    r = { client, transId := t.transId, status := ciaCallFail }

/-- What a whole pass does: the overdue calls, each once and in order, are
answered and their channels returned; the trunks are as `scanned` says. -/
structure Scanned (cfg : Config) (sh sh' : Shared) : Prop where
  answered : ∃ rs, List.Forall₂ sh.FailedCall (sh.overdue cfg) rs ∧
    sh'.responses = sh.responses ++ rs
  channels : sh'.channelQueue = sh.channelQueue ++ sh.overdue cfg
  trunks : sh'.trunkVector = sh.trunkVector.map (Trunk.scanned cfg sh.now)
  sleepers : sh'.sleepChannelQueue = sh.sleepChannelQueue

/-! ## The trunks a scan does not change -/

theorem scanned_of_locked {cfg : Config} {now : Nat} {t : Trunk} (hm : t.trunkMutex = true) :
    t.overdue cfg now = false ∧ t.scanned cfg now = t := by
  have ho : t.overdue cfg now = false := by simp [Trunk.overdue, hm]
  have hs : t.overslept cfg now = false := by simp [Trunk.overslept, hm]
  refine ⟨ho, ?_⟩
  rw [Trunk.scanned, ho, hs]
  rfl

theorem scanned_of_young {cfg : Config} {now : Nat} {t : Trunk}
    (h : ¬(t.step ≠ .idle ∧ cfg.timeoutElapse ≤ t.elapsed now)) :
    t.overdue cfg now = false ∧ t.scanned cfg now = t := by
  have ho : t.overdue cfg now = false := by
    simp only [Trunk.overdue, Bool.and_eq_false_iff, bne_eq_false_iff_eq, decide_eq_false_iff_not]
    by_cases hi : t.step = .idle
    · exact Or.inl (Or.inl (Or.inl hi))
    · exact Or.inl (Or.inr fun he => h ⟨hi, he⟩)
  have hs : t.overslept cfg now = false := by
    simp only [Trunk.overslept, Bool.and_eq_false_iff, beq_eq_false_iff_ne, decide_eq_false_iff_not]
    by_cases hi : t.step = .sleep
    · exact Or.inl (Or.inr fun he => h ⟨by rw [hi]; exact TrunkState.noConfusion, he⟩)
    · exact Or.inl (Or.inl hi)
  refine ⟨ho, ?_⟩
  rw [Trunk.scanned, ho, hs]
  rfl

/-- A sleeping trunk is only marked. -/
theorem scanned_of_asleep {cfg : Config} {now : Nat} {t : Trunk} (hs : t.step = .sleep)
    (he : cfg.timeoutElapse ≤ t.elapsed now) (hm : t.trunkMutex = false) :
    t.overdue cfg now = false ∧ t.scanned cfg now = t.setFlag := by
  have ho : t.overdue cfg now = false := by simp [Trunk.overdue, hs]
  have hw : t.overslept cfg now = true := by simp [Trunk.overslept, hs, he, hm]
  refine ⟨ho, ?_⟩
  rw [Trunk.scanned, ho, hw]
  rfl

theorem overdue_of_awake {cfg : Config} {now : Nat} {t : Trunk} (hi : t.step ≠ .idle)
    (hs : t.step ≠ .sleep) (he : cfg.timeoutElapse ≤ t.elapsed now) (hm : t.trunkMutex = false) :
    t.overdue cfg now = true ∧ t.scanned cfg now = t.realseTrunk now := by
  have ho : t.overdue cfg now = true := by simp [Trunk.overdue, hi, hs, he, hm]
  refine ⟨ho, ?_⟩
  rw [Trunk.scanned, ho]
  rfl

/-! ## The body of the loop -/

/-- What the body of the loop does at trunk `i`, which is `t`. -/
inductive Looked (cfg : Config) (sh : Shared) (i : Nat) (t : Trunk) : Shared → Prop where
  | released {client : Client} (ho : t.overdue cfg sh.now = true)
      (hcl : t.clientSocket = some client) :
      Looked cfg sh i t (sh.release i t client ciaCallFail)
  | kept (ho : t.overdue cfg sh.now = false) :
      Looked cfg sh i t (sh.modifyTrunk i (Trunk.scanned cfg sh.now))

section
variable {cfg : Config} {d : Driver} {sh : Shared} {i : Nat} {t : Trunk}

/-- A trunk that the scan does not change. -/
theorem Looked.of_scanned_eq (ht : sh.trunkVector[i]? = some t)
    (h : t.overdue cfg sh.now = false ∧ t.scanned cfg sh.now = t) : Looked cfg sh i t sh := by
  have hk : Looked cfg sh i t (sh.modifyTrunk i (Trunk.scanned cfg sh.now)) := .kept h.1
  rw [Shared.modifyTrunk_of_eq ht h.2] at hk
  exact hk

/-- The release of a trunk whose flag was set first is its release. -/
theorem release_flagged (ht : sh.trunkVector[i]? = some t) (client : Client) (status : Bytes) :
    (sh.modifyTrunk i Trunk.setFlag).release i t.setFlag client status
      = sh.release i t client status := by
  have hv : (sh.trunkVector.modify i Trunk.setFlag).modify i (.realseTrunk sh.now)
      = sh.trunkVector.modify i (.realseTrunk sh.now) := by
    rw [List.modify_modify_eq]
    exact congrArg Shared.trunkVector (Shared.modifyTrunk_congr ht rfl)
  simp only [Shared.release, Shared.modifyTrunk, Shared.respond, Shared.note, Shared.callOn, hv]
  rfl

/-- `cti_hangUp` of an old call once its flag is set. -/
theorem exec_hangUp_flagged (hi : t.step ≠ .idle) (he : cfg.timeoutElapse ≤ t.elapsed sh.now)
    (hm : t.trunkMutex = false) (ht : sh.trunkVector[i]? = some t)
    (hc : t.clientSocket ≠ none) :
    ∃ v sh', (ctiHangUp d i ciaCallFail).exec (sh.modifyTrunk i Trunk.setFlag) = (.ok v, sh') ∧
      Looked cfg sh i t sh' := by
  have ht₁ := Shared.modifyTrunk_get Trunk.setFlag ht
  rcases ctiHangUp_cases d ciaCallFail ht₁ (fun _ => hc) with ⟨hu, hex⟩ | ⟨hu, client, hcl, hex⟩
  · -- refused under a set flag: it sleeps
    have hs : t.step = .sleep := by
      simpa [Trunk.hangsUp, Trunk.refusesHangUp, Trunk.setFlag, hm, hi] using hu
    obtain ⟨ho, hsc⟩ := scanned_of_asleep hs he hm
    refine ⟨-1, _, hex, ?_⟩
    rw [Shared.modifyTrunk_congr ht hsc.symm]
    exact .kept ho
  · have hs : t.step ≠ .sleep := by
      intro hs
      simp [Trunk.hangsUp, Trunk.refusesHangUp, Trunk.setFlag, hs] at hu
    refine ⟨d.ssmHangup i, _, hex, ?_⟩
    rw [release_flagged ht]
    exact .released (overdue_of_awake hi hs he hm).1 hcl

/-- **The body of the loop**, at a trunk that has its client while it is busy. -/
theorem exec_timeoutLook (cfg : Config) (d : Driver) (ht : sh.trunkVector[i]? = some t)
    (hc : t.step ≠ .idle → t.clientSocket ≠ none) :
    ∃ sh', (timeoutLook cfg d i).exec sh = (.ok (), sh') ∧ Looked cfg sh i t sh' := by
  rw [timeoutLook, Routine.exec_bind_ok (exec_trunkAt_some ht),
    Routine.exec_bind_ok (Routine.exec_get sh)]
  by_cases hb : t.step ≠ .idle ∧ cfg.timeoutElapse ≤ t.elapsed sh.now
  · rw [if_pos hb]
    by_cases hm : t.trunkMutex = true
    · -- locked: the flag is not set, and the hang-up is given up
      refine ⟨sh, ?_, .of_scanned_eq ht (scanned_of_locked hm)⟩
      have hex : (ctiHangUp d i ciaCallFail).exec sh = (.ok (-1), sh) := by
        rw [exec_ctiHangUp d ciaCallFail ht, Trunk.hangsUp, hm]
        rfl
      by_cases hflag : t.hungupByEchoTone = true
      · rw [if_pos hflag]
        exact Routine.exec_discard_ok hex
      · rw [if_neg hflag, if_pos hm]
        rfl
    · have hm' : t.trunkMutex = false := Bool.eq_false_iff.mpr hm
      obtain ⟨v, sh', hex, hl⟩ := exec_hangUp_flagged (d := d) hb.1 hb.2 hm' ht (hc hb.1)
      refine ⟨sh', ?_, hl⟩
      by_cases hflag : t.hungupByEchoTone = true
      · rw [if_pos hflag]
        rw [Shared.modifyTrunk_of_eq ht (by rw [Trunk.setFlag, ← hflag])] at hex
        exact Routine.exec_discard_ok hex
      · rw [if_neg hflag, if_neg hm, Routine.exec_bind_ok (Routine.exec_modify _ _)]
        exact Routine.exec_discard_ok hex
  · rw [if_neg hb]
    exact ⟨sh, rfl, .of_scanned_eq ht (scanned_of_young hb)⟩

/-! ## The body as steps of the thread -/

theorem alone_timeoutCheck {n j : Nat} {p : TimeoutPc} {pc' : Pc} {sh' : Shared}
    {b : Shared × Pc} (hrun : sh.crashed = false)
    (h : execTimeoutCheck cfg sh p = some (sh', pc'))
    (hb : Alone cfg d n j (sh', pc') b) : Alone cfg d n j (sh, .timeoutCheck p) b := by
  refine Program.Solo.head ?_ hb
  show exec cfg sh j (.timeoutCheck p) (d.answer (.timeoutCheck p)) = some (sh', pc')
  rw [exec.eq_def, hrun]
  exact h

/-- What the thread does once it is in `cti_hangUp`. -/
theorem timeoutHangUp_solo {n j : Nat} {sh' : Shared} (hrun : sh.crashed = false)
    (ht : sh.trunkVector[i]? = some t) (hc : t.step ≠ .idle → t.clientSocket ≠ none)
    (h : (discard (ctiHangUp d i ciaCallFail)).exec sh = (.ok (), sh')) :
    Alone cfg d n j (sh, .hangUp (.timeoutCheck i) i ciaCallFail .lock)
      (sh', .timeoutCheck (.look (i + 1))) := by
  have hret : ∃ v sh₂, (ctiHangUp d i ciaCallFail).exec sh = (.ok v, sh₂) := by
    rcases ctiHangUp_cases d ciaCallFail ht hc with ⟨_, hex⟩ | ⟨_, client, _, hex⟩
    · exact ⟨_, _, hex⟩
    · exact ⟨_, _, hex⟩
  obtain ⟨v, sh₂, hex⟩ := hret
  rw [Routine.exec_discard_ok hex] at h
  cases h
  exact ctiHangUp_solo hrun hex

/-- **The body of the loop is what the thread does by itself.** -/
theorem timeoutLook_solo {n j : Nat} {sh' : Shared} (hrun : sh.crashed = false)
    (ht : sh.trunkVector[i]? = some t) (hc : t.step ≠ .idle → t.clientSocket ≠ none)
    (h : (timeoutLook cfg d i).exec sh = (.ok (), sh')) :
    Alone cfg d n j (sh, .timeoutCheck (.look i)) (sh', .timeoutCheck (.look (i + 1))) := by
  rw [timeoutLook, Routine.exec_bind_ok (exec_trunkAt_some ht),
    Routine.exec_bind_ok (Routine.exec_get sh)] at h
  by_cases hb : t.step ≠ .idle ∧ cfg.timeoutElapse ≤ t.elapsed sh.now
  · rw [if_pos hb] at h
    by_cases hflag : t.hungupByEchoTone = true
    · rw [if_pos hflag] at h
      have hlook : execTimeoutCheck cfg sh (.look i)
          = some (sh, .hangUp (.timeoutCheck i) i ciaCallFail .lock) := by
        simp only [execTimeoutCheck, ht, if_pos hb, if_pos hflag]
      exact alone_timeoutCheck hrun hlook (timeoutHangUp_solo hrun ht hc h)
    · rw [if_neg hflag] at h
      have hlook : execTimeoutCheck cfg sh (.look i) = some (sh, .timeoutCheck (.lock i)) := by
        simp only [execTimeoutCheck, ht, if_pos hb, if_neg hflag]
      refine alone_timeoutCheck hrun hlook ?_
      by_cases hm : t.trunkMutex = true
      · rw [if_pos hm] at h
        cases h
        have hbusy : execTimeoutCheck cfg sh (.lock i)
            = some (sh, .timeoutCheck (.look (i + 1))) := by
          simp only [execTimeoutCheck, ht, if_pos hm]
        exact alone_timeoutCheck hrun hbusy .refl
      · rw [if_neg hm] at h
        have hlock : execTimeoutCheck cfg sh (.lock i)
            = some (sh.modifyTrunk i (.setMutex true), .timeoutCheck (.setFlag i)) := by
          simp only [execTimeoutCheck, ht, if_neg hm]
        refine alone_timeoutCheck hrun hlock (alone_timeoutCheck hrun rfl
          (alone_timeoutCheck hrun rfl ?_))
        -- locked, marked and unlocked, the trunk is marked
        have hv := modify_locked (f := Trunk.setFlag) ht (Bool.eq_false_iff.mpr hm) fun _ => rfl
        have hsh : ((sh.modifyTrunk i (.setMutex true)).modifyTrunk i Trunk.setFlag).modifyTrunk i
            (.setMutex false) = sh.modifyTrunk i Trunk.setFlag := by
          simp only [Shared.modifyTrunk, hv]
        show Alone cfg d n j (((sh.modifyTrunk i (.setMutex true)).modifyTrunk i
          Trunk.setFlag).modifyTrunk i (.setMutex false), _) _
        rw [hsh]
        exact timeoutHangUp_solo hrun (Shared.modifyTrunk_get Trunk.setFlag ht) (fun _ => hc hb.1) h
  · rw [if_neg hb] at h
    cases h
    have hlook : execTimeoutCheck cfg sh (.look i)
        = some (sh, .timeoutCheck (.look (i + 1))) := by
      simp only [execTimeoutCheck, ht, if_neg hb]
    exact alone_timeoutCheck hrun hlook .refl

end

/-! ## The whole pass -/

/-- What a pass has done after the trunks `done`. -/
structure ScanInv (cfg : Config) (sh : Shared) (done : List Nat) (s : Shared) : Prop where
  answered : ∃ rs, List.Forall₂ sh.FailedCall (done.filter (sh.overdueAt cfg)) rs ∧
    s.responses = sh.responses ++ rs
  channels : s.channelQueue = sh.channelQueue ++ done.filter (sh.overdueAt cfg)
  trunks : ∀ i, s.trunkVector[i]? =
    if i ∈ done then (sh.trunkVector[i]?).map (Trunk.scanned cfg sh.now) else sh.trunkVector[i]?
  sleepers : s.sleepChannelQueue = sh.sleepChannelQueue
  now : s.now = sh.now
  crashed : s.crashed = sh.crashed

theorem ScanInv.nil (cfg : Config) (sh : Shared) : ScanInv cfg sh [] sh :=
  ⟨⟨[], .nil, (List.append_nil _).symm⟩, (List.append_nil _).symm, fun _ => rfl, rfl, rfl, rfl⟩

/-- The body of the loop goes one trunk further. -/
theorem ScanInv.snoc {cfg : Config} {sh s s' : Shared} {done : List Nat} {i : Nat} {t : Trunk}
    (hI : ScanInv cfg sh done s) (hi : i ∉ done) (ht : sh.trunkVector[i]? = some t)
    (h : Looked cfg s i t s') : ScanInv cfg sh (done ++ [i]) s' := by
  have hat : sh.overdueAt cfg i = t.overdue cfg s.now := by
    rw [Shared.overdueAt, ht, hI.now]
    rfl
  have htrunks : ∀ {v : List Trunk}, v = s.trunkVector.modify i (Trunk.scanned cfg s.now) →
      ∀ e, v[e]? = if e ∈ done ++ [i] then (sh.trunkVector[e]?).map (Trunk.scanned cfg sh.now)
        else sh.trunkVector[e]? := by
    rintro _ rfl e
    have hget := getElem?_modifyTrunk s i e (Trunk.scanned cfg s.now)
    rw [Shared.modifyTrunk_trunkVector, hI.trunks e, hI.now] at hget
    rw [hI.now, hget]
    by_cases he : i = e
    · subst he
      rw [if_neg hi, if_pos (List.mem_append_right _ (List.mem_singleton_self i)), if_pos rfl]
    · have hmem : e ∈ done ++ [i] ↔ e ∈ done := by
        rw [List.mem_append, List.mem_singleton]
        exact or_iff_left fun h => he h.symm
      rw [if_neg he]
      simp only [hmem]
  obtain ⟨rs, hrs, hresp⟩ := hI.answered
  cases h with
  | @released client ho hcl =>
    have hfilter : (done ++ [i]).filter (sh.overdueAt cfg)
        = done.filter (sh.overdueAt cfg) ++ [i] := by
      rw [List.filter_append, List.filter_singleton, hat, ho]
      rfl
    have ht' : s.trunkVector[i]? = some t := by rw [hI.trunks, if_neg hi, ht]
    refine ⟨⟨rs ++ [{ client, transId := t.transId, status := ciaCallFail }], ?_, ?_⟩, ?_, ?_,
      hI.sleepers, hI.now, hI.crashed⟩
    · rw [hfilter]
      exact List.rel_append hrs (.cons ⟨t, client, ht, hcl, rfl⟩ .nil)
    · rw [Shared.release_responses, hresp, List.append_assoc]
    · rw [Shared.release_channelQueue, hI.channels, hfilter, List.append_assoc]
    · apply htrunks
      rw [Shared.release_trunkVector]
      refine congrArg Shared.trunkVector (Shared.modifyTrunk_congr ht' ?_)
      rw [Trunk.scanned, if_pos ho]
  | kept ho =>
    have hfilter : (done ++ [i]).filter (sh.overdueAt cfg) = done.filter (sh.overdueAt cfg) := by
      rw [List.filter_append, List.filter_singleton, hat, ho]
      exact List.append_nil _
    refine ⟨⟨rs, ?_, hresp⟩, ?_, htrunks rfl, hI.sleepers, hI.now, hI.crashed⟩
    · rw [hfilter]
      exact hrs
    · rw [hfilter]
      exact hI.channels

section
variable {sh : Shared}

/-- The pass from its beginning, by the loop's rule, beside the thread's own
steps. -/
theorem timeoutPass_run (cfg : Config) (d : Driver) (n j : Nat) (hC : ClientInv sh) :
    ∃ sh', (timeoutPass cfg d).exec sh = (.ok (), sh') ∧
      ScanInv cfg sh (List.range sh.trunkVector.length) sh' ∧
      (sh.crashed = false → Alone cfg d n j (sh, .timeoutCheck (.look 0))
        (sh', .timeoutCheck (.look sh.trunkVector.length))) := by
  let I : List Nat → Shared → Prop := fun done s => ScanInv cfg sh done s ∧
    (sh.crashed = false →
      Alone cfg d n j (sh, .timeoutCheck (.look 0)) (s, .timeoutCheck (.look done.length)))
  have hbody : ∀ (done : List Nat) (i : Nat) (rest : List Nat) (s : Shared),
      List.range sh.trunkVector.length = done ++ i :: rest → I done s →
      ∃ s', (timeoutLook cfg d i).exec s = (.ok ⟨⟩, s') ∧ I (done ++ [i]) s' := by
    intro done i rest s hrange hI
    obtain ⟨hscan, halone⟩ := hI
    have hnodup : (done ++ i :: rest).Nodup := hrange ▸ List.nodup_range
    have hi : i ∉ done := fun hm =>
      (List.nodup_append.mp hnodup).2.2 i hm i List.mem_cons_self rfl
    have hlt : i < sh.trunkVector.length := by
      rw [← List.mem_range, hrange]
      exact List.mem_append_right _ List.mem_cons_self
    -- the trunks come in the order of their numbers
    have hlen : done.length = i := by
      have hget : (List.range sh.trunkVector.length)[done.length]? = some i := by
        rw [hrange, List.getElem?_append_right (Nat.le_refl _), Nat.sub_self]
        rfl
      obtain ⟨hl, hr⟩ := List.getElem?_eq_some_iff.mp hget
      rw [← hr, List.getElem_range]
    have ht : sh.trunkVector[i]? = some sh.trunkVector[i] := List.getElem?_eq_getElem hlt
    have hts : s.trunkVector[i]? = some sh.trunkVector[i] := by rw [hscan.trunks, if_neg hi, ht]
    obtain ⟨s', hex, hlook⟩ := exec_timeoutLook cfg d hts (hC i _ ht)
    refine ⟨s', hex, hscan.snoc hi ht hlook, fun hrun => ?_⟩
    have hsolo := timeoutLook_solo (n := n) (j := j) (hscan.crashed.trans hrun) hts (hC i _ ht) hex
    rw [List.length_append, List.length_singleton]
    rw [← hlen] at hsolo
    exact (halone hrun).trans hsolo
  have h₀ : I [] sh := ⟨.nil cfg sh, fun _ => .refl⟩
  obtain ⟨sh', hex, hscan, halone⟩ := Routine.exec_forM hbody h₀
  refine ⟨sh', ?_, hscan, fun hrun => ?_⟩
  · rw [timeoutPass, Routine.exec_bind_ok (Routine.exec_get sh)]
    exact hex
  · have h := halone hrun
    rw [List.length_range] at h
    exact h

/-- **One pass hangs up the overdue calls and no others**: the calls that are
neither idle nor asleep, have lasted `m_timeout_elapse` and are not locked. -/
theorem timeoutPass_scanned (cfg : Config) (d : Driver) (hC : ClientInv sh) :
    ∃ sh', (timeoutPass cfg d).exec sh = (.ok (), sh') ∧ Scanned cfg sh sh' := by
  obtain ⟨sh', hex, hscan, _⟩ := timeoutPass_run cfg d 0 0 hC
  refine ⟨sh', hex, hscan.answered, hscan.channels, ?_, hscan.sleepers⟩
  apply List.ext_getElem?
  intro i
  rw [hscan.trunks, List.getElem?_map]
  by_cases hi : i < sh.trunkVector.length
  · rw [if_pos (List.mem_range.mpr hi)]
  · rw [if_neg fun h => hi (List.mem_range.mp h), List.getElem?_eq_none (Nat.le_of_not_lt hi)]
    rfl

/-- What a scan finds after 20 s: an overdue call, one that is locked, one that
sleeps, a call of 5 s, an idle trunk, and an overdue call whose flag is off. -/
def crowded : Shared where
  channelQueue := [4]
  sleepChannelQueue := [2]
  trunkVector :=
    [.fill (.new 7 [1] [] [] true 0) 0 (.new true),
     .setMutex true (.fill (.new 7 [2] [] [] true 0) 0 (.new true)),
     .setStep .sleep (.fill (.new 8 [3] [] [] false 0) 0 (.new true)),
     .fill (.new 8 [4] [] [] true 0) 15000 (.new true),
     .new true,
     .fill (.new 9 [5] [] [] false 0) 0 (.new true)]
  params := []
  waits := []
  now := 20000
  crashed := false
  calls := List.replicate 6 none
  log := []

theorem clientInv_of_forall
    (h : ∀ t ∈ sh.trunkVector, t.step ≠ .idle → t.clientSocket ≠ none) : ClientInv sh :=
  fun _ t ht => h t (List.mem_of_getElem? ht)

theorem timeoutPass_crowded :
    crowded.overdue oneChannel = [0, 5] ∧
    ∃ sh', (timeoutPass oneChannel (hangupAnswers (-1))).exec crowded = (.ok (), sh') ∧
      Scanned oneChannel crowded sh' :=
  ⟨by decide, timeoutPass_scanned oneChannel (hangupAnswers (-1)) (clientInv_of_forall (by decide))⟩

/-- **The pass is what the thread does by itself**, up to its next sleep. -/
theorem timeoutPass_solo (cfg : Config) (d : Driver) (n j : Nat) (hC : ClientInv sh) (hrun : sh.crashed = false) :
    ∃ sh', (timeoutPass cfg d).exec sh = (.ok (), sh') ∧
      Alone cfg d n j (sh, .timeoutCheck (.look 0)) (sh', .timeoutCheck (.sleep (sh.now + 500))) := by
  obtain ⟨sh', hex, hscan, halone⟩ := timeoutPass_run cfg d n j hC
  refine ⟨sh', hex, (halone hrun).trans (alone_timeoutCheck (hscan.crashed.trans hrun) ?_ .refl)⟩
  have hnone : sh'.trunkVector[sh.trunkVector.length]? = none := by
    rw [hscan.trunks, if_neg (fun h => Nat.lt_irrefl _ (List.mem_range.mp h))]
    exact List.getElem?_eq_none (Nat.le_refl _)
  simp only [execTimeoutCheck, hnone, hscan.now]

end

end CiaServer.Cti
