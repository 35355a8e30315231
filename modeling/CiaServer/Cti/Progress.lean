import CiaServer.Interleave.Rounds
import CiaServer.Cti.NothingLost

/-!
# What the threads of the card wait for

Of the locks a thread of the card keeps from one step to the next the trunk mutexes
are all (those of the queues are in `CardQueues`). `cti_callout`, `cti_hangUp`, the
ring handler and `timeout_check` only `try_lock` them; `deal_hungup_strategy` alone
takes one with `lock()`, and sleeps while it has it. But `cti_callout`,
`cti_callout_again` and `cti_hangUp` call `do_write`, which waits in `Take` while all
buffers of the client are out, and `cti_hangUp` calls it with the trunk locked.

`voiceCard_progress`: whichever clients have no buffer, a thread that cannot go on
has returned, sleeps, waits for a buffer, or waits for a trunk whose holder can go on,
sleeps, or waits for a buffer. A buffer is all that a call or a callback waits for. And
nobody takes many steps to return, to come round, or to give a trunk back.

`Pc.work` counts the steps a thread has before it in its round, `Pc.hold` those
until it unlocks.

Mirroring notes:
- A step that writes a response is the whole call of `do_write`. A thread that waits in
  it stands before that step (`Pc.writesTo`).
-/

namespace CiaServer.Cti

open Interleave

variable {cfg : Config} {s : Conf Shared Pc}

/-! ## Going on -/

/-- The moment until which a thread sleeps. -/
def Pc.sleeps : Pc → Option Nat
  | .timeoutCheck (.sleep till) => some till
  | .strategy (.pause till) => some till
  | .strategy (.wake _ till) => some till
  | _ => none

/-- The trunk a thread waits for. -/
def Pc.waitsFor : Pc → Option Nat
  | .strategy (.lock c) => some c
  | _ => none

/-- The client on which a thread calls `do_write` in its next step. -/
def Pc.writesTo (sh : Shared) : Pc → Option Client
  | .callout x .failed =>
    sh.params[x]?.bind fun p => if p.repeatCallOut then none else some p.baseClient
  | .callout x .again =>
    sh.params[x]?.bind fun p => if 25000 < p.elapsed sh.now then some p.baseClient else none
  | .hangUp _ c _ (.answer _) => sh.trunkVector[c]?.bind (·.clientSocket)
  | _ => none

/-- The request a thread of `cti_callout` reads. -/
def Pc.reads : Pc → Option Nat
  | .callout x (.fill _) => some x
  | .callout x .failed => some x
  | .callout x .again => some x
  | _ => none

theorem Pc.request_of_reads {pc : Pc} {x : Nat} (h : pc.reads = some x) : pc.request = some x := by
  unfold Pc.reads at h
  split at h <;> first | exact h | cases h

/-- What a thread needs to go on is there: its trunk and its request, the moment it sleeps
for, and the lock it waits for. -/
structure Pc.Ready (sh : Shared) (pc : Pc) : Prop where
  trunk : ∀ c, pc.target = some c → ∃ t, sh.trunkVector[c]? = some t
  request : ∀ x, pc.reads = some x → ∃ p, sh.params[x]? = some p
  awake : ∀ till, pc.sleeps = some till → till ≤ sh.now
  unlocked : ∀ c, pc.waitsFor = some c → sh.lockBit c = 0

section
variable {sh : Shared} {x c : Nat}

theorem execCallout_isSome {p : CalloutPc} (r : Int) (h : (Pc.callout x p).Ready sh) :
    ∃ q, execCallout sh x r p = some q := by
  cases p with
  | take =>
    simp only [execCallout]
    split <;> exact ⟨_, rfl⟩
  | dial c =>
    simp only [execCallout]
    split <;> exact ⟨_, rfl⟩
  | lock c =>
    obtain ⟨t, ht⟩ := h.trunk c rfl
    simp only [execCallout, ht]
    split <;> exact ⟨_, rfl⟩
  | fill c =>
    obtain ⟨p, hp⟩ := h.request x rfl
    simp only [execCallout, hp]
    exact ⟨_, rfl⟩
  | unlock c => exact ⟨_, rfl⟩
  | put c => exact ⟨_, rfl⟩
  | failed =>
    obtain ⟨p, hp⟩ := h.request x rfl
    simp only [execCallout, hp]
    split <;> exact ⟨_, rfl⟩
  | again =>
    obtain ⟨p, hp⟩ := h.request x rfl
    simp only [execCallout, hp]
    split <;> exact ⟨_, rfl⟩

theorem execHangUp_isSome {k : Caller} {status : Bytes} {p : HangUpPc} (r : Int)
    (h : (Pc.hangUp k c status p).Ready sh) : ∃ q, execHangUp sh k c status r p = some q := by
  obtain ⟨t, ht⟩ := h.trunk c rfl
  cases p with
  | lock =>
    simp only [execHangUp, ht]
    split <;> exact ⟨_, rfl⟩
  | check =>
    simp only [execHangUp, ht]
    split <;> exact ⟨_, rfl⟩
  | answer retVal =>
    simp only [execHangUp, ht]
    split <;> exact ⟨_, rfl⟩
  | _ => exact ⟨_, rfl⟩

theorem execAutoDial_isSome {p : AutoDialPc} (h : (Pc.autoDial c p).Ready sh) :
    ∃ q, execAutoDial cfg sh c p = some q := by
  cases p with
  | enter dw =>
    simp only [execAutoDial]
    split <;> exact ⟨_, rfl⟩
  | lock =>
    obtain ⟨t, ht⟩ := h.trunk c rfl
    simp only [execAutoDial, ht]
    split <;> exact ⟨_, rfl⟩
  | _ => exact ⟨_, rfl⟩

theorem execTimeoutCheck_isSome {p : TimeoutPc} (h : (Pc.timeoutCheck p).Ready sh) :
    ∃ q, execTimeoutCheck cfg sh p = some q := by
  cases p with
  | sleep till => exact ⟨_, if_pos (h.awake till rfl)⟩
  | look i =>
    simp only [execTimeoutCheck]
    split
    · exact ⟨_, rfl⟩
    · split
      · split <;> exact ⟨_, rfl⟩
      · exact ⟨_, rfl⟩
  | lock i =>
    obtain ⟨t, ht⟩ := h.trunk i rfl
    simp only [execTimeoutCheck, ht]
    split <;> exact ⟨_, rfl⟩
  | _ => exact ⟨_, rfl⟩

theorem execStrategy_isSome {p : StrategyPc} (h : (Pc.strategy p).Ready sh) :
    ∃ q, execStrategy cfg sh p = some q := by
  cases p with
  | take =>
    simp only [execStrategy]
    split <;> exact ⟨_, rfl⟩
  | pause till => exact ⟨_, if_pos (h.awake till rfl)⟩
  | lock c =>
    obtain ⟨t, ht⟩ := h.trunk c rfl
    have hbit := h.unlocked c rfl
    rw [Shared.lockBit, bit_of_trunk ht] at hbit
    simp only [execStrategy, ht]
    split
    · next hm =>
      rw [hm] at hbit
      cases hbit
    · exact ⟨_, rfl⟩
  | sleep c =>
    obtain ⟨t, ht⟩ := h.trunk c rfl
    simp only [execStrategy, ht]
    exact ⟨_, rfl⟩
  | wake c till => exact ⟨_, if_pos (h.awake till rfl)⟩
  | unlock c => exact ⟨_, rfl⟩

/-- A thread that has not returned and is ready can go on. -/
theorem exec_isSome {pc : Pc} (i : Nat) (r : Int) (hrun : sh.crashed = false)
    (h : pc.Ready sh) (hdone : pc ≠ .done) : ∃ q, exec cfg sh i pc r = some q := by
  rw [exec.eq_def, hrun]
  cases pc with
  | callout x p => exact execCallout_isSome r h
  | hangUp k c status p => exact execHangUp_isSome r h
  | autoDial c p => exact execAutoDial_isSome h
  | timeoutCheck p => exact execTimeoutCheck_isSome h
  | strategy p => exact execStrategy_isSome h
  | ret => exact ⟨_, rfl⟩
  | done => exact absurd rfl hdone

end

/-- Trunks and requests are always there. -/
theorem ready_of_reachable (h : Reachable cfg s) {pc : Pc} (hmem : pc ∈ s.threads)
    (hawake : ∀ till, pc.sleeps = some till → till ≤ s.shared.now)
    (hfree : ∀ c, pc.waitsFor = some c → s.shared.lockBit c = 0) : pc.Ready s.shared := by
  have hR := reachable_rangeInv h
  refine ⟨fun c hc => ?_, fun x hx => ?_, hawake, hfree⟩
  · exact hR.queues.exists_trunk (hR.threads pc hmem c hc)
  · have hone := one_le_tokens hmem (Pc.request_of_reads hx)
    have hle := reachable_requestInv h x
    have hlt : x < s.shared.params.length := by
      by_contra hge
      rw [Shared.made, if_neg hge] at hle
      omega
    exact ⟨_, List.getElem?_eq_getElem hlt⟩

/-! ## Coming round -/

/-- What is left to do after `cti_hangUp`, with `n` trunks. -/
def Caller.work (n : Nat) : Caller → Nat
  | .callback => 1
  | .timeoutCheck i => 1 + (n - (i + 1)) * 10
  | .strategy => 0

/-- How many steps a thread has before it returns or begins its next round, with `n`
trunks. -/
def Pc.work (n : Nat) : Pc → Nat
  | .callout _ .take => 5
  | .callout _ (.dial _) => 4
  | .callout _ (.lock _) => 3
  | .callout _ (.fill _) => 2
  | .callout _ (.unlock _) => 1
  | .callout _ (.put _) => 3
  | .callout _ .failed => 2
  | .callout _ .again => 1
  | .hangUp k _ _ .lock => 6 + k.work n
  | .hangUp k _ _ .check => 5 + k.work n
  | .hangUp k _ _ .driver => 4 + k.work n
  | .hangUp k _ _ (.answer _) => 3 + k.work n
  | .hangUp k _ _ (.put _) => 2 + k.work n
  | .hangUp k _ _ (.unlock _) => 1 + k.work n
  | .autoDial _ (.enter _) => 8
  | .autoDial _ .lock => 5
  | .autoDial _ .setSleep => 4
  | .autoDial _ (.put _) => 3
  | .autoDial _ .unlock => 2
  | .timeoutCheck (.sleep _) => 0
  | .timeoutCheck (.look i) => 1 + (n - i) * 10
  | .timeoutCheck (.lock i) => 10 + (n - (i + 1)) * 10
  | .timeoutCheck (.setFlag i) => 9 + (n - (i + 1)) * 10
  | .timeoutCheck (.unlock i) => 8 + (n - (i + 1)) * 10
  | .strategy .take => 0
  | .strategy (.pause _) => 0
  | .strategy (.lock _) => 10
  | .strategy (.sleep _) => 9
  | .strategy (.wake _ _) => 8
  | .strategy (.unlock _) => 7
  | .ret => 1
  | .done => 0

theorem Pc.work_le (n : Nat) (pc : Pc) : pc.work n ≤ 10 * n + 10 := by
  have hcaller : ∀ k : Caller, k.work n ≤ 10 * n + 1 := by
    intro k
    cases k <;> simp only [Caller.work] <;> omega
  cases pc with
  | callout x p => cases p <;> simp only [Pc.work] <;> omega
  | hangUp k c status p =>
    have := hcaller k
    cases p <;> simp only [Pc.work] <;> omega
  | autoDial c p => cases p <;> simp only [Pc.work] <;> omega
  | timeoutCheck p => cases p <;> simp only [Pc.work] <;> omega
  | strategy p => cases p <;> simp only [Pc.work] <;> omega
  | ret => simp only [Pc.work]; omega
  | done => exact Nat.zero_le _

theorem Caller.work_resume (n : Nat) (k : Caller) : k.resume.work n = k.work n := by
  cases k <;> rfl

theorem Caller.work_raise (n : Nat) (k : Caller) (sh : Shared) : (k.raise sh).2.work n ≤ 1 := by
  cases k with
  | callback => exact Nat.le_refl 1
  | _ => exact Nat.zero_le 1

theorem work_dealAutoDial (cfg : Config) (n elapsed c : Nat) (dw : DialResult) :
    (dealAutoDial cfg elapsed c dw).work n ≤ 7 := by
  rcases dealAutoDial_cases cfg elapsed c dw with h | h | ⟨_, h⟩ <;> rw [h] <;>
    simp only [Pc.work, Caller.work] <;> omega

/-- A step of a thread in its round leaves it less to do. -/
theorem work_lt_of_step {sh sh' : Shared} {i : Nat} {pc pc' : Pc} (h : ThreadStep cfg sh i pc sh' pc')
    (hr : pc.outside = false) :
    sh'.crashed = true ∨ pc'.work sh.trunkVector.length < pc.work sh.trunkVector.length := by
  cases h with
  | callout hs => cases hs <;> simp only [Pc.work] <;> omega
  | @hangUp k c status p _ _ hs =>
    cases hs with
    | nullClient => exact Or.inl rfl
    | noTrunk =>
      have hle := k.work_raise sh.trunkVector.length sh
      refine Or.inr (Nat.lt_of_le_of_lt hle ?_)
      simp only [Pc.work]
      omega
    | lockBusy =>
      rw [k.work_resume]
      simp only [Pc.work]
      omega
    | unlocked =>
      rw [k.work_resume]
      simp only [Pc.work]
      omega
    | _ =>
      refine Or.inr ?_
      simp only [Pc.work]
      omega
  | @autoDial c p _ _ hs =>
    cases hs with
    | @entered dw t =>
      have hle := work_dealAutoDial cfg sh.trunkVector.length (t.elapsed sh.now) c dw
      exact Or.inr (Nat.lt_succ_of_le hle)
    | _ =>
      refine Or.inr ?_
      simp only [Pc.work]
      omega
  | timeoutCheck hs =>
    -- there are fewer trunks before a scan that has come to the next one
    have hlt : ∀ {i : Nat} {t : Trunk}, sh.trunkVector[i]? = some t →
        i < sh.trunkVector.length := fun ht => (List.getElem?_eq_some_iff.mp ht).1
    cases hs with
    | woke => cases hr
    | scanned => exact Or.inr (Nat.lt_of_lt_of_le Nat.one_pos (Nat.le_add_right _ _))
    | overdue ht | overdueFlag ht | passed ht =>
      have := hlt ht
      refine Or.inr ?_
      simp only [Pc.work, Caller.work]
      omega
    | _ =>
      refine Or.inr ?_
      simp only [Pc.work, Caller.work]
      omega
  | strategy hs =>
    cases hs with
    | nothing | took | paused => cases hr
    | noTrunk => exact Or.inl rfl
    | _ =>
      refine Or.inr ?_
      simp only [Pc.work, Caller.work]
      omega
  | ret => exact Or.inr Nat.one_pos

/-! ## Giving a trunk back -/

/-- How many steps a thread has before it that it makes with a trunk locked. -/
def Pc.hold : Pc → Nat
  | .callout _ (.fill _) => 2
  | .callout _ (.unlock _) => 1
  | .hangUp _ _ _ .check => 5
  | .hangUp _ _ _ .driver => 4
  | .hangUp _ _ _ (.answer _) => 3
  | .hangUp _ _ _ (.put _) => 2
  | .hangUp _ _ _ (.unlock _) => 1
  | .autoDial _ .setSleep => 3
  | .autoDial _ (.put true) => 2
  | .autoDial _ .unlock => 1
  | .timeoutCheck (.setFlag _) => 2
  | .timeoutCheck (.unlock _) => 1
  | .strategy (.sleep _) => 3
  | .strategy (.wake _ _) => 2
  | .strategy (.unlock _) => 1
  | _ => 0

theorem Pc.hold_le (pc : Pc) : pc.hold ≤ 5 := by
  unfold Pc.hold
  split <;> omega

theorem Caller.hold_resume (k : Caller) : k.resume.hold = 0 := by
  cases k <;> rfl

/-- A step of a thread that has a trunk brings it nearer to unlocking it. -/
theorem hold_lt_of_step {sh sh' : Shared} {i : Nat} {pc pc' : Pc} (h : ThreadStep cfg sh i pc sh' pc')
    (hm : pc.mutex ≠ none) : sh'.crashed = true ∨ pc'.hold < pc.hold := by
  cases h with
  | callout hs =>
    cases hs with
    | filled => exact Or.inr (Nat.lt_succ_self 1)
    | unlocked => exact Or.inr Nat.one_pos
    | _ => exact absurd rfl hm
  | @hangUp k c status p _ _ hs =>
    cases hs with
    | noTrunk | lockBusy | locked => exact absurd rfl hm
    | nullClient => exact Or.inl rfl
    | unlocked =>
      rw [k.hold_resume]
      exact Or.inr Nat.one_pos
    | _ =>
      refine Or.inr ?_
      simp only [Pc.hold]
      omega
  | autoDial hs =>
    cases hs with
    | slept => exact Or.inr (Nat.lt_succ_self 2)
    | queuedLocked => exact Or.inr (Nat.lt_succ_self 1)
    | unlocked => exact Or.inr Nat.one_pos
    | _ => exact absurd rfl hm
  | timeoutCheck hs =>
    cases hs with
    | flagged => exact Or.inr (Nat.lt_succ_self 1)
    | unlocked => exact Or.inr Nat.one_pos
    | _ => exact absurd rfl hm
  | strategy hs =>
    cases hs with
    | slept => exact Or.inr (Nat.lt_succ_self 2)
    | hungup => exact Or.inr (Nat.lt_succ_self 1)
    | unlocked => exact Or.inr Nat.one_pos
    | _ => exact absurd rfl hm
  | ret => exact absurd rfl hm

theorem Pc.work_pos {pc : Pc} (n : Nat) (h : pc.outside = false) : 0 < pc.work n := by
  cases pc with
  | callout x p => cases p <;> simp only [Pc.work] <;> omega
  | hangUp k c status p => cases p <;> simp only [Pc.work] <;> omega
  | autoDial c p => cases p <;> simp only [Pc.work] <;> omega
  | timeoutCheck p => cases p <;> first | cases h; done | (simp only [Pc.work]; omega)
  | strategy p => cases p <;> first | cases h; done | (simp only [Pc.work]; omega)
  | ret => exact Nat.one_pos
  | done => cases h

theorem Pc.hold_pos {pc : Pc} (h : pc.mutex ≠ none) : 0 < pc.hold := by
  cases pc with
  | callout x p => cases p <;> first | exact absurd rfl h | exact Nat.succ_pos _
  | hangUp k c status p => cases p <;> first | exact absurd rfl h | exact Nat.succ_pos _
  | autoDial c p =>
    cases p with
    | put locked => cases locked <;> first | exact absurd rfl h | exact Nat.succ_pos _
    | _ => first | exact absurd rfl h | exact Nat.succ_pos _
  | timeoutCheck p => cases p <;> first | exact absurd rfl h | exact Nat.succ_pos _
  | strategy p => cases p <;> first | exact absurd rfl h | exact Nat.succ_pos _
  | _ => exact absurd rfl h

/-! ## Calls and callbacks -/

/-- A thread of `cti_callout` or of a driver callback that has not returned. -/
def Pc.isCall : Pc → Bool
  | .callout _ _ => true
  | .hangUp .callback _ _ _ => true
  | .autoDial _ _ => true
  | .ret => true
  | _ => false

theorem Pc.outside_of_isCall {pc : Pc} (h : pc.isCall = true) : pc.outside = false := by
  cases pc with
  | callout | hangUp | autoDial | ret => rfl
  | timeoutCheck | strategy | done => cases h

theorem Pc.work_of_isCall {pc : Pc} (n : Nat) (h : pc.isCall = true) : pc.work n ≤ 8 := by
  cases pc with
  | callout x p => cases p <;> simp only [Pc.work] <;> omega
  | hangUp k c status p =>
    cases k with
    | callback => cases p <;> simp only [Pc.work, Caller.work] <;> omega
    | _ => cases h
  | autoDial c p => cases p <;> simp only [Pc.work] <;> omega
  | ret => exact Nat.le_add_left 1 7
  | _ => cases h

/-- It stays one until it has returned. -/
theorem isCall_of_step {sh sh' : Shared} {i : Nat} {pc pc' : Pc} (h : ThreadStep cfg sh i pc sh' pc')
    (hc : pc.isCall = true) : pc'.isCall = true ∨ pc' = .done := by
  cases h with
  | callout hs => cases hs <;> first | exact Or.inl rfl | exact Or.inr rfl
  | @hangUp k c status p _ _ hs =>
    cases k with
    | callback => cases hs <;> exact Or.inl rfl
    | _ => cases hc
  | @autoDial c p _ _ hs =>
    cases hs with
    | @entered dw t =>
      refine Or.inl ?_
      rcases dealAutoDial_cases cfg (t.elapsed sh.now) c dw with h | h | ⟨_, h⟩ <;> rw [h] <;> rfl
    | _ => exact Or.inl rfl
  | timeoutCheck | strategy => cases hc
  | ret => exact Or.inr rfl

/-! ## The responses -/

/-- A step that calls `do_write` writes a response to that client, and no other step writes
one. -/
theorem writesTo_cases {sh sh' : Shared} {i : Nat} {pc pc' : Pc}
    (h : ThreadStep cfg sh i pc sh' pc') :
    (pc.writesTo sh = none ∧ ∀ req r, sh'.log ≠ .response req r :: sh.log) ∨
    ∃ req r, pc.writesTo sh = some r.client ∧ sh'.log = .response req r :: sh.log := by
  have hsame : sh'.log = sh.log → ∀ req r, sh'.log ≠ .response req r :: sh.log := by
    intro hl req r
    rw [hl]
    exact (List.cons_ne_self _ _).symm
  cases h with
  | callout hs =>
    cases hs with
    | dialled => exact Or.inl ⟨rfl, nofun⟩
    | filled => exact Or.inl ⟨rfl, nofun⟩
    | secondTry hp hr =>
      refine Or.inl ⟨?_, hsame rfl⟩
      rw [Pc.writesTo, hp, Option.bind_some, if_pos hr]
    | answeredFail hp hr =>
      refine Or.inr ⟨_, _, ?_, rfl⟩
      rw [Pc.writesTo, hp, Option.bind_some, hr]
      rfl
    | answeredTimeout hp ht =>
      refine Or.inr ⟨_, _, ?_, rfl⟩
      rw [Pc.writesTo, hp, Option.bind_some, if_pos ht]
      rfl
    | armed hp ht =>
      refine Or.inl ⟨?_, hsame rfl⟩
      rw [Pc.writesTo, hp, Option.bind_some, if_neg ht]
    | _ => exact Or.inl ⟨rfl, hsame rfl⟩
  | @hangUp k _ _ _ _ _ hs =>
    cases hs with
    | noTrunk => cases k <;> exact Or.inl ⟨rfl, hsame rfl⟩
    | nullClient ht hn =>
      refine Or.inl ⟨?_, hsame rfl⟩
      rw [Pc.writesTo, ht, Option.bind_some, hn]
    | answered ht hn =>
      refine Or.inr ⟨_, _, ?_, rfl⟩
      rw [Pc.writesTo, ht, Option.bind_some, hn]
    | _ => exact Or.inl ⟨rfl, hsame rfl⟩
  | autoDial hs => exact Or.inl ⟨rfl, hsame (autoDial_sameCalls hs).log⟩
  | timeoutCheck hs => exact Or.inl ⟨rfl, hsame (timeoutCheck_sameCalls hs).log⟩
  | strategy hs => exact Or.inl ⟨rfl, hsame (strategy_sameCalls hs).log⟩
  | ret => exact Or.inl ⟨rfl, nofun⟩

/-! ## The card -/

/-- A thread sleeps, and its time has not come. -/
def Sleeps (s : Conf Shared Pc) (pc : Pc) : Prop := ∃ till, pc.sleeps = some till ∧ s.shared.now < till

/-- A thread waits in `do_write` for a buffer, where the clients in `full` have none. -/
def AwaitsBuffer (full : Client → Bool) (s : Conf Shared Pc) (pc : Pc) : Prop :=
  ∃ client, pc.writesTo s.shared = some client ∧ full client = true

/-- Thread `i` can step, whatever the driver answers, and does not wait for a buffer. -/
def CanStep (cfg : Config) (full : Client → Bool) (s : Conf Shared Pc) (i : Nat) : Prop :=
  (∀ r, ∃ s', (voiceCard cfg).step s (.run i r) = some s') ∧
    ∀ pc, s.threads[i]? = some pc → ¬AwaitsBuffer full s pc

/-- What holds a thread up, where the clients in `full` have no buffer. -/
structure Progress (cfg : Config) (full : Client → Bool) (s : Conf Shared Pc) : Prop where
  /-- A thread that cannot go on has returned, sleeps, waits for a buffer, or waits for a trunk
  whose holder can go on, sleeps, or waits for a buffer. -/
  goesOn : s.shared.crashed = false → ∀ i pc, s.threads[i]? = some pc →
    CanStep cfg full s i ∨ pc = .done ∨ Sleeps s pc ∨ AwaitsBuffer full s pc ∨
      ∃ c j m, pc.waitsFor = some c ∧ s.threads[j]? = some m ∧ m.mutex = some c ∧
        (CanStep cfg full s j ∨ Sleeps s m ∨ AwaitsBuffer full s m)
  /-- A call or a callback waits for nothing but a buffer, … -/
  callGoesOn : s.shared.crashed = false → ∀ i pc, s.threads[i]? = some pc → pc.isCall = true →
    CanStep cfg full s i ∨ AwaitsBuffer full s pc
  /-- … and has eight steps at most before it, whatever the others do between them. -/
  callReturns : ∀ i pc, s.threads[i]? = some pc → pc.isCall = true → ∀ ms s',
    (voiceCard cfg).run (fun _ _ => true) s ms = some s' → ms.countP (Move.isBy i) ≤ 8
  /-- A round of `timeout_check` or `deal_hungup_strategy` has few steps. -/
  round : ∀ i pc, s.threads[i]? = some pc → ∀ ms s',
    (voiceCard cfg).run (fun s _ => (s.threads[i]?).any fun pc => !pc.outside) s ms = some s' →
    ms.countP (Move.isBy i) ≤ 10 * cfg.numChannelCount + 10
  /-- Nobody keeps a trunk locked for more than five steps of its own. -/
  givesBack : ∀ i pc, s.threads[i]? = some pc → ∀ ms s',
    (voiceCard cfg).run (fun s _ => (s.threads[i]?).any fun pc => pc.mutex.isSome) s ms = some s' →
    ms.countP (Move.isBy i) ≤ 5
  /-- The steps that write a response are those that call `do_write`. -/
  responds : ∀ i pc r s', s.threads[i]? = some pc →
    (voiceCard cfg).step s (.run i r) = some s' → ∀ client, pc.writesTo s.shared = some client ↔
      ∃ req resp, s'.shared.log = .response req resp :: s.shared.log ∧ resp.client = client

theorem step_running {s' : Conf Shared Pc} {m : Move Action Int}
    (h : (voiceCard cfg).step s m = some s') : s.shared.crashed = false := by
  rcases Program.step_cases h with ⟨a, sh, new, rfl, he, rfl⟩ | ⟨i, r, l, sh, l', rfl, _, he, rfl⟩
  · exact (env_step he).1
  · exact (exec_step he).1

/-- What a thread has before it, as long as the process runs. -/
def weigh (f : Pc → Nat) (sh : Shared) (pc : Pc) : Nat := if sh.crashed then 0 else f pc

theorem weigh_le (f : Pc → Nat) (sh : Shared) (pc : Pc) : weigh f sh pc ≤ f pc := by
  unfold weigh
  split
  · exact Nat.zero_le _
  · exact Nat.le_refl _

theorem weigh_of_running {f : Pc → Nat} {sh : Shared} (h : sh.crashed = false) (pc : Pc) :
    weigh f sh pc = f pc := by
  rw [weigh, h]
  rfl

/-- The steps of a thread in a run in which each of them leaves it less to do. -/
theorem countP_isBy_le_weigh {ok : Conf Shared Pc → Move Action Int → Bool} {i : Nat} {pc : Pc}
    (I : Conf Shared Pc → Prop) (f : Pc → Nat)
    (hI : ∀ s m s', I s → ok s m = true → (voiceCard cfg).step s m = some s' → I s')
    (hf : ∀ sh ts pc r sh' pc', I ⟨sh, ts⟩ → ok ⟨sh, ts⟩ (.run i r) = true → ts[i]? = some pc →
      ThreadStep cfg sh i pc sh' pc' → 0 < f pc ∧ (sh'.crashed = true ∨ f pc' < f pc))
    (hi : I s) (hpc : s.threads[i]? = some pc) {ms : List (Move Action Int)} {s' : Conf Shared Pc}
    (h : (voiceCard cfg).run ok s ms = some s') : ms.countP (Move.isBy i) ≤ f pc := by
  refine Nat.le_trans ?_ (weigh_le f s.shared pc)
  refine Program.countP_isBy_le I (weigh f) hI ?_ ?_ hi hpc h
  · intro sh ts pc r sh' pc' hi hok hl he
    obtain ⟨hrun, hstep⟩ := exec_step he
    obtain ⟨hpos, hlt⟩ := hf sh ts pc r sh' pc' hi hok hl hstep
    rw [weigh_of_running hrun]
    rcases hlt with hcr | hlt
    · rw [weigh, if_pos hcr]
      exact hpos
    · exact Nat.lt_of_le_of_lt (weigh_le f sh' pc') hlt
  · intro s m s' pc hst
    rw [weigh_of_running (step_running hst)]
    exact weigh_le f s'.shared pc

theorem trunks_of_reachable (h : Reachable cfg s) :
    s.shared.trunkVector.length = cfg.numChannelCount := (reachable_rangeInv h).queues.trunks

theorem Reachable.step (h : Reachable cfg s) {m : Move Action Int} {s' : Conf Shared Pc}
    (hst : (voiceCard cfg).step s m = some s') : Reachable cfg s' := by
  obtain ⟨echo, h⟩ := h
  exact ⟨echo, h.tail ⟨m, trivial, hst⟩⟩

/-- A thread that is ready can step, unless it waits for a buffer. -/
theorem canStep_of_ready (full : Client → Bool) {i : Nat} {pc : Pc} (hpc : s.threads[i]? = some pc)
    (hrun : s.shared.crashed = false) (hr : pc.Ready s.shared) (hd : pc ≠ .done) :
    CanStep cfg full s i ∨ AwaitsBuffer full s pc := by
  by_cases hfull : AwaitsBuffer full s pc
  · exact Or.inr hfull
  refine Or.inl ⟨fun r => ?_, fun pc' hpc' => ?_⟩
  · obtain ⟨q, hq⟩ := exec_isSome i r hrun hr hd
    exact ⟨_, Program.step_run hpc hq⟩
  · cases hpc.symm.trans hpc'
    exact hfull

/-- Who has a trunk does not wait for one. -/
theorem Pc.waitsFor_of_mutex {pc : Pc} {c : Nat} (h : pc.mutex = some c) : pc.waitsFor = none := by
  unfold Pc.waitsFor
  split
  · cases h
  · rfl

/-- A thread that waits for no locked trunk sleeps, has returned, waits for a buffer, or can go
on. -/
theorem goesOn_of_free (full : Client → Bool) (h : Reachable cfg s)
    (hrun : s.shared.crashed = false) {i : Nat} {pc : Pc} (hpc : s.threads[i]? = some pc)
    (hfree : ∀ c, pc.waitsFor = some c → s.shared.lockBit c = 0) :
    CanStep cfg full s i ∨ pc = .done ∨ Sleeps s pc ∨ AwaitsBuffer full s pc := by
  by_cases hdone : pc = .done
  · exact Or.inr (Or.inl hdone)
  by_cases hsleep : Sleeps s pc
  · exact Or.inr (Or.inr (Or.inl hsleep))
  have hready : pc.Ready s.shared := by
    refine ready_of_reachable h (List.mem_of_getElem? hpc) (fun till htill => ?_) hfree
    by_contra hlt
    exact hsleep ⟨till, htill, Nat.lt_of_not_le hlt⟩
  rcases canStep_of_ready full hpc hrun hready hdone with hstep | hfull
  · exact Or.inl hstep
  · exact Or.inr (Or.inr (Or.inr hfull))

/-- The holder of a locked trunk. -/
theorem holder_goesOn (full : Client → Bool) (h : Reachable cfg s)
    (hrun : s.shared.crashed = false) {c : Nat} (hc : s.shared.lockBit c = 1) :
    ∃ j m, s.threads[j]? = some m ∧ m.mutex = some c ∧
      (CanStep cfg full s j ∨ Sleeps s m ∨ AwaitsBuffer full s m) := by
  have hpos : 0 < tokens Pc.mutex c s.threads := by
    rw [reachable_lockInv h c, hc]
    exact Nat.one_pos
  obtain ⟨m, hmem, hm⟩ := exists_of_tokens_pos hpos
  obtain ⟨j, hj⟩ := List.mem_iff_getElem?.mp hmem
  refine ⟨j, m, hj, hm, ?_⟩
  have hfree : ∀ d, m.waitsFor = some d → s.shared.lockBit d = 0 := by
    intro d hd
    rw [Pc.waitsFor_of_mutex hm] at hd
    cases hd
  rcases goesOn_of_free full h hrun hj hfree with hstep | rfl | hheld
  · exact Or.inl hstep
  · cases hm
  · exact Or.inr hheld

/-- Thread `i` is a call or a callback, or was one. -/
def AtCall (i : Nat) (s : Conf Shared Pc) : Prop :=
  ∃ pc, s.threads[i]? = some pc ∧ (pc.isCall = true ∨ pc = .done)

theorem AtCall.step {i : Nat} {m : Move Action Int} {s' : Conf Shared Pc} (h : AtCall i s)
    (hst : (voiceCard cfg).step s m = some s') : AtCall i s' := by
  obtain ⟨pc, hpc, hcall⟩ := h
  cases hm : m.isBy i with
  | false => exact ⟨pc, Program.step_other hst hm hpc, hcall⟩
  | true =>
    cases m with
    | env a => cases hm
    | run j r =>
      obtain rfl : i = j := beq_iff_eq.mp hm
      simp only [Program.step, hpc] at hst
      obtain ⟨⟨sh', pc'⟩, he, rfl⟩ := Option.map_eq_some_iff.mp hst
      have hlt := (List.getElem?_eq_some_iff.mp hpc).1
      refine ⟨pc', List.getElem?_set_self hlt, ?_⟩
      have hstep : ThreadStep cfg s.shared i pc sh' pc' := (exec_step he).2
      rcases hcall with hcall | rfl
      · exact isCall_of_step hstep hcall
      · cases hstep

/-- A call or a callback, and all it calls, is eight steps at most. -/
theorem countP_isBy_le_of_isCall (h : Reachable cfg s) {i : Nat} {pc : Pc}
    (hpc : s.threads[i]? = some pc) (hcall : pc.isCall = true) {ms : List (Move Action Int)}
    {s' : Conf Shared Pc} (hrun : (voiceCard cfg).run (fun _ _ => true) s ms = some s') :
    ms.countP (Move.isBy i) ≤ 8 := by
  refine Nat.le_trans ?_ (pc.work_of_isCall cfg.numChannelCount hcall)
  refine countP_isBy_le_weigh (I := fun s => Reachable cfg s ∧ AtCall i s)
    (Pc.work cfg.numChannelCount) ?_ ?_ ⟨h, pc, hpc, Or.inl hcall⟩ hpc hrun
  · intro s m s' hs _ hst
    exact ⟨hs.1.step hst, hs.2.step hst⟩
  · intro sh ts pc r sh' pc' hI _ hl hstep
    obtain ⟨hs, pc₁, hpc₁, hcall₁⟩ := hI
    cases hl.symm.trans hpc₁
    rcases hcall₁ with hcall₁ | rfl
    · have hout := Pc.outside_of_isCall hcall₁
      have hlt := work_lt_of_step hstep hout
      rw [trunks_of_reachable hs] at hlt
      exact ⟨pc.work_pos _ hout, hlt⟩
    · cases hstep

/-- A round takes as many steps as there is work in it. -/
theorem countP_isBy_le_of_inside (h : Reachable cfg s) {i : Nat} {pc : Pc}
    (hpc : s.threads[i]? = some pc) {ms : List (Move Action Int)} {s' : Conf Shared Pc}
    (hrun : (voiceCard cfg).run (fun s _ => (s.threads[i]?).any fun pc => !pc.outside) s ms
      = some s') :
    ms.countP (Move.isBy i) ≤ 10 * cfg.numChannelCount + 10 := by
  refine Nat.le_trans ?_ (pc.work_le cfg.numChannelCount)
  refine countP_isBy_le_weigh (I := Reachable cfg) (Pc.work cfg.numChannelCount) ?_ ?_ h hpc hrun
  · intro s m s' hs _ hst
    exact hs.step hst
  · intro sh ts pc r sh' pc' hs hok hl hstep
    have hout : pc.outside = false := by
      rw [hl] at hok
      exact Bool.not_eq_true' _ ▸ hok
    have hlt := work_lt_of_step hstep hout
    rw [trunks_of_reachable hs] at hlt
    exact ⟨pc.work_pos _ hout, hlt⟩

/-- A trunk is given back within five steps of who has it. -/
theorem countP_isBy_le_of_mutex {i : Nat} {pc : Pc} (hpc : s.threads[i]? = some pc)
    {ms : List (Move Action Int)} {s' : Conf Shared Pc}
    (hrun : (voiceCard cfg).run (fun s _ => (s.threads[i]?).any fun pc => pc.mutex.isSome) s ms
      = some s') :
    ms.countP (Move.isBy i) ≤ 5 := by
  refine Nat.le_trans ?_ pc.hold_le
  refine countP_isBy_le_weigh (I := fun _ => True) Pc.hold (fun _ _ _ _ _ _ => trivial) ?_ trivial
    hpc hrun
  intro sh ts pc r sh' pc' _ hok hl hstep
  have hm : pc.mutex ≠ none := by
    rw [hl] at hok
    exact Option.isSome_iff_ne_none.mp hok
  exact ⟨Pc.hold_pos hm, hold_lt_of_step hstep hm⟩

/-- Where a thread is about to call `do_write`, that is what its next step does. -/
theorem writesTo_iff {sh sh' : Shared} {i : Nat} {pc pc' : Pc}
    (hstep : ThreadStep cfg sh i pc sh' pc') (client : Client) :
    pc.writesTo sh = some client ↔
      ∃ req resp, sh'.log = .response req resp :: sh.log ∧ resp.client = client := by
  rcases writesTo_cases hstep with ⟨hnone, hlog⟩ | ⟨req, resp, hsome, hlog⟩
  · rw [hnone]
    refine ⟨nofun, ?_⟩
    rintro ⟨req, resp, hl, _⟩
    exact absurd hl (hlog req resp)
  · rw [hsome]
    constructor
    · intro hc
      exact ⟨req, resp, hlog, Option.some.inj hc⟩
    · rintro ⟨req', resp', hl, rfl⟩
      have hsame : Obs.response req' resp' :: sh.log = Obs.response req resp :: sh.log :=
        hl.symm.trans hlog
      cases hsame
      rfl

/-- **What a thread of the card waits for**, and how many steps it has before it. -/
theorem voiceCard_progress (full : Client → Bool) (h : Reachable cfg s) : Progress cfg full s := by
  refine ⟨?_, ?_, ?_, ?_, ?_, ?_⟩
  · intro hrun i pc hpc
    by_cases hwait : ∃ c, pc.waitsFor = some c ∧ s.shared.lockBit c = 1
    · obtain ⟨c, hc, hbit⟩ := hwait
      obtain ⟨j, m, hj, hm, hgo⟩ := holder_goesOn full h hrun hbit
      exact Or.inr (Or.inr (Or.inr (Or.inr ⟨c, j, m, hc, hj, hm, hgo⟩)))
    · have hfree : ∀ c, pc.waitsFor = some c → s.shared.lockBit c = 0 := by
        intro c hc
        have hle := bit_le_one s.shared (·.trunkMutex) c
        have hne : s.shared.lockBit c ≠ 1 := fun hbit => hwait ⟨c, hc, hbit⟩
        unfold Shared.lockBit at hne ⊢
        omega
      rcases goesOn_of_free full h hrun hpc hfree with hstep | hdone | hsleep | hfull
      · exact Or.inl hstep
      · exact Or.inr (Or.inl hdone)
      · exact Or.inr (Or.inr (Or.inl hsleep))
      · exact Or.inr (Or.inr (Or.inr (Or.inl hfull)))
  · intro hrun i pc hpc hcall
    have hcalls : pc.sleeps = none ∧ pc.waitsFor = none ∧ pc ≠ .done := by
      cases pc with
      | callout | autoDial | ret => exact ⟨rfl, rfl, nofun⟩
      | hangUp => exact ⟨rfl, rfl, nofun⟩
      | timeoutCheck | strategy | done => cases hcall
    refine canStep_of_ready full hpc hrun ?_ hcalls.2.2
    refine ready_of_reachable h (List.mem_of_getElem? hpc) (fun till ht => ?_) (fun c hc => ?_)
    · rw [hcalls.1] at ht
      cases ht
    · rw [hcalls.2.1] at hc
      cases hc
  · intro i pc hpc hcall ms s' hrun
    exact countP_isBy_le_of_isCall h hpc hcall hrun
  · intro i pc hpc ms s' hrun
    exact countP_isBy_le_of_inside h hpc hrun
  · intro i pc hpc ms s' hrun
    exact countP_isBy_le_of_mutex hpc hrun
  · intro i pc r s' hpc hst client
    simp only [Program.step, hpc] at hst
    obtain ⟨⟨sh', pc'⟩, he, rfl⟩ := Option.map_eq_some_iff.mp hst
    exact writesTo_iff (exec_step he).2 client

/-- A hang-up is about to answer client 7, on the trunk that a `deal_hungup_strategy` thread
waits for. -/
def hangUpAnswers : Conf Shared Pc :=
  after oneChannel anyMove (fun _ => true)
    [.env (.call 7 [1] [] [] true), .run 2 0, .run 2 0, .run 2 0, .run 2 0, .run 2 0,
     .env (.event .procAutoDial 0 .busytone), .run 3 0, .run 3 0, .run 3 0, .run 3 0,
     .env (.event .procAutoDial 0 .echotone), .run 4 0, .run 4 0, .run 4 0, .run 1 0]

theorem voiceCard_progress_hangup : Progress oneChannel (· == 7) hangUpAnswers :=
  voiceCard_progress (· == 7) (reachable_after (by decide)).reachable

example : (hangUpAnswers.threads[3]?).bind (Pc.writesTo hangUpAnswers.shared) = some 7 ∧
    (hangUpAnswers.threads[3]?).bind Pc.mutex = some 0 ∧
    (hangUpAnswers.threads[1]?).bind Pc.waitsFor = some 0 := by
  decide

end CiaServer.Cti
