import CiaServer.Cti.History

/-!
# No false success

A success should be reported for a call only after the card has rung for *that*
call. The sleep queue and the strategy thread remember a channel number, not a
call: an entry that outlives its call — a second ring for the same call queues
the channel twice — hangs up whatever call has the channel by then and reports
success for it (`noFalseSuccess_fails`).

`noFalseSuccess_of_dialsFresh`: as long as nothing of an earlier call is left
over when a channel is dialled (no entry in the sleep queue, no callback and no
strategy thread still on its way to a success), every success was rung for.
-/

namespace CiaServer.Cti

open Interleave

/-- Every success reported for a call that was dialled on `c` comes after a
success callback on `c` that started after the dial. -/
def NoFalseSuccess (log : List Obs) : Prop :=
  ∀ (a b : List Obs) (x : Nat) (r : Response) (c : Nat), log = a ++ .response (some x) r :: b →
    r.status = ciaCallSuccess → .dialled x c ∈ b → startedAfter x c b ≠ []

/-- The channel a thread will still put to sleep or try to hang up with
success. -/
def Pc.successWork : Pc → Option Nat
  | .autoDial c (.enter dw) => if dw.success then some c else none
  | .autoDial c .lock => some c
  | .autoDial c .setSleep => some c
  | .autoDial c (.put _) => some c
  | .hangUp _ c status .lock => if status = ciaCallSuccess then some c else none
  | .strategy (.lock c) => some c
  | .strategy (.sleep c) => some c
  | .strategy (.wake c _) => some c
  | .strategy (.unlock c) => some c
  | _ => none

/-- The channel a thread has locked to hang it up with success. -/
def Pc.reporting : Pc → Option Nat
  | .hangUp _ c status .check => if status = ciaCallSuccess then some c else none
  | .hangUp _ c status .driver => if status = ciaCallSuccess then some c else none
  | .hangUp _ c status (.answer _) => if status = ciaCallSuccess then some c else none
  | _ => none

/-- `SsmAutoDial(c)` succeeds only when no success is still on its way on `c`. -/
def dialsFresh (s : Conf Shared Pc) : Move Action Int → Bool
  | .run i r =>
    match s.threads[i]? with
    | some (.callout _ (.dial c)) =>
      r != 0 || (!s.shared.sleepChannelQueue.contains c &&
        s.threads.all fun pc => pc.successWork != some c)
    | _ => true
  | .env _ => true

/-- What is on its way to a success on `c` was started by a ring since the last
dial on `c`; a hang-up that has the lock may also have found no client. -/
structure FreshInv (sh : Shared) (ts : List Pc) : Prop where
  queued : ∀ c ∈ sh.sleepChannelQueue, rungSince c sh.log = true
  working : ∀ pc ∈ ts, ∀ c, pc.successWork = some c → rungSince c sh.log = true
  reporting : ∀ pc ∈ ts, ∀ c, pc.reporting = some c → rungSince c sh.log = true ∨ sh.busy c = 0

/-! ## What one step keeps -/

/-- Only a successful dial on `c` forgets a ring. -/
theorem thread_rung {cfg : Config} {sh sh' : Shared} {i : Nat} {pc pc' : Pc}
    (h : ThreadStep cfg sh i pc sh' pc') {c : Nat} (hr : rungSince c sh.log = true) :
    rungSince c sh'.log = true ∨
      ∃ x, pc = .callout x (.dial c) ∧ sh' = sh.note (.dialled x c) := by
  rcases thread_log h with hl | ⟨o, hl, hn⟩
  · exact Or.inl (by rw [hl]; exact hr)
  · cases hn with
    | @dialled x d =>
      by_cases hd : d = c
      · subst hd
        refine Or.inr ⟨x, rfl, ?_⟩
        cases h with
        | callout h =>
          cases h with
          | dialled => rfl
          | notDialled => exact absurd hl (by simp)
      · refine Or.inl ?_
        rw [hl]
        simp only [rungSince, hr, Bool.and_true, bne_iff_ne, ne_eq]
        exact hd
    | _ => exact Or.inl (by rw [hl]; exact hr)

theorem env_rung {sh sh' : Shared} {i : Nat} {a : Action} {new : List Pc}
    (h : EnvStep sh i a sh' new) {c : Nat} (hr : rungSince c sh.log = true) :
    rungSince c sh'.log = true := by
  rcases env_log h with ⟨hl, _⟩ | ⟨d, dw, hl, _⟩ <;> rw [hl]
  · exact hr
  · simp only [rungSince, hr, Bool.or_true]

theorem thread_sleepQueue {cfg : Config} {sh sh' : Shared} {i : Nat} {pc pc' : Pc}
    (h : ThreadStep cfg sh i pc sh' pc') {c : Nat} (hc : c ∈ sh'.sleepChannelQueue) :
    c ∈ sh.sleepChannelQueue ∨ pc.successWork = some c := by
  cases h with
  | callout h => cases h <;> exact Or.inl hc
  | @hangUp k _ _ _ _ _ h =>
    cases h with
    | noTrunk => cases k <;> exact Or.inl hc
    | _ => exact Or.inl hc
  | autoDial h =>
    cases h with
    | queuedLocked =>
      rcases List.mem_append.mp hc with h | h
      · exact Or.inl h
      · exact Or.inr (congrArg some (List.mem_singleton.mp h).symm)
    | queued =>
      rcases List.mem_append.mp hc with h | h
      · exact Or.inl h
      · exact Or.inr (congrArg some (List.mem_singleton.mp h).symm)
    | _ => exact Or.inl hc
  | timeoutCheck h => cases h <;> exact Or.inl hc
  | strategy h =>
    cases h with
    | took hq => exact Or.inl (hq ▸ List.mem_cons_of_mem _ hc)
    | _ => exact Or.inl hc
  | ret => exact Or.inl hc

theorem dealAutoDial_work {cfg : Config} {elapsed d c : Nat} {dw : DialResult}
    (h : (dealAutoDial cfg elapsed d dw).successWork = some c) : d = c ∧ dw.success = true := by
  cases dw with
  | echotone =>
    simp only [dealAutoDial] at h
    split at h <;> exact ⟨Option.some.inj h, rfl⟩
  | _ => first | exact ⟨Option.some.inj h, rfl⟩ | cases h

/-- A thread takes up a success only from its own work or from the queue. -/
theorem thread_work {cfg : Config} {sh sh' : Shared} {i : Nat} {pc pc' : Pc}
    (h : ThreadStep cfg sh i pc sh' pc') {c : Nat} (hc : pc'.successWork = some c) :
    pc.successWork = some c ∨ c ∈ sh.sleepChannelQueue := by
  cases h with
  | callout h => cases h <;> cases hc
  | @hangUp k _ _ _ _ _ h =>
    cases h with
    | noTrunk => cases k <;> cases hc
    | lockBusy => cases k <;> cases hc
    | unlocked => cases k <;> cases hc
    | _ => cases hc
  | autoDial h =>
    cases h with
    | entered =>
      obtain ⟨rfl, hs⟩ := dealAutoDial_work hc
      exact Or.inl (if_pos hs)
    | noTrunk => cases hc
    | queued => cases hc
    | queuedLocked => cases hc
    | unlocked => cases hc
    | _ => exact Or.inl hc
  | timeoutCheck h => cases h <;> cases hc
  | strategy h =>
    cases h with
    | took hq =>
      cases hc
      exact Or.inr (hq ▸ List.mem_cons_self ..)
    | nothing => cases hc
    | paused => cases hc
    | noTrunk => cases hc
    | _ => exact Or.inl hc
  | ret => cases hc

/-- A thread locks a trunk for a success only from its own work. -/
theorem thread_reporting {cfg : Config} {sh sh' : Shared} {i : Nat} {pc pc' : Pc}
    (h : ThreadStep cfg sh i pc sh' pc') {c : Nat} (hc : pc'.reporting = some c) :
    pc.successWork = some c ∨ pc.reporting = some c ∧ sh'.busy c = sh.busy c := by
  cases h with
  | callout h => cases h <;> cases hc
  | @hangUp k _ _ _ _ _ h =>
    cases h with
    | noTrunk => cases k <;> cases hc
    | lockBusy => cases k <;> cases hc
    | unlocked => cases k <;> cases hc
    | locked => exact Or.inl hc
    | accepted => exact Or.inr ⟨hc, rfl⟩
    | driven => exact Or.inr ⟨hc, rfl⟩
    | nullClient => exact Or.inr ⟨hc, rfl⟩
    | _ => cases hc
  | autoDial h =>
    rw [autoDial_none h (f := Pc.reporting) (fun _ => rfl) (fun _ => rfl) rfl] at hc
    cases hc
  | timeoutCheck h => cases h <;> cases hc
  | strategy h => cases h <;> cases hc
  | ret => cases hc

theorem mutex_of_reporting {pc : Pc} {c : Nat} (h : pc.reporting = some c) :
    pc.mutex = some c := by
  unfold Pc.reporting at h
  split at h <;> first | (split at h <;> first | exact h | cases h) | cases h

theorem busy_of_content {sh sh' : Shared} {c : Nat} (h : sh'.content c = sh.content c) :
    sh'.busy c = sh.busy c := by
  unfold Shared.busy Shared.bit
  cases ht : sh.trunkVector[c]? with
  | some t =>
    obtain ⟨t', ht', he⟩ := trunk_of_content h ht
    have hs := congrArg Trunk.clientSocket he
    change t'.clientSocket = t.clientSocket at hs
    simp only [ht', hs]
  | none =>
    have h₁ : (sh'.trunkVector[c]?).map (Trunk.setMutex false)
        = (sh.trunkVector[c]?).map (Trunk.setMutex false) := congrArg Prod.fst h
    rw [ht, Option.map_none, Option.map_eq_none_iff] at h₁
    rw [h₁]

/-! ## Runs -/

variable {cfg : Config} {s : Conf Shared Pc}

theorem fresh_of_dialsFresh {sh : Shared} {ts : List Pc} {i x c : Nat} {r : Int}
    (h : dialsFresh ⟨sh, ts⟩ (.run i r) = true) (hpc : ts[i]? = some (.callout x (.dial c)))
    (hr : r = 0) : c ∉ sh.sleepChannelQueue ∧ ∀ pc ∈ ts, pc.successWork ≠ some c := by
  simp only [dialsFresh, hpc, hr, bne_self_eq_false, Bool.false_or, Bool.and_eq_true,
    Bool.not_eq_true', List.all_eq_true, bne_iff_ne] at h
  exact ⟨fun hc => by simp [hc] at h, h.2⟩

/-- A dial is noted only if `SsmAutoDial` returned 0. -/
theorem dial_result {sh sh' : Shared} {i x c : Nat} {r : Int} {pc' : Pc}
    (h : exec cfg sh i (.callout x (.dial c)) r = some (sh', pc')) (hl : sh'.log ≠ sh.log) :
    r = 0 := by
  by_contra hr
  unfold exec at h
  split at h
  · cases h
  · simp only [execCallout, if_neg hr, Option.some.injEq, Prod.mk.injEq] at h
    exact hl (by rw [← h.1])

theorem freshInv_initial (cfg : Config) (echo : Nat → Bool) :
    FreshInv (initial cfg echo).shared (initial cfg echo).threads := by
  have hnone : ∀ pc ∈ (initial cfg echo).threads, pc.successWork = none ∧ pc.reporting = none := by
    intro pc hpc
    rcases mem_initial_threads hpc with rfl | rfl
    · exact ⟨rfl, rfl⟩
    · exact ⟨rfl, rfl⟩
  refine ⟨nofun, fun pc hpc c hc => ?_, fun pc hpc c hc => ?_⟩
  · rw [(hnone pc hpc).1] at hc
    cases hc
  · rw [(hnone pc hpc).2] at hc
    cases hc

/-- A new callback is work only for the ring it was started by. -/
theorem env_work {sh sh' : Shared} {i : Nat} {a : Action} {new : List Pc}
    (h : EnvStep sh i a sh' new) {pc : Pc} (hpc : pc ∈ new) {c : Nat}
    (hc : pc.successWork = some c) : rungSince c sh'.log = true := by
  cases h <;> simp only [List.mem_singleton, List.not_mem_nil] at hpc <;> subst hpc
  · cases hc
  · next n dw =>
    simp only [Pc.successWork] at hc
    split at hc
    · next hs =>
      cases hc
      simp [rungSince, hs]
    · cases hc
  · cases hc
  · cases hc

/-- What the clients and the card do keeps it. -/
theorem FreshInv.env {sh sh' : Shared} {ts new : List Pc} {i : Nat} {a : Action}
    (hF : FreshInv sh ts) (h : EnvStep sh i a sh' new) : FreshInv sh' (ts ++ new) := by
  refine ⟨fun c hc => env_rung h (hF.queued c ?_), fun pc hpc c hc => ?_, fun pc hpc c hc => ?_⟩
  · cases h <;> exact hc
  · rcases List.mem_append.mp hpc with hpc | hpc
    · exact env_rung h (hF.working pc hpc c hc)
    · exact env_work h hpc hc
  · rcases List.mem_append.mp hpc with hpc | hpc
    · rcases hF.reporting pc hpc c hc with hr | hb
      · exact Or.inl (env_rung h hr)
      · exact Or.inr (by rw [busy_of_content (env_content h c)]; exact hb)
    · rcases env_new h hpc with ⟨x, rfl⟩ | ⟨d, dw, rfl⟩ | rfl <;> cases hc

/-- A step of a thread keeps it, if a dial that succeeds finds nothing of an
earlier call. -/
theorem FreshInv.thread {sh sh' : Shared} {ts : List Pc} {i : Nat} {l l' : Pc}
    (hF : FreshInv sh ts) (hL : LockInv sh ts) (hC : ChanInv sh ts)
    (hdial : ∀ {x c : Nat}, l = .callout x (.dial c) → sh' = sh.note (.dialled x c) →
      c ∉ sh.sleepChannelQueue ∧ ∀ pc ∈ ts, pc.successWork ≠ some c)
    (hl : ts[i]? = some l) (h : ThreadStep cfg sh i l sh' l') : FreshInv sh' (ts.set i l') := by
  have hmem := List.mem_of_getElem? hl
  -- a success on its way stays rung for: the step is no dial on its channel
  have hkeep : ∀ {c : Nat}, (c ∈ sh.sleepChannelQueue ∨ ∃ pc ∈ ts, pc.successWork = some c) →
      rungSince c sh'.log = true := by
    intro c hc
    have hold : rungSince c sh.log = true := by
      rcases hc with hq | ⟨pc, hpc, hw⟩
      · exact hF.queued c hq
      · exact hF.working pc hpc c hw
    rcases thread_rung h hold with hr | ⟨x, rfl, hsh⟩
    · exact hr
    · obtain ⟨hq, hw⟩ := hdial rfl hsh
      rcases hc with hc | ⟨pc, hpc, hc⟩
      · exact absurd hc hq
      · exact absurd hc (hw pc hpc)
  -- a dial on `c` finds no client there, so a hang-up that has the lock has none either
  have hlift : ∀ {c : Nat}, rungSince c sh.log = true →
      rungSince c sh'.log = true ∨ sh'.busy c = 0 := by
    intro c hold
    rcases thread_rung h hold with hr | ⟨x, rfl, hsh⟩
    · exact Or.inl hr
    · refine Or.inr ?_
      have h₁ : 1 ≤ tokens Pc.channel c ts := one_le_tokens hmem rfl
      have h₂ := hC c
      rw [hsh]
      show sh.busy c = 0
      unfold Shared.chan at h₂
      omega
  refine ⟨fun c hc => ?_, fun pc hpc c hc => ?_, fun pc hpc c hc => ?_⟩
  · rcases thread_sleepQueue h hc with hq | hw
    · exact hkeep (Or.inl hq)
    · exact hkeep (Or.inr ⟨l, hmem, hw⟩)
  · rcases List.mem_or_eq_of_mem_set hpc with hpc | rfl
    · exact hkeep (Or.inr ⟨pc, hpc, hc⟩)
    · rcases thread_work h hc with hw | hq
      · exact hkeep (Or.inr ⟨l, hmem, hw⟩)
      · exact hkeep (Or.inl hq)
  · rcases mem_set_cases hl hpc with rfl | ⟨j, hij, hj⟩
    · rcases thread_reporting h hc with hw | ⟨hr, hb⟩
      · exact hlift (hF.working l hmem c hw)
      · rcases hF.reporting l hmem c hr with hr | h₀
        · exact hlift hr
        · exact Or.inr (hb.trans h₀)
    · rcases hF.reporting pc (List.mem_of_getElem? hj) c hc with hr | h₀
      · exact hlift hr
      · refine Or.inr ((busy_of_content (thread_content h fun hm => hij ?_)).trans h₀)
        exact mutex_unique hL hl hm hj (mutex_of_reporting hc)

theorem reachable_freshInv (h : ReachableBy cfg (fun s m => dialsFresh s m = true) s) :
    FreshInv s.shared s.threads := by
  obtain ⟨echo, h⟩ := h
  refine Program.Reach.rule (freshInv_initial cfg echo) ?_ ?_ h
  · intro sh ts a sh' new _ hF _ henv
    exact hF.env (env_step henv).2
  · intro sh ts i l r sh' l' hreach hF hok hl hex
    refine hF.thread (reachable_lockInv ⟨echo, hreach⟩) (reachable_chanInv ⟨echo, hreach⟩) ?_ hl
      (exec_step hex).2
    rintro x c rfl rfl
    have hex' : exec cfg sh i (.callout x (.dial c)) r = some (sh.note (.dialled x c), l') := hex
    exact fresh_of_dialsFresh hok hl (dial_result hex' (by simp))

/-- One more observation: only a success has to be looked at. -/
theorem NoFalseSuccess.cons {log : List Obs} {o : Obs} (h : NoFalseSuccess log)
    (ho : ∀ x r c, o = .response (some x) r → r.status = ciaCallSuccess → .dialled x c ∈ log →
      startedAfter x c log ≠ []) : NoFalseSuccess (o :: log) := by
  intro a b x r c hl hs hx
  cases a with
  | nil =>
    cases hl
    exact ho x r c rfl hs hx
  | cons o' a =>
    cases hl
    exact h a b x r c rfl hs hx

/-- **No false success**, in every run that dials a channel only when nothing
of an earlier call on it is left over. -/
theorem noFalseSuccess_of_dialsFresh
    (h : ReachableBy cfg (fun s m => dialsFresh s m = true) s) : NoFalseSuccess s.shared.log := by
  obtain ⟨echo, h⟩ := h
  refine Program.Reach.rule (I := fun sh _ => NoFalseSuccess sh.log) ?_ ?_ ?_ h
  · intro a b x r c hl
    cases a <;> cases hl
  · intro sh ts a sh' new _ hN _ henv
    rcases env_log (env_step henv).2 with ⟨hl, _⟩ | ⟨c, dw, hl, _⟩ <;> rw [hl]
    · exact hN
    · exact hN.cons nofun
  · intro sh ts i l r sh' l' hreach hN _ hl hex
    rcases thread_log (exec_step hex).2 with hlog | ⟨o, hlog, hn⟩ <;> rw [hlog]
    · exact hN
    · -- `cti_callout` answers with a failure or a timeout, so only `cti_hangUp` is left
      refine hN.cons fun x r c ho hs hx => ?_
      cases hn with
      | @answered k d status retVal client transId hb =>
        simp only [Obs.response.injEq] at ho
        obtain ⟨hreq, rfl⟩ := ho
        have hmem := List.mem_of_getElem? hl
        -- the call was dialled on the channel it is answered on
        obtain rfl : d = c := dial_unique (reachable_dialInv ⟨echo, hreach⟩)
          ((reachable_holderInv ⟨echo, hreach⟩).recorded d x hreq) hx
        rcases (reachable_freshInv ⟨echo, hreach⟩).reporting _ hmem d (if_pos hs) with hr | h₀
        · exact startedAfter_of_rungSince _ hr hx
        · exact absurd hb (by rw [show sh.busy d = 0 from h₀]; decide)
      | failed =>
        cases ho
        exact absurd hs (show ciaCallFail ≠ ciaCallSuccess by decide)
      | timeout =>
        cases ho
        exact absurd hs (show ciaCallTimeout ≠ ciaCallSuccess by decide)
      | _ => cases ho

/-- A call that is dialled, recorded, rung for and answered. -/
theorem noFalseSuccess_busytone :
    NoFalseSuccess (after oneChannel dialsFresh (fun _ => true)
      [.env (.call 7 [1] [] [] true), .run 2 0, .run 2 0, .run 2 0, .run 2 0, .run 2 0,
       .env (.event .procAutoDial 0 .busytone), .run 3 0, .run 3 0, .run 3 0, .run 3 0,
       .run 3 0]).shared.log :=
  noFalseSuccess_of_dialsFresh (reachable_after (by decide))

/-! ## The run with the stale entry -/

/-- Two rings for a first call queue its channel twice. The first entry hangs
it up; a second call takes the channel; the second entry hangs that one up,
for which the card never rang. -/
def staleEntryMoves : List (Move Action Int) :=
  [.env (.call 7 [1] [] [] true), .run 2 0, .run 2 0, .run 2 0, .run 2 0, .run 2 0,
   .env (.event .procAutoDial 0 .echotone), .run 3 0, .run 3 0, .run 3 0, .run 3 0, .run 3 0,
   .env (.event .procAutoDial 0 .echotone), .run 4 0, .run 4 0, .run 4 0, .run 4 0, .run 4 0,
   .run 1 0, .run 1 0, .run 1 0, .env (.tick 5000), .run 1 0, .run 1 0,
   .run 1 0, .run 1 0, .run 1 0, .run 1 0, .run 1 0, .run 1 0,
   .env (.call 8 [2] [] [] true), .run 5 0, .run 5 0, .run 5 0, .run 5 0, .run 5 0,
   .run 1 0, .run 1 0, .run 1 0, .env (.tick 5000), .run 1 0, .run 1 0,
   .run 1 0, .run 1 0, .run 1 0, .run 1 0]

/-- **The code reports a success nobody rang for.** -/
theorem noFalseSuccess_fails : ¬∀ cfg s, Reachable cfg s → NoFalseSuccess s.shared.log := by
  intro h
  have hall := h oneChannel (after oneChannel anyMove (fun _ => true) staleEntryMoves)
    (reachable_after (by decide)).reachable
  refine hall [] (after oneChannel anyMove (fun _ => true) staleEntryMoves).shared.log.tail 1
    { client := 8, transId := [2], status := ciaCallSuccess } 0 ?_ ?_ ?_ ?_
  all_goals decide

end CiaServer.Cti
