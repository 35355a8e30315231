import CiaServer.Cti.RequestInv

/-!
# A busy trunk has its client

A trunk that is not idle should have a client to answer, so that the
`do_write` of `cti_hangUp` never goes through a null pointer. `m_step` and
`m_client_socket` are filled in together and released together, but two places
write `m_step` alone and without looking at it: the ring handler
(`TRK_SLEEP`) and the strategy thread (`TRK_HUNGUP`). A ring that arrives
between `SsmAutoDial` and the filling of the trunk, or after the release, puts
an idle trunk to sleep; the strategy thread then hangs it up and the process
dies on the null client (`busyHasClient_fails`).

`busyHasClient_of_writesBusy`: as long as those two places write `m_step` only
while the trunk is not idle, every busy trunk has its client.
-/

namespace CiaServer.Cti

open Interleave

/-! ## What a thread without the lock leaves alone -/

/-- Trunk `c` but for its mutex, and the request recorded on it. -/
def Shared.content (sh : Shared) (c : Nat) : Option Trunk × Option Nat :=
  ((sh.trunkVector[c]?).map (.setMutex false), sh.callOn c)

theorem content_congr {sh sh' : Shared} (ht : sh'.trunkVector = sh.trunkVector)
    (hc : sh'.calls = sh.calls) (c : Nat) : sh'.content c = sh.content c := by
  rw [Shared.content, Shared.content, callOn_congr hc, ht]

theorem content_setMutex {sh sh' : Shared} {d : Nat} {b : Bool}
    (ht : sh'.trunkVector = sh.trunkVector.modify d (.setMutex b)) (hc : sh'.calls = sh.calls)
    (c : Nat) : sh'.content c = sh.content c := by
  refine Prod.ext ?_ (callOn_congr hc c)
  show (sh'.trunkVector[c]?).map _ = _
  rw [show sh'.trunkVector = (sh.modifyTrunk d (.setMutex b)).trunkVector from ht,
    getElem?_modifyTrunk]
  split
  · show Option.map _ (Option.map _ _) = _
    rw [Option.map_map]
    rfl
  · rfl

theorem content_modify_ne {sh sh' : Shared} {d c : Nat} {f : Trunk → Trunk} (hd : d ≠ c)
    (ht : sh'.trunkVector = sh.trunkVector.modify d f)
    (hc : sh'.calls = sh.calls ∨ ∃ v, sh'.calls = sh.calls.set d v) :
    sh'.content c = sh.content c := by
  refine Prod.ext ?_ ?_
  · show (sh'.trunkVector[c]?).map _ = _
    rw [show sh'.trunkVector = (sh.modifyTrunk d f).trunkVector from ht, getElem?_modifyTrunk,
      if_neg hd]
    rfl
  · show (sh'.calls[c]?).getD none = (sh.calls[c]?).getD none
    rcases hc with hc | ⟨v, hc⟩
    · rw [hc]
    · rw [hc, List.getElem?_set_ne hd]

/-- **The lock protects the trunk**: a thread that does not hold the mutex of
trunk `c` changes nothing on it but the mutex. -/
theorem thread_content {cfg : Config} {sh sh' : Shared} {i : Nat} {pc pc' : Pc}
    (h : ThreadStep cfg sh i pc sh' pc') {c : Nat} (hc : pc.mutex ≠ some c) :
    sh'.content c = sh.content c := by
  -- every write but that of a mutex is made by a thread that holds the lock
  have hne : ∀ {d : Nat}, pc.mutex = some d → d ≠ c := fun hd he => hc (he ▸ hd)
  cases thread_write h with
  | nothing ht hcalls => exact content_congr ht hcalls c
  | mutex ht hcalls => exact content_setMutex ht hcalls c
  | filled _ ht hcalls => exact content_modify_ne (hne rfl) ht (Or.inr ⟨_, hcalls⟩)
  | released ht hcalls => exact content_modify_ne (hne rfl) ht (Or.inr ⟨_, hcalls⟩)
  | slept ht hcalls => exact content_modify_ne (hne rfl) ht (Or.inl hcalls)
  | flagged ht hcalls => exact content_modify_ne (hne rfl) ht (Or.inl hcalls)
  | hungup ht hcalls => exact content_modify_ne (hne rfl) ht (Or.inl hcalls)

theorem env_content {sh sh' : Shared} {i : Nat} {a : Action} {new : List Pc}
    (h : EnvStep sh i a sh' new) (c : Nat) : sh'.content c = sh.content c :=
  content_congr (env_trunks h).1 (env_trunks h).2 c

/-- Equal content: the trunk is there, and differs in its mutex at most. -/
theorem trunk_of_content {sh sh' : Shared} {c : Nat} (h : sh'.content c = sh.content c) {t : Trunk}
    (ht : sh.trunkVector[c]? = some t) :
    ∃ t', sh'.trunkVector[c]? = some t' ∧ t'.setMutex false = t.setMutex false := by
  have h₁ : (sh'.trunkVector[c]?).map (Trunk.setMutex false)
      = (sh.trunkVector[c]?).map (Trunk.setMutex false) := congrArg Prod.fst h
  rw [ht, Option.map_some, Option.map_eq_some_iff] at h₁
  exact h₁

/-! ## The invariant -/

/-- Every busy trunk has its client and is not free, and the process runs. -/
structure BusyHasClient (s : Conf Shared Pc) : Prop where
  client : ∀ (c : Nat) (t : Trunk), s.shared.trunkVector[c]? = some t → t.step ≠ .idle →
    t.clientSocket ≠ none ∧ c ∉ s.shared.channelQueue
  running : s.shared.crashed = false

/-- Every busy trunk has a client. -/
def ClientInv (sh : Shared) : Prop :=
  ∀ (c : Nat) (t : Trunk), sh.trunkVector[c]? = some t → t.step ≠ .idle → t.clientSocket ≠ none

/-- The trunk a hang-up has decided to release. -/
def Pc.answering : Pc → Option Nat
  | .hangUp _ c _ .driver => some c
  | .hangUp _ c _ (.answer _) => some c
  | _ => none

theorem mutex_of_answering {pc : Pc} {c : Nat} (h : pc.answering = some c) :
    pc.mutex = some c := by
  unfold Pc.answering at h
  split at h <;> first | exact h | cases h

/-- Trunk `c` is there and is not idle. -/
def Shared.BusyAt (sh : Shared) (c : Nat) : Prop :=
  ∃ t, sh.trunkVector[c]? = some t ∧ t.step ≠ .idle

theorem BusyAt.of_content {sh sh' : Shared} {c : Nat} (h : sh'.content c = sh.content c)
    (hb : sh.BusyAt c) : sh'.BusyAt c := by
  obtain ⟨t, ht, hs⟩ := hb
  obtain ⟨t', ht', he⟩ := trunk_of_content h ht
  have hstep : t'.step = t.step := congrArg (·.step) he
  exact ⟨t', ht', by rw [hstep]; exact hs⟩

/-- Busy trunks have clients, a hang-up past its check is on a busy trunk, and
the process runs. -/
structure BusyInv (sh : Shared) (ts : List Pc) : Prop where
  client : ClientInv sh
  answering : ∀ pc ∈ ts, ∀ c, pc.answering = some c → sh.BusyAt c
  running : sh.crashed = false

/-- `m_step` of an idle trunk is left alone by the ring handler and by the
strategy thread. -/
def writesBusy (s : Conf Shared Pc) : Move Action Int → Bool
  | .run i _ =>
    match s.threads[i]? with
    | some (.autoDial c .setSleep) => (s.shared.trunkVector[c]?).any (·.step != .idle)
    | some (.strategy (.wake c _)) => (s.shared.trunkVector[c]?).any (·.step != .idle)
    | _ => true
  | .env _ => true

theorem busyAt_of_any {sh : Shared} {c : Nat}
    (h : (sh.trunkVector[c]?).any (·.step != .idle) = true) : sh.BusyAt c := by
  cases ht : sh.trunkVector[c]? with
  | none => rw [ht] at h; cases h
  | some t =>
    rw [ht] at h
    exact ⟨t, ht, by simpa using h⟩

/-! ## What one step keeps -/

theorem ClientInv.congr {sh sh' : Shared} (hI : ClientInv sh)
    (h : sh'.trunkVector = sh.trunkVector) : ClientInv sh' := by
  intro c t ht
  rw [h] at ht
  exact hI c t ht

theorem ClientInv.modify {sh sh' : Shared} (hI : ClientInv sh) {d : Nat} {f : Trunk → Trunk}
    (h : sh'.trunkVector = sh.trunkVector.modify d f)
    (hf : ∀ t, sh.trunkVector[d]? = some t → (t.step ≠ .idle → t.clientSocket ≠ none) →
      (f t).step ≠ .idle → (f t).clientSocket ≠ none) : ClientInv sh' := by
  intro c t' ht'
  rw [show sh'.trunkVector = (sh.modifyTrunk d f).trunkVector from h, getElem?_modifyTrunk] at ht'
  by_cases hd : d = c
  · subst hd
    rw [if_pos rfl] at ht'
    cases ht : sh.trunkVector[d]? with
    | none => rw [ht] at ht'; cases ht'
    | some t =>
      rw [ht] at ht'
      cases ht'
      exact hf t ht (hI d t ht)
  · rw [if_neg hd] at ht'
    exact hI c t' ht'

/-- Writing `m_step` of a busy trunk leaves it its client. -/
theorem ClientInv.setStep {sh sh' : Shared} (hI : ClientInv sh) {d : Nat} (hb : sh.BusyAt d)
    {step : TrunkState} (h : sh'.trunkVector = sh.trunkVector.modify d (.setStep step)) :
    ClientInv sh' := by
  refine hI.modify h fun t ht hc _ => ?_
  obtain ⟨t₀, ht₀, hs⟩ := hb
  rw [ht] at ht₀
  cases ht₀
  exact hc hs

theorem thread_client {cfg : Config} {sh sh' : Shared} {i : Nat} {pc pc' : Pc}
    (h : ThreadStep cfg sh i pc sh' pc') (hI : ClientInv sh)
    (hsleep : ∀ c, pc = .autoDial c .setSleep → sh.BusyAt c)
    (hwake : ∀ c till, pc = .strategy (.wake c till) → sh.BusyAt c) : ClientInv sh' := by
  cases thread_write h with
  | nothing ht => exact hI.congr ht
  | mutex ht => exact hI.modify ht fun _ _ hc => hc
  | filled _ ht => exact hI.modify ht fun _ _ _ _ => nofun
  | released ht => exact hI.modify ht fun _ _ _ hs => absurd rfl hs
  -- the two writes of `m_step` alone: the trunk was busy before
  | slept ht => exact hI.setStep (hsleep _ rfl) ht
  | flagged ht => exact hI.modify ht fun _ _ hc => hc
  | hungup ht => exact hI.setStep (hwake _ _ rfl) ht

theorem resume_answering (k : Caller) : k.resume.answering = none := by
  cases k <;> rfl

/-- A thread comes to release a trunk only through the check of `cti_hangUp`,
which lets no idle trunk pass. -/
theorem thread_answering {cfg : Config} {sh sh' : Shared} {i : Nat} {pc pc' : Pc}
    (h : ThreadStep cfg sh i pc sh' pc') (hown : ∀ c, pc.answering = some c → sh.BusyAt c) (c : Nat)
    (hc : pc'.answering = some c) : sh'.BusyAt c := by
  cases h with
  | callout h => cases h <;> cases hc
  | @hangUp k _ _ _ _ _ h =>
    cases h with
    | noTrunk => cases k <;> cases hc
    | lockBusy => rw [resume_answering] at hc; cases hc
    | unlocked => rw [resume_answering] at hc; cases hc
    -- past the check the trunk is not idle
    | @accepted t ht hr =>
      cases hc
      refine ⟨t, ht, fun hi => ?_⟩
      rw [Trunk.refusesHangUp, hi] at hr
      simp at hr
    | driven => exact hown c hc
    | nullClient => exact hown c hc
    | _ => cases hc
  | autoDial h =>
    rw [autoDial_none h (f := Pc.answering) (fun _ => rfl) (fun _ => rfl) rfl] at hc
    cases hc
  | timeoutCheck h => cases h <;> cases hc
  | strategy h => cases h <;> cases hc
  | ret => cases hc

/-- The process dies only on an index out of range or on a null client. -/
theorem thread_running {cfg : Config} {sh sh' : Shared} {i : Nat} {pc pc' : Pc}
    (h : ThreadStep cfg sh i pc sh' pc') (hR : QueueRange cfg sh) (hpc : InRange cfg pc)
    (hclient : ∀ c t, pc.answering = some c → sh.trunkVector[c]? = some t → t.clientSocket ≠ none)
    (hrun : sh.crashed = false) : sh'.crashed = false := by
  have hin : ∀ {c : Nat}, pc.target = some c → sh.trunkVector[c]? ≠ none := by
    intro c hc hn
    obtain ⟨t, ht⟩ := hR.exists_trunk (hpc c hc)
    rw [ht] at hn
    cases hn
  cases h with
  | callout h =>
    cases h with
    | noTrunk ht => exact absurd ht (hin rfl)
    | _ => exact hrun
  | @hangUp k _ _ _ _ _ h =>
    cases h with
    | noTrunk ht => exact absurd ht (hin rfl)
    | nullClient ht hn => exact absurd hn (hclient _ _ rfl ht)
    | _ => exact hrun
  | autoDial h => cases h <;> exact hrun
  | timeoutCheck h => cases h <;> exact hrun
  | strategy h =>
    cases h with
    | noTrunk ht => exact absurd ht (hin rfl)
    | _ => exact hrun
  | ret => exact hrun

/-! ## Runs -/

variable {cfg : Config} {s : Conf Shared Pc}

theorem busyAt_of_writesBusy {sh : Shared} {ts : List Pc} {i : Nat} {r : Int} {pc : Pc}
    (h : writesBusy ⟨sh, ts⟩ (.run i r) = true) (hpc : ts[i]? = some pc) :
    (∀ c, pc = .autoDial c .setSleep → sh.BusyAt c) ∧
      ∀ c till, pc = .strategy (.wake c till) → sh.BusyAt c := by
  simp only [writesBusy, hpc] at h
  refine ⟨?_, ?_⟩
  · rintro c rfl
    exact busyAt_of_any h
  · rintro c till rfl
    exact busyAt_of_any h

theorem reachable_busyInv (h : ReachableBy cfg (fun s m => writesBusy s m = true) s) :
    BusyInv s.shared s.threads := by
  obtain ⟨echo, h⟩ := h
  refine Program.Reach.rule ?_ ?_ ?_ h
  · refine ⟨fun c t ht hs => ?_, fun pc hpc c hc => ?_, rfl⟩
    · obtain ⟨i, rfl⟩ := initial_trunk ht
      exact absurd rfl hs
    · rcases mem_initial_threads hpc with rfl | rfl
      · cases hc
      · cases hc
  · intro sh ts a sh' new _ hB _ henv
    have henv' := (env_step henv).2
    refine ⟨?_, fun pc hpc c hc => ?_, ?_⟩
    · exact ClientInv.congr hB.client (env_trunks henv').1
    · rcases List.mem_append.mp hpc with hpc | hpc
      · exact BusyAt.of_content (env_content henv' c) (hB.answering pc hpc c hc)
      · rcases env_new henv' hpc with ⟨x, rfl⟩ | ⟨d, dw, rfl⟩ | rfl <;> cases hc
    · have := hB.running
      cases henv' <;> exact this
  · intro sh ts i l r sh' l' hreach hB hok hl hex
    have hstep := (exec_step hex).2
    have hR := reachable_rangeInv ⟨echo, hreach⟩
    have hL := reachable_lockInv ⟨echo, hreach⟩
    have hmem := List.mem_of_getElem? hl
    obtain ⟨hsleep, hwake⟩ := busyAt_of_writesBusy hok hl
    refine ⟨thread_client hstep hB.client hsleep hwake, fun pc hpc c hc => ?_, ?_⟩
    · rcases mem_set_cases hl hpc with rfl | ⟨j, hij, hj⟩
      · exact thread_answering hstep (hB.answering l hmem) c hc
      · -- another thread is releasing the trunk: it has the lock, so this step spares it
        refine BusyAt.of_content (thread_content hstep fun hm => hij ?_)
          (hB.answering pc (List.mem_of_getElem? hj) c hc)
        exact mutex_unique hL hl hm hj (mutex_of_answering hc)
    · refine thread_running hstep hR.queues (hR.threads l hmem) (fun c t hc ht => ?_) hB.running
      obtain ⟨t', ht', hs⟩ := hB.answering l hmem c hc
      rw [ht] at ht'
      cases ht'
      exact hB.client c t ht hs

/-- **A busy trunk has its client**, in every run in which `m_step` of an idle
trunk is written by `cti_callout` only; so no hang-up meets a null client. -/
theorem busyHasClient_of_writesBusy (h : ReachableBy cfg (fun s m => writesBusy s m = true) s) :
    BusyHasClient s := by
  have hB := reachable_busyInv h
  refine ⟨fun c t ht hs => ⟨hB.client c t ht hs, fun hq => ?_⟩, hB.running⟩
  have h₁ := reachable_chanInv h c
  have h₂ : 1 ≤ tokens some c s.shared.channelQueue := one_le_tokens hq rfl
  have h₃ : s.shared.busy c = 1 := by
    rw [Shared.busy, bit_of_trunk ht, Option.isSome_iff_ne_none.mpr (hB.client c t ht hs)]
    rfl
  unfold Shared.chan at h₁
  omega

/-- A ring on a recorded call puts its trunk to sleep. -/
theorem busyHasClient_ring :
    BusyHasClient (after oneChannel writesBusy (fun _ => true)
      [.env (.call 7 [1] [] [] true), .run 2 0, .run 2 0, .run 2 0, .run 2 0, .run 2 0,
       .env (.event .procAutoDial 0 .echotone), .run 3 0, .run 3 0, .run 3 0]) :=
  busyHasClient_of_writesBusy (reachable_after (by decide))

/-! ## The run into the null client -/

/-- The driver rings between `SsmAutoDial` and the filling of the trunk; the
strategy thread takes the channel and hangs up a trunk without a client. -/
def earlyRingMoves : List (Move Action Int) :=
  [.env (.call 7 [1] [] [] true), .run 2 0, .run 2 0,
   .env (.event .procAutoDial 0 .echotone), .run 3 0, .run 3 0, .run 3 0, .run 3 0, .run 3 0,
   .run 1 0, .run 1 0, .run 1 0, .env (.tick 5000), .run 1 0, .run 1 0,
   .run 1 0, .run 1 0, .run 1 0, .run 1 0]

/-- **The code puts an idle trunk to sleep and dies on its null client.** -/
theorem busyHasClient_fails : ¬∀ cfg s, Reachable cfg s → BusyHasClient s := by
  intro h
  have hbad := (h oneChannel (after oneChannel anyMove (fun _ => true) earlyRingMoves)
    (reachable_after (by decide)).reachable).running
  exact absurd hbad (by decide)

end CiaServer.Cti
