import CiaServer.Cti.Guard

/-!
# No lost success

Once the card has rung for a call, the call should not be reported as failed.
The callback that brings the ring has one `try_lock` to do something about it,
and nobody repeats it: when the trunk is not filled in yet, or is locked by
somebody else, the ring is dropped, and the timeout scan reports a failure
later (`noLostSuccess_fails`). And when the delayed hang-up has set
`TRK_HUNGUP` and released the trunk to hang it up, somebody else's failure may
come first.

`noLostSuccess_of_heeds`: where neither happens, no ring is lost. The proof
follows a call since its callback's `try_lock`: its trunk is *guarded* — asleep
or marked for the hang-up with no failure on its way, or locked by a thread
that will leave it so or answer the call.
-/

namespace CiaServer.Cti

open Interleave

/-- No call that is to be hung up at the first ring is answered with a failure
after a success callback on its channel ran to completion: one that started
after the dial and returned at `t₁`, before the answer and while the call was
younger than the timeout. -/
def NoLostSuccess (cfg : Config) (sh : Shared) : Prop :=
  ∀ (a b₁ b₂ : List Obs) (x : Nat) (r : Response) (c i t₁ : Nat),
    sh.log = a ++ .response (some x) r :: (b₁ ++ .returned i t₁ :: b₂) → sh.wants x = true →
    i ∈ startedAfter x c b₂ → tokens Obs.answers x b₂ = 0 →
    (∀ t₀, .recorded x c t₀ ∈ sh.log → t₁ < t₀ + cfg.timeoutElapse) → r.status ≠ ciaCallFail

/-! ## The condition -/

/-- A callback on `c` that rings for call `x` finds it recorded, and its trunk
free or guarded already. -/
def HeededFor (sh : Shared) (ts : List Pc) (c x : Nat) : Prop :=
  (∀ pc ∈ ts, pc.unrecorded ≠ some (x, c)) ∧
    (sh.callOn c = some x → sh.lockBit c = 0 ∨ Guarded sh ts c)

instance (sh : Shared) (ts : List Pc) (c x : Nat) : Decidable (HeededFor sh ts c x) :=
  inferInstanceAs (Decidable (_ ∧ _))

/-- The `try_lock` of callback `i` on `c` is not in vain for the unanswered
calls it rings for. -/
def Heeded (sh : Shared) (ts : List Pc) (i c : Nat) : Prop :=
  ∀ x < sh.params.length, sh.wants x = true → i ∈ startedAfter x c sh.log →
    tokens Obs.answers x sh.log = 0 → HeededFor sh ts c x

instance (sh : Shared) (ts : List Pc) (i c : Nat) : Decidable (Heeded sh ts i c) :=
  inferInstanceAs (Decidable (∀ x < sh.params.length, _))

/-- A failure does not overtake the delayed hang-up of a call that has been
rung for. -/
def NotOvertaken (sh : Shared) (c : Nat) : Prop :=
  ∀ x < sh.params.length, sh.callOn c = some x → sh.wants x = true →
    startedAfter x c sh.log ≠ [] → sh.stepAt c ≠ some .hungup

instance (sh : Shared) (c : Nat) : Decidable (NotOvertaken sh c) :=
  inferInstanceAs (Decidable (∀ x < sh.params.length, _))

/-- The `try_lock` of every success callback is heeded, and no failure passes
the check of `cti_hangUp` between `TRK_HUNGUP` and the hang-up it stands for. -/
def heeds (s : Conf Shared Pc) : Move Action Int → Bool
  | .run i _ =>
    match s.threads[i]? with
    | some (.autoDial c .lock) => decide (Heeded s.shared s.threads i c)
    | some (.hangUp .callback c status .lock) =>
      status != ciaCallSuccess || decide (Heeded s.shared s.threads i c)
    | some (.hangUp _ c status .check) =>
      status == ciaCallSuccess || decide (NotOvertaken s.shared c)
    | _ => true
  | .env _ => true

/-! ## What one step keeps -/

/-- A success callback on `c` that has not tried the lock yet. -/
def Pc.beforeLock (c : Nat) : Pc → Bool
  | .autoDial d (.enter dw) => d == c && dw.success
  | .autoDial d .lock => d == c
  | .hangUp .callback d status .lock => d == c && status == ciaCallSuccess
  | _ => false

/-- Call `x` is past its dialling, and guarded if it is on trunk `c`. -/
structure Safe (sh : Shared) (ts : List Pc) (x c : Nat) : Prop where
  recorded : ∀ pc ∈ ts, pc.unrecorded ≠ some (x, c)
  guarded : sh.callOn c = some x → Guarded sh ts c

theorem dealAutoDial_beforeLock (cfg : Config) (elapsed c : Nat) {dw : DialResult}
    (h : dw.success = true) : (dealAutoDial cfg elapsed c dw).beforeLock c = true := by
  have hs : (Pc.hangUp .callback c ciaCallSuccess .lock).beforeLock c = true := by
    simp only [Pc.beforeLock, beq_self_eq_true, Bool.and_self]
  cases dw with
  | echotone =>
    simp only [dealAutoDial]
    split
    · exact beq_self_eq_true c
    · exact hs
  | _ => first | exact hs | cases h

/-- A callback goes on to its `try_lock`, and takes it or finds it taken. -/
theorem thread_beforeLock {cfg : Config} {sh sh' : Shared} {i : Nat} {pc pc' : Pc}
    (h : ThreadStep cfg sh i pc sh' pc') {c : Nat} (hpc : pc.beforeLock c = true) :
    pc'.beforeLock c = true ∨ sh.trunkVector[c]? = none ∨
      (pc = .autoDial c .lock ∨ pc = .hangUp .callback c ciaCallSuccess .lock) ∧
        (sh.lockBit c = 1 ∨ pc'.finishing = some c) := by
  have hbusy : ∀ {t : Trunk}, sh.trunkVector[c]? = some t → t.trunkMutex = true →
      sh.lockBit c = 1 := by
    intro t ht hm
    rw [Shared.lockBit, bit_of_trunk ht, hm]
    rfl
  cases h with
  | callout h => cases hpc
  | @hangUp k d status p _ _ h =>
    cases p with
    | lock =>
      cases k with
      | callback =>
        simp only [Pc.beforeLock, Bool.and_eq_true, beq_iff_eq] at hpc
        obtain ⟨rfl, rfl⟩ := hpc
        cases h with
        | noTrunk ht => exact Or.inr (Or.inl ht)
        | lockBusy ht hm => exact Or.inr (Or.inr ⟨Or.inr rfl, Or.inl (hbusy ht hm)⟩)
        | locked => exact Or.inr (Or.inr ⟨Or.inr rfl, Or.inr rfl⟩)
      | _ => cases hpc
    | _ => cases k <;> cases hpc
  | @autoDial d p _ _ h =>
    cases p with
    | enter dw =>
      simp only [Pc.beforeLock, Bool.and_eq_true, beq_iff_eq] at hpc
      obtain ⟨rfl, hs⟩ := hpc
      cases h with
      | noTrunk ht => exact Or.inr (Or.inl ht)
      | entered => exact Or.inl (dealAutoDial_beforeLock _ _ _ hs)
    | lock =>
      obtain rfl : d = c := beq_iff_eq.mp hpc
      cases h with
      | lockBusy ht hm => exact Or.inr (Or.inr ⟨Or.inl rfl, Or.inl (hbusy ht hm)⟩)
      | locked => exact Or.inr (Or.inr ⟨Or.inl rfl, Or.inr rfl⟩)
    | _ => cases hpc
  | timeoutCheck h => cases hpc
  | strategy h => cases hpc
  | ret => cases hpc

section

variable {cfg : Config} {ok : Conf Shared Pc → Move Action Int → Prop} {sh sh' : Shared}
  {ts : List Pc} {i x c : Nat} {pc pc' : Pc}

/-- A request that has been dialled on `c` and is past that is not dialled
again. -/
theorem unrecorded_step (hreach : ReachableBy cfg ok ⟨sh, ts⟩)
    (h : ThreadStep cfg sh i pc sh' pc') (hl : ts[i]? = some pc) (hx : .dialled x c ∈ sh.log)
    (hr : ∀ pc ∈ ts, pc.unrecorded ≠ some (x, c)) :
    ∀ pc ∈ ts.set i pc', pc.unrecorded ≠ some (x, c) := by
  intro m hm hmu
  rcases mem_set_cases hl hm with rfl | ⟨j, _, hj⟩
  · rcases thread_unrecorded h hmu with hu | ⟨rfl, _⟩
    · exact hr pc (List.mem_of_getElem? hl) hu
    · exact preDial_of_dialled (reachable_dialInv hreach) hx (List.mem_of_getElem? hl) rfl
  · exact hr m (List.mem_of_getElem? hj) hmu

/-- The trunk a call is recorded on. -/
theorem trunk_of_callOn (hreach : ReachableBy cfg ok ⟨sh, ts⟩) (hx : sh.callOn c = some x) :
    ∃ t, sh.trunkVector[c]? = some t ∧ t.step ≠ .idle ∧ sh.busy c = 1 ∧ c < sh.calls.length := by
  have hR : QueueRange cfg sh := (reachable_rangeInv hreach).queues
  have hlt : c < sh.calls.length := by
    by_contra hge
    rw [Shared.callOn, List.getElem?_eq_none (by omega)] at hx
    cases hx
  obtain ⟨t, ht⟩ := hR.exists_trunk (by rw [← hR.calls]; exact hlt)
  have hcarry := reachable_callInv hreach c t ht
  rw [show ({ shared := sh, threads := ts } : Conf Shared Pc).shared.callOn c = some x from hx]
    at hcarry
  obtain ⟨p, _, hp⟩ := hcarry
  have hs : t.clientSocket = some p.baseClient := congrArg Prod.fst hp
  refine ⟨t, ht, fun hi => ?_, ?_, hlt⟩
  · have hn := reachable_idleInv hreach c t ht hi
    rw [hs] at hn
    cases hn
  · rw [Shared.busy, bit_of_trunk ht, hs]
    rfl

/-- **A safe call stays safe** until it is answered. -/
theorem Safe.step (hreach : ReachableBy cfg ok ⟨sh, ts⟩) (h : ThreadStep cfg sh i pc sh' pc')
    (hl : ts[i]? = some pc) (hx : .dialled x c ∈ sh.log) (hw : sh.wants x = true)
    (hS : Safe sh ts x c)
    (hfail : ∀ k status, pc = .hangUp k c status .check → status ≠ ciaCallSuccess →
      sh.callOn c = some x → sh.stepAt c ≠ some .hungup) : Safe sh' (ts.set i pc') x c := by
  refine ⟨unrecorded_step hreach h hl hx hS.recorded, fun hx' => ?_⟩
  have hmem := List.mem_of_getElem? hl
  have hx₀ : sh.callOn c = some x := by
    rcases thread_callOn h hx' with hx₀ | rfl
    · exact hx₀
    · exact absurd rfl (hS.recorded _ hmem)
  obtain ⟨t, ht, hidle, hbusy, _⟩ := trunk_of_callOn hreach hx₀
  refine (hS.guarded hx₀).step h hl (reachable_lockInv hreach) ht
    (reachable_flagInv hreach c x t hx₀ hw ht) hidle ?_ hx' fun k status hpc hne =>
      hfail k status hpc hne hx₀
  rintro y rfl
  rw [busy_of_fill (reachable_chanInv hreach) hmem] at hbusy
  cases hbusy

end

/-- A step of a thread starts no callback. -/
theorem thread_startedAfter {cfg : Config} {sh sh' : Shared} {i : Nat} {pc pc' : Pc}
    (h : ThreadStep cfg sh i pc sh' pc') (x c : Nat) :
    startedAfter x c sh'.log = startedAfter x c sh.log := by
  rcases thread_log h with hl | ⟨o, hl, hn⟩ <;> rw [hl]
  cases hn <;> rfl

theorem Safe.env {sh sh' : Shared} {ts new : List Pc} {i x c : Nat} {a : Action}
    (h : EnvStep sh i a sh' new) (hS : Safe sh ts x c) : Safe sh' (ts ++ new) x c := by
  have hnew : ∀ pc ∈ new, pc.unrecorded = none ∧ pc.failing = none := by
    intro pc hpc
    rcases env_new h hpc with ⟨y, rfl⟩ | ⟨d, dw, rfl⟩ | rfl <;> exact ⟨rfl, rfl⟩
  refine ⟨fun pc hpc => ?_, fun hx => ?_⟩
  · rcases List.mem_append.mp hpc with hpc | hpc
    · exact hS.recorded pc hpc
    · rw [(hnew pc hpc).1]
      exact (Option.some_ne_none (x, c)).symm
  · rcases hS.guarded ((callOn_congr (env_trunks h).2 c).symm.trans hx) with ⟨qc, hqc, hfin⟩ | ⟨hs, hf⟩
    · exact Or.inl ⟨qc, List.mem_append_left _ hqc, hfin⟩
    · refine Or.inr ⟨?_, fun pc hpc => ?_⟩
      · rwa [Shared.stepAt, (env_trunks h).1]
      · rcases List.mem_append.mp hpc with hpc | hpc
        · exact hf pc hpc
        · rw [(hnew pc hpc).2]
          exact (Option.some_ne_none c).symm

/-! ## Runs -/

/-- Every success callback that has tried the lock has made its call safe. -/
structure HeardInv (sh : Shared) (ts : List Pc) : Prop where
  started : ∀ i c dw, .delivered i c dw ∈ sh.log → i < ts.length
  returned : ∀ i t₁, .returned i t₁ ∈ sh.log → ts[i]? = some .done
  heard : ∀ i x c pc, i ∈ startedAfter x c sh.log → ts[i]? = some pc →
    pc.beforeLock c = true ∨
      (sh.wants x = true → tokens Obs.answers x sh.log = 0 → Safe sh ts x c)

variable {cfg : Config} {s : Conf Shared Pc}

/-- What the condition gives for the `try_lock` of a success callback. -/
theorem heeded_of_heeds {sh : Shared} {ts : List Pc} {i c : Nat} {r : Int} {pc : Pc}
    (h : heeds ⟨sh, ts⟩ (.run i r) = true) (hl : ts[i]? = some pc)
    (hpc : pc = .autoDial c .lock ∨ pc = .hangUp .callback c ciaCallSuccess .lock) :
    Heeded sh ts i c := by
  rcases hpc with rfl | rfl <;> simp only [heeds, hl] at h
  · exact of_decide_eq_true h
  · simpa using h

theorem notOvertaken_of_heeds {sh : Shared} {ts : List Pc} {i c : Nat} {r : Int} {k : Caller}
    {status : Bytes} (h : heeds ⟨sh, ts⟩ (.run i r) = true)
    (hl : ts[i]? = some (.hangUp k c status .check)) (hs : status ≠ ciaCallSuccess) :
    NotOvertaken sh c := by
  simp only [heeds, hl, Bool.or_eq_true, beq_iff_eq, decide_eq_true_eq] at h
  exact h.resolve_left hs

/-- The step of thread `i` itself, when it is a success callback that has not
tried the lock. -/
theorem heard_self {sh sh' : Shared} {ts : List Pc} {i x c : Nat} {r : Int} {pc pc' : Pc}
    {ok : Conf Shared Pc → Move Action Int → Prop} (hreach : ReachableBy cfg ok ⟨sh, ts⟩)
    (hok : heeds ⟨sh, ts⟩ (.run i r) = true) (hl : ts[i]? = some pc)
    (h : ThreadStep cfg sh i pc sh' pc') (hi : i ∈ startedAfter x c sh.log)
    (hb : pc.beforeLock c = true) (hw : sh.wants x = true)
    (ha : tokens Obs.answers x sh.log = 0) :
    pc'.beforeLock c = true ∨ Safe sh' (ts.set i pc') x c := by
  have hx := (delivered_of_startedAfter _ hi).1
  have hmade := made_of_dialled (reachable_dialInv hreach) hx
  have hmem := List.mem_of_getElem? hl
  have hstep : Safe sh ts x c → Safe sh' (ts.set i pc') x c := by
    intro hS
    refine hS.step hreach h hl hx hw fun k status hpc => ?_
    rw [hpc] at hb
    cases k <;> cases hb
  rcases thread_beforeLock h hb with hb' | hnone | ⟨hpc, htry⟩
  · exact Or.inl hb'
  · -- no call is dialled on a channel the card does not have
    refine Or.inr (hstep ⟨fun m hm hmu => ?_, fun hx' => ?_⟩)
    · have hR := reachable_rangeInv hreach
      have htarget : m.target = some c := by
        unfold Pc.unrecorded at hmu
        split at hmu <;> cases hmu <;> rfl
      obtain ⟨t, ht⟩ := hR.queues.exists_trunk (hR.threads m hm c htarget)
      exact absurd (ht.symm.trans hnone) nofun
    · obtain ⟨t, ht, _⟩ := trunk_of_callOn hreach hx'
      exact absurd (ht.symm.trans hnone) nofun
  · obtain ⟨hrec, hfree⟩ := heeded_of_heeds hok hl hpc x hmade hw hi ha
    -- the lock was taken: then the call was guarded already; or it is now in hand
    rcases htry with hbusy | hfin
    · refine Or.inr (hstep ⟨hrec, fun hx' => ?_⟩)
      rcases hfree hx' with h₀ | hG
      · rw [hbusy] at h₀
        cases h₀
      · exact hG
    · exact Or.inr ⟨unrecorded_step hreach h hl hx hrec,
        fun _ => Or.inl ⟨pc', mem_set_self hl pc', hfin⟩⟩

theorem HeardInv.env {sh sh' : Shared} {ts new : List Pc} {a : Action}
    {ok : Conf Shared Pc → Move Action Int → Prop} (hreach : ReachableBy cfg ok ⟨sh, ts⟩)
    (h : EnvStep sh ts.length a sh' new) (hH : HeardInv sh ts) : HeardInv sh' (ts ++ new) := by
  have hkeep : ∀ {j x c pc}, j ∈ startedAfter x c sh.log → (ts ++ new)[j]? = some pc →
      tokens Obs.answers x sh'.log = tokens Obs.answers x sh.log → pc.beforeLock c = true ∨
        (sh'.wants x = true → tokens Obs.answers x sh'.log = 0 → Safe sh' (ts ++ new) x c) := by
    intro j x c pc hj hpc hans
    obtain ⟨hx, dw, hdw⟩ := delivered_of_startedAfter _ hj
    rw [List.getElem?_append_left (hH.started j c dw hdw)] at hpc
    rw [hans, env_wants h (made_of_dialled (reachable_dialInv hreach) hx)]
    exact (hH.heard j x c pc hj hpc).imp id fun hS hw ha => (hS hw ha).env h
  have hdone : ∀ j t₁, .returned j t₁ ∈ sh.log → (ts ++ new)[j]? = some .done := by
    intro j t₁ hj
    have hd := hH.returned j t₁ hj
    rwa [List.getElem?_append_left (List.getElem?_eq_some_iff.mp hd).1]
  rcases env_log h with ⟨hl, _⟩ | ⟨d, dw, hl, rfl⟩
  · refine ⟨fun j c dw hj => ?_, fun j t₁ hj => ?_, fun j x c pc hj hpc => ?_⟩ <;> rw [hl] at hj
    · have := hH.started j c dw hj
      rw [List.length_append]
      omega
    · exact hdone j t₁ hj
    · exact hkeep hj hpc (by rw [hl])
  · refine ⟨fun j c dw' hj => ?_, fun j t₁ hj => ?_, fun j x c pc hj hpc => ?_⟩ <;> rw [hl] at hj
    · rw [List.length_append, List.length_singleton]
      rcases List.mem_cons.mp hj with he | hj
      · cases he
        omega
      · have := hH.started j c dw' hj
        omega
    · exact hdone j t₁ ((List.mem_cons.mp hj).resolve_left nofun)
    · rcases startedAfter_of_cons hj with hj | ⟨dw', he, hs⟩
      · refine hkeep hj hpc ?_
        rw [hl, tokens_cons]
        exact Nat.zero_add _
      · -- the new callback has not tried the lock
        cases he
        rw [List.getElem?_append_right (Nat.le_refl _), Nat.sub_self] at hpc
        cases hpc
        exact Or.inl (by simp only [Pc.beforeLock, beq_self_eq_true, hs, Bool.and_self])

theorem HeardInv.exec {sh sh' : Shared} {ts : List Pc} {i : Nat} {r : Int} {pc pc' : Pc}
    {ok : Conf Shared Pc → Move Action Int → Prop} (hreach : ReachableBy cfg ok ⟨sh, ts⟩)
    (hok : heeds ⟨sh, ts⟩ (.run i r) = true) (hl : ts[i]? = some pc)
    (h : ThreadStep cfg sh i pc sh' pc') (hH : HeardInv sh ts) :
    HeardInv sh' (ts.set i pc') := by
  have hlt := (List.getElem?_eq_some_iff.mp hl).1
  refine ⟨fun j c dw hj => ?_, fun j t₁ hj => ?_, fun j x c qc hj hqc => ?_⟩
  · rw [List.length_set]
    refine hH.started j c dw ?_
    rcases thread_log h with hlog | ⟨o, hlog, hn⟩ <;> rw [hlog] at hj
    · exact hj
    · refine (List.mem_cons.mp hj).resolve_left ?_
      rintro rfl
      cases hn
  · have hold : .returned j t₁ ∈ sh.log → (ts.set i pc')[j]? = some .done := by
      intro hj
      have hd := hH.returned j t₁ hj
      by_cases hij : i = j
      · subst hij
        rw [hl] at hd
        cases hd
        cases h
      · rwa [List.getElem?_set_ne hij]
    rcases thread_log h with hlog | ⟨o, hlog, hn⟩ <;> rw [hlog] at hj
    · exact hold hj
    · rcases List.mem_cons.mp hj with rfl | hj
      · cases hn
        cases h
        exact List.getElem?_set_self hlt
      · exact hold hj
  · rw [thread_startedAfter h] at hj
    have hx := (delivered_of_startedAfter _ hj).1
    have hanswered : tokens Obs.answers x sh.log ≤ tokens Obs.answers x sh'.log := by
      rcases thread_log h with hlog | ⟨o, hlog, _⟩ <;> rw [hlog]
      rw [tokens_cons]
      omega
    have hS : (sh.wants x = true → tokens Obs.answers x sh.log = 0 → Safe sh ts x c) →
        sh'.wants x = true → tokens Obs.answers x sh'.log = 0 → Safe sh' (ts.set i pc') x c := by
      intro hS hw ha
      rw [thread_wants h] at hw
      refine (hS hw (by omega)).step hreach h hl hx hw fun k status hpc hne hon => ?_
      subst hpc
      exact notOvertaken_of_heeds hok hl hne x (made_of_dialled (reachable_dialInv hreach) hx) hon hw
        (List.ne_nil_of_mem hj)
    by_cases hij : i = j
    · -- the callback itself steps: towards its `try_lock`, through it, or past it
      subst hij
      rw [List.getElem?_set_self hlt] at hqc
      cases hqc
      rcases hH.heard i x c pc hj hl with hb | hsafe
      · by_cases hw : sh.wants x = true
        · by_cases ha : tokens Obs.answers x sh.log = 0
          · exact (heard_self hreach hok hl h hj hb hw ha).imp id fun hsafe _ _ => hsafe
          · exact Or.inr fun _ ha' => absurd ha' (by omega)
        · exact Or.inr fun hw' => absurd ((thread_wants h x) ▸ hw') hw
      · exact Or.inr (hS hsafe)
    · rw [List.getElem?_set_ne hij] at hqc
      exact (hH.heard j x c qc hj hqc).imp id hS

theorem reachable_heardInv (h : ReachableBy cfg (fun s m => heeds s m = true) s) :
    HeardInv s.shared s.threads := by
  obtain ⟨echo, h⟩ := h
  refine Program.Reach.rule ?_ ?_ ?_ h
  · exact ⟨nofun, nofun, nofun⟩
  · intro sh ts a sh' new hreach hH _ henv
    exact hH.env ⟨echo, hreach⟩ (env_step henv).2
  · intro sh ts i l r sh' l' hreach hH hok hl hex
    exact hH.exec ⟨echo, hreach⟩ hok hl (exec_step hex).2

/-- One more observation: only a failure for a call that was rung for has to be
looked at. -/
theorem NoLostSuccess.cons {sh sh' : Shared} {o : Obs} (h : NoLostSuccess cfg sh)
    (hl : sh'.log = o :: sh.log)
    (hw : ∀ x c, .dialled x c ∈ sh.log → sh'.wants x = sh.wants x)
    (ho : ∀ x r c i t₁, o = .response (some x) r → r.status = ciaCallFail → sh.wants x = true →
      i ∈ startedAfter x c sh.log → .returned i t₁ ∈ sh.log → False) : NoLostSuccess cfg sh' := by
  intro a b₁ b₂ x r c i t₁ hlog hwx hi ha hage hfail
  rw [hl] at hlog
  have hi' : i ∈ startedAfter x c (b₁ ++ .returned i t₁ :: b₂) :=
    startedAfter_append (startedAfter_cons hi) b₁
  cases a with
  | nil =>
    simp only [List.nil_append, List.cons.injEq] at hlog
    obtain ⟨ho', hlog⟩ := hlog
    rw [← hlog] at hi'
    refine ho x r c i t₁ ho' hfail ?_ hi' (by rw [hlog]; simp)
    rw [← hw x c (delivered_of_startedAfter _ hi').1]
    exact hwx
  | cons o' a =>
    simp only [List.cons_append, List.cons.injEq] at hlog
    have hx : .dialled x c ∈ sh.log := by
      rw [hlog.2]
      exact List.mem_append_right _ (List.mem_cons_of_mem _ (delivered_of_startedAfter _ hi').1)
    refine h a b₁ b₂ x r c i t₁ hlog.2 (hw x c hx ▸ hwx) hi ha (fun t₀ ht₀ => hage t₀ ?_) hfail
    rw [hl]
    exact List.mem_cons_of_mem _ ht₀

theorem NoLostSuccess.congr {sh sh' : Shared} (h : NoLostSuccess cfg sh) (hl : sh'.log = sh.log)
    (hw : ∀ x c, .dialled x c ∈ sh.log → sh'.wants x = sh.wants x) : NoLostSuccess cfg sh' := by
  intro a b₁ b₂ x r c i t₁ hlog hwx hi ha hage
  rw [hl] at hlog hage
  have hx : .dialled x c ∈ sh.log := by
    rw [hlog]
    refine List.mem_append_right _ (List.mem_cons_of_mem _ (List.mem_append_right _ ?_))
    exact List.mem_cons_of_mem _ (delivered_of_startedAfter _ hi).1
  exact h a b₁ b₂ x r c i t₁ hlog (hw x c hx ▸ hwx) hi ha hage

/-- A call that was rung for is not failed by `cti_hangUp`. -/
theorem not_failed {sh : Shared} {ts : List Pc} (hreach : ReachableBy cfg
      (fun s m => heeds s m = true) ⟨sh, ts⟩) {k : Caller} {d c x i t₁ : Nat} {retVal : Int}
    (hpc : .hangUp k d ciaCallFail (.answer retVal) ∈ ts) (hon : sh.callOn d = some x)
    (hw : sh.wants x = true) (hi : i ∈ startedAfter x c sh.log)
    (hret : .returned i t₁ ∈ sh.log) : False := by
  have hH : HeardInv sh ts := reachable_heardInv hreach
  obtain rfl : d = c := dial_unique (reachable_dialInv hreach)
    ((reachable_holderInv hreach).recorded d x hon) (delivered_of_startedAfter _ hi).1
  -- a recorded request is not answered yet: it is in one place only
  have hunanswered : tokens Obs.answers x sh.log = 0 := by
    obtain ⟨t, _, _, _, hlt⟩ := trunk_of_callOn hreach hon
    have h₁ : 1 ≤ tokens id x sh.calls :=
      one_le_tokens (List.mem_of_getElem? (calls_get hlt)) hon
    have h₂ := reachable_requestInv hreach x
    unfold Shared.placed Shared.made at h₂
    split at h₂ <;> simp only at h₂ <;> omega
  have hfailing : (Pc.hangUp k d ciaCallFail (.answer retVal)).failing = some d := rfl
  rcases hH.heard i x d .done hi (hH.returned i t₁ hret) with hb | hS
  · cases hb
  · rcases (hS hw hunanswered).guarded hon with ⟨qc, hqc, hfin⟩ | ⟨_, hnone⟩
    · -- the finishing thread and the failing one both hold the lock
      obtain ⟨j, hj⟩ := List.mem_iff_getElem?.mp hqc
      obtain ⟨l, hl⟩ := List.mem_iff_getElem?.mp hpc
      obtain rfl := mutex_unique (reachable_lockInv hreach) hj (mutex_of_finishing hfin) hl
        (mutex_of_failing hfailing)
      obtain rfl := Option.some.inj (hj.symm.trans hl)
      exact failing_of_finishing hfin hfailing
    · exact hnone _ hpc hfailing

/-- **No lost success**, in every run in which the `try_lock` of each success
callback is heeded and no failure overtakes a delayed hang-up. -/
theorem noLostSuccess_of_heeds (h : ReachableBy cfg (fun s m => heeds s m = true) s) :
    NoLostSuccess cfg s.shared := by
  obtain ⟨echo, h⟩ := h
  refine Program.Reach.rule (I := fun sh _ => NoLostSuccess cfg sh) ?_ ?_ ?_ h
  · intro a b₁ b₂ x r c i t₁ hl
    cases a <;> cases hl
  · intro sh ts a sh' new hreach hN _ henv
    have hw : ∀ x c, .dialled x c ∈ sh.log → sh'.wants x = sh.wants x := fun x c hx =>
      env_wants (env_step henv).2 (made_of_dialled (reachable_dialInv ⟨echo, hreach⟩) hx)
    rcases env_log (env_step henv).2 with ⟨hl, _⟩ | ⟨c, dw, hl, _⟩
    · exact hN.congr hl hw
    · exact hN.cons hl hw fun _ _ _ _ _ he => nomatch he
  · intro sh ts i l r sh' l' hreach hN _ hl hex
    have hstep := (exec_step hex).2
    have hw : ∀ x c, .dialled x c ∈ sh.log → sh'.wants x = sh.wants x :=
      fun x _ _ => thread_wants hstep x
    have hmem := List.mem_of_getElem? hl
    rcases thread_log hstep with hlog | ⟨o, hlog, hn⟩
    · exact hN.congr hlog hw
    · refine hN.cons hlog hw fun x q c j t₁ ho hfail hwx hj hret => ?_
      cases hn with
      | @answered k d status retVal client transId _ =>
        simp only [Obs.response.injEq] at ho
        obtain ⟨hon, rfl⟩ := ho
        obtain rfl : status = ciaCallFail := hfail
        exact not_failed ⟨echo, hreach⟩ hmem hon hwx hj hret
      | failed =>
        -- a call whose dials failed was never dialled
        cases ho
        exact preDial_of_dialled (reachable_dialInv ⟨echo, hreach⟩)
          (delivered_of_startedAfter _ hj).1 hmem rfl
      | timeout =>
        cases ho
        exact absurd hfail (show ciaCallTimeout ≠ ciaCallFail by decide)
      | _ => cases ho

/-- A ring that is put off, and the delayed hang-up that reports it. -/
theorem noLostSuccess_ring :
    NoLostSuccess oneChannel (after oneChannel heeds (fun _ => true)
      [.env (.call 7 [1] [] [] true), .run 2 0, .run 2 0, .run 2 0, .run 2 0, .run 2 0,
       .env (.event .procAutoDial 0 .echotone), .run 3 0, .run 3 0, .run 3 0, .run 3 0, .run 3 0,
       .run 3 0, .run 1 0, .run 1 0, .run 1 0, .env (.tick 5000), .run 1 0, .run 1 0,
       .run 1 0, .run 1 0, .run 1 0, .run 1 0]).shared :=
  noLostSuccess_of_heeds (reachable_after (by decide))

/-! ## The run with the early ring -/

/-- The card reports a busy tone between `SsmAutoDial` and the filling of the
trunk. The callback finds the trunk idle; 15 seconds later the timeout scan
reports a failure. -/
def earlyBusytoneMoves : List (Move Action Int) :=
  [.env (.call 7 [1] [] [] true), .run 2 0, .run 2 0,
   .env (.event .procAutoDial 0 .busytone), .run 3 0, .run 3 0, .run 3 0, .run 3 0, .run 3 0,
   .run 2 0, .run 2 0, .run 2 0, .env (.tick 15000), .run 0 0, .run 0 0, .run 0 0, .run 0 0,
   .run 0 0, .run 0 0]

/-- **The code loses a success.** -/
theorem noLostSuccess_fails : ¬∀ cfg s, Reachable cfg s → NoLostSuccess cfg s.shared := by
  intro h
  have hall := h oneChannel (after oneChannel anyMove (fun _ => true) earlyBusytoneMoves)
    (reachable_after (by decide)).reachable
  have hlog : (after oneChannel anyMove (fun _ => true) earlyBusytoneMoves).shared.log
      = [.response (some 0) { client := 7, transId := [1], status := ciaCallFail },
         .recorded 0 0 0, .returned 3 0, .delivered 3 0 .busytone, .dialled 0 0] := by
    decide
  refine hall [] [.recorded 0 0 0] [.delivered 3 0 .busytone, .dialled 0 0] 0
    { client := 7, transId := [1], status := ciaCallFail } 0 3 0 hlog (by decide) (by decide)
    (by decide) (fun t₀ ht₀ => ?_) rfl
  rw [hlog] at ht₀
  simp at ht₀
  subst ht₀
  decide

end CiaServer.Cti
