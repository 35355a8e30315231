import CiaServer.Cti.Steps

/-!
# Mutual exclusion, and indices in range

Two facts every other invariant leans on:

* `RangeInv`: the trunk vector keeps its `N` entries, and every channel number
  in a queue or in the hands of a thread is below `N`. So no `at` throws
  after the first one of a function, and none at all outside a callback.
* `LockInv`: `m_trunk_mutex` of trunk `c` is held exactly when one thread
  stands between its lock and its unlock, and never by two. `Pc.mutex` says
  which trunk a thread has locked; the count of such threads *is* the flag.
-/

namespace CiaServer.Cti

open Interleave

/-- The trunk whose mutex a thread holds. -/
def Pc.mutex : Pc → Option Nat
  | .callout _ (.fill c) => some c
  | .callout _ (.unlock c) => some c
  | .hangUp _ _ _ .lock => none
  | .hangUp _ c _ _ => some c
  | .autoDial c .setSleep => some c
  | .autoDial c (.put true) => some c
  | .autoDial c .unlock => some c
  | .timeoutCheck (.setFlag i) => some i
  | .timeoutCheck (.unlock i) => some i
  | .strategy (.sleep c) => some c
  | .strategy (.wake c _) => some c
  | .strategy (.unlock c) => some c
  | _ => none

/-- The trunk a thread works on, once it has looked it up (or taken its number
from a queue). -/
def Pc.target : Pc → Option Nat
  | .callout _ (.dial c) => some c
  | .callout _ (.lock c) => some c
  | .callout _ (.fill c) => some c
  | .callout _ (.unlock c) => some c
  | .callout _ (.put c) => some c
  | .hangUp _ c _ _ => some c
  | .autoDial _ (.enter _) => none
  | .autoDial c _ => some c
  | .timeoutCheck (.lock i) => some i
  | .timeoutCheck (.setFlag i) => some i
  | .timeoutCheck (.unlock i) => some i
  | .strategy (.lock c) => some c
  | .strategy (.sleep c) => some c
  | .strategy (.wake c _) => some c
  | .strategy (.unlock c) => some c
  | _ => none

/-! ## One bit of a trunk -/

/-- A yes/no property of trunk `c`, as a number. -/
def Shared.bit (sh : Shared) (g : Trunk → Bool) (c : Nat) : Nat :=
  match sh.trunkVector[c]? with
  | some t => (g t).toNat
  | none => 0

/-- `1` while trunk `c` is locked. -/
def Shared.lockBit (sh : Shared) (c : Nat) : Nat := sh.bit (·.trunkMutex) c

/-- `1` while trunk `c` has a client. -/
def Shared.busy (sh : Shared) (c : Nat) : Nat := sh.bit (·.clientSocket.isSome) c

theorem getElem?_modifyTrunk (sh : Shared) (d c : Nat) (f : Trunk → Trunk) :
    (sh.modifyTrunk d f).trunkVector[c]?
      = if d = c then sh.trunkVector[c]?.map f else sh.trunkVector[c]? := by
  rw [Shared.modifyTrunk_trunkVector, List.getElem?_modify]
  by_cases h : d = c
  · simp only [if_pos h]; rfl
  · simp only [if_neg h]
    cases sh.trunkVector[c]? <;> rfl

theorem bit_of_trunk {sh : Shared} {g : Trunk → Bool} {c : Nat} {t : Trunk}
    (ht : sh.trunkVector[c]? = some t) : sh.bit g c = (g t).toNat := by
  simp only [Shared.bit, ht]

theorem bit_congr {sh sh' : Shared} (h : sh'.trunkVector = sh.trunkVector) (g : Trunk → Bool)
    (c : Nat) : sh'.bit g c = sh.bit g c := by
  simp only [Shared.bit, h]

theorem bit_modify_ne {d c : Nat} (h : d ≠ c) (sh : Shared) (f : Trunk → Trunk)
    (g : Trunk → Bool) : (sh.modifyTrunk d f).bit g c = sh.bit g c := by
  simp only [Shared.bit, getElem?_modifyTrunk, if_neg h]

theorem bit_modify_self {sh : Shared} {c : Nat} {t : Trunk} (ht : sh.trunkVector[c]? = some t)
    (f : Trunk → Trunk) (g : Trunk → Bool) :
    (sh.modifyTrunk c f).bit g c = (g (f t)).toNat := by
  simp only [Shared.bit, getElem?_modifyTrunk, if_pos, ht, Option.map_some]

/-- A write that does not touch the bit leaves it as it was. -/
theorem bit_of_modify {sh sh' : Shared} {d : Nat} {f : Trunk → Trunk} {g : Trunk → Bool}
    (h : sh'.trunkVector = sh.trunkVector.modify d f) (hf : ∀ t, g (f t) = g t) (c : Nat) :
    sh'.bit g c = sh.bit g c := by
  rw [show sh'.bit g c = (sh.modifyTrunk d f).bit g c from bit_congr h g c]
  simp only [Shared.bit, getElem?_modifyTrunk]
  by_cases hd : d = c
  · rw [if_pos hd]
    cases sh.trunkVector[c]? with
    | none => rfl
    | some t => simp only [Option.map_some, hf]
  · rw [if_neg hd]

theorem bit_le_one (sh : Shared) (g : Trunk → Bool) (c : Nat) : sh.bit g c ≤ 1 := by
  unfold Shared.bit
  split
  · exact Bool.toNat_le _
  · omega

/-- Locking a free trunk sets its bit and no other. -/
theorem lockBit_lock {sh : Shared} {d : Nat} {t : Trunk} (ht : sh.trunkVector[d]? = some t)
    (hm : t.trunkMutex = false) (c : Nat) :
    (sh.modifyTrunk d (.setMutex true)).lockBit c
      = sh.lockBit c + (if some d = some c then 1 else 0) := by
  unfold Shared.lockBit
  by_cases hd : d = c
  · subst hd
    rw [bit_modify_self ht, bit_of_trunk ht, hm, if_pos rfl]
    rfl
  · rw [bit_modify_ne hd, if_neg (by simpa using hd)]
    rfl

/-- Unlocking a locked trunk clears its bit and no other. -/
theorem lockBit_unlock {sh : Shared} {d : Nat} (h : sh.lockBit d = 1) (c : Nat) :
    (sh.modifyTrunk d (.setMutex false)).lockBit c + (if some d = some c then 1 else 0)
      = sh.lockBit c := by
  unfold Shared.lockBit at h ⊢
  by_cases hd : d = c
  · subst hd
    cases ht : sh.trunkVector[d]? with
    | none => simp [Shared.bit, ht] at h
    | some t =>
      rw [bit_modify_self ht, h, if_pos rfl]
      rfl
  · rw [bit_modify_ne hd, if_neg (by simpa using hd)]
    rfl

/-! ## The lock law -/

/-- The threads that hold the mutex of trunk `c`, counted, are its flag. -/
def LockInv (sh : Shared) (ts : List Pc) : Prop :=
  ∀ c, tokens Pc.mutex c ts = sh.lockBit c

/-- A step of `cti_callout` moves the lock token between flag and thread. -/
theorem callout_lock {sh sh' : Shared} {x : Nat} {p : CalloutPc} {pc' : Pc}
    (h : CalloutStep sh x p sh' pc')
    (hheld : ∀ c, (Pc.callout x p).mutex = some c → sh.lockBit c = 1) (c : Nat) :
    sh'.lockBit c + tok Pc.mutex c (.callout x p) = sh.lockBit c + tok Pc.mutex c pc' := by
  cases h with
  | locked ht hm => rw [lockBit_lock ht hm]; rfl
  | unlocked => exact lockBit_unlock (hheld _ rfl) c
  | filled => exact congrArg (· + _) (bit_of_modify rfl (by intro t; rfl) c)
  | _ => rfl

/-- A step of `cti_hangUp` moves the lock token between flag and thread. -/
theorem hangUp_lock {sh sh' : Shared} {k : Caller} {d : Nat} {status : Bytes} {p : HangUpPc}
    {pc' : Pc} (h : HangUpStep sh k d status p sh' pc')
    (hheld : ∀ c, (Pc.hangUp k d status p).mutex = some c → sh.lockBit c = 1) (c : Nat) :
    sh'.lockBit c + tok Pc.mutex c (.hangUp k d status p)
      = sh.lockBit c + tok Pc.mutex c pc' := by
  cases h with
  | noTrunk => cases k <;> rfl
  | lockBusy => cases k <;> rfl
  | locked ht hm => rw [lockBit_lock ht hm]; rfl
  -- `realseTrunk` rewrites the whole trunk but the mutex
  | answered => exact congrArg (· + _) (bit_of_modify rfl (by intro t; rfl) c)
  | unlocked =>
    -- wherever the caller goes on, it holds no lock there
    rw [show tok Pc.mutex c k.resume = 0 by cases k <;> rfl]
    exact lockBit_unlock (hheld _ rfl) c
  | _ => rfl

theorem autoDial_lock {cfg : Config} {sh sh' : Shared} {d : Nat} {p : AutoDialPc} {pc' : Pc}
    (h : AutoDialStep cfg sh d p sh' pc')
    (hheld : ∀ c, (Pc.autoDial d p).mutex = some c → sh.lockBit c = 1) (c : Nat) :
    sh'.lockBit c + tok Pc.mutex c (.autoDial d p) = sh.lockBit c + tok Pc.mutex c pc' := by
  cases h with
  | entered =>
    next dw t ht =>
    -- no branch of the `switch` starts with the lock held
    rcases dealAutoDial_cases cfg (t.elapsed sh.now) d dw with he | he | ⟨status, he⟩ <;>
      rw [he] <;> rfl
  | locked ht hm => rw [lockBit_lock ht hm]; rfl
  | slept => exact congrArg (· + _) (bit_of_modify rfl (by intro t; rfl) c)
  | unlocked => exact lockBit_unlock (hheld _ rfl) c
  | _ => rfl

theorem timeoutCheck_lock {cfg : Config} {sh sh' : Shared} {p : TimeoutPc} {pc' : Pc}
    (h : TimeoutStep cfg sh p sh' pc')
    (hheld : ∀ c, (Pc.timeoutCheck p).mutex = some c → sh.lockBit c = 1) (c : Nat) :
    sh'.lockBit c + tok Pc.mutex c (.timeoutCheck p) = sh.lockBit c + tok Pc.mutex c pc' := by
  cases h with
  | locked ht hm => rw [lockBit_lock ht hm]; rfl
  | flagged => exact congrArg (· + _) (bit_of_modify rfl (by intro t; rfl) c)
  | unlocked => exact lockBit_unlock (hheld _ rfl) c
  | _ => rfl

theorem strategy_lock {cfg : Config} {sh sh' : Shared} {p : StrategyPc} {pc' : Pc}
    (h : StrategyStep cfg sh p sh' pc')
    (hheld : ∀ c, (Pc.strategy p).mutex = some c → sh.lockBit c = 1) (c : Nat) :
    sh'.lockBit c + tok Pc.mutex c (.strategy p) = sh.lockBit c + tok Pc.mutex c pc' := by
  cases h with
  | locked ht hm => rw [lockBit_lock ht hm]; rfl
  | hungup => exact congrArg (· + _) (bit_of_modify rfl (by intro t; rfl) c)
  | unlocked => exact lockBit_unlock (hheld _ rfl) c
  | _ => rfl

theorem thread_lock {cfg : Config} {sh sh' : Shared} {i : Nat} {pc pc' : Pc}
    (h : ThreadStep cfg sh i pc sh' pc') (hheld : ∀ c, pc.mutex = some c → sh.lockBit c = 1)
    (c : Nat) : sh'.lockBit c + tok Pc.mutex c pc = sh.lockBit c + tok Pc.mutex c pc' := by
  cases h with
  | callout h => exact callout_lock h hheld c
  | hangUp h => exact hangUp_lock h hheld c
  | autoDial h => exact autoDial_lock h hheld c
  | timeoutCheck h => exact timeoutCheck_lock h hheld c
  | strategy h => exact strategy_lock h hheld c
  | ret => rfl

/-- A thread that stands inside its locked section has the flag set. -/
theorem lockBit_of_mutex {sh : Shared} {ts : List Pc} (hL : LockInv sh ts) {pc : Pc}
    (hpc : pc ∈ ts) {c : Nat} (h : pc.mutex = some c) : sh.lockBit c = 1 := by
  have h₁ := one_le_tokens hpc h
  have h₂ := bit_le_one sh (·.trunkMutex) c
  rw [hL c] at h₁
  exact Nat.le_antisymm h₂ h₁

/-- Two threads never hold the mutex of one trunk. -/
theorem mutex_unique {sh : Shared} {ts : List Pc} (hL : LockInv sh ts) {i j : Nat} {l m : Pc}
    {c : Nat} (hi : ts[i]? = some l) (hl : l.mutex = some c) (hj : ts[j]? = some m)
    (hm : m.mutex = some c) : i = j :=
  holder_unique (by rw [hL c]; exact bit_le_one sh _ c) hi hl hj hm

theorem env_lock {sh sh' : Shared} {i : Nat} {a : Action} {new : List Pc}
    (h : EnvStep sh i a sh' new) (c : Nat) :
    sh'.lockBit c = sh.lockBit c ∧ tokens Pc.mutex c new = 0 := by
  cases h <;> exact ⟨rfl, rfl⟩

/-- **Mutual exclusion** in every reachable state. -/
theorem reachable_lockInv {cfg : Config} {ok : Conf Shared Pc → Move Action Int → Prop}
    {s : Conf Shared Pc} (h : ReachableBy cfg ok s) : LockInv s.shared s.threads := by
  obtain ⟨echo, h⟩ := h
  refine Program.Reach.rule ?_ ?_ ?_ h
  -- at the start no trunk is locked and no thread is inside
  · intro c
    rw [tokens_initial_threads rfl rfl]
    show 0 = Shared.bit _ _ c
    unfold Shared.bit
    split
    · next t ht =>
      obtain ⟨i, rfl⟩ := initial_trunk ht
      rfl
    · rfl
  · intro sh ts a sh' new _ hL _ henv c
    obtain ⟨hb, hn⟩ := env_lock (env_step henv).2 c
    rw [tokens_append, hn, hb, hL c]
    rfl
  -- the thread's own token, before and after, makes the difference
  · intro sh ts i l r sh' l' _ hL _ hl hex c
    have h₁ := tokens_set Pc.mutex c hl l'
    have h₂ := thread_lock (exec_step hex).2
      (fun _ => lockBit_of_mutex hL (List.mem_of_getElem? hl)) c
    have h₃ := hL c
    omega

/-! ## Indices in range -/

/-- The sizes of the vectors and the bound on queued channel numbers. -/
structure QueueRange (cfg : Config) (sh : Shared) : Prop where
  trunks : sh.trunkVector.length = cfg.numChannelCount
  calls : sh.calls.length = cfg.numChannelCount
  free : ∀ c ∈ sh.channelQueue, c < cfg.numChannelCount
  sleeping : ∀ c ∈ sh.sleepChannelQueue, c < cfg.numChannelCount

/-- A thread works on a channel of the card. -/
def InRange (cfg : Config) (pc : Pc) : Prop := ∀ c, pc.target = some c → c < cfg.numChannelCount

/-- Sizes, queued numbers and the threads' channels are all within the card. -/
structure RangeInv (cfg : Config) (sh : Shared) (ts : List Pc) : Prop where
  queues : QueueRange cfg sh
  threads : ∀ pc ∈ ts, InRange cfg pc

theorem inRange_none {cfg : Config} {pc : Pc} (h : pc.target = none) : InRange cfg pc := by
  intro c hc
  rw [h] at hc
  cases hc

theorem inRange_some {cfg : Config} {pc : Pc} {c : Nat} (h : pc.target = some c)
    (hc : c < cfg.numChannelCount) : InRange cfg pc := by
  intro d hd
  rw [h] at hd
  cases hd
  exact hc

theorem QueueRange.lt_of_trunk {cfg : Config} {sh : Shared} (hR : QueueRange cfg sh) {c : Nat}
    {t : Trunk} (ht : sh.trunkVector[c]? = some t) : c < cfg.numChannelCount := by
  obtain ⟨hlt, _⟩ := List.getElem?_eq_some_iff.mp ht
  rwa [hR.trunks] at hlt

theorem QueueRange.exists_trunk {cfg : Config} {sh : Shared} (hR : QueueRange cfg sh) {c : Nat}
    (hc : c < cfg.numChannelCount) : ∃ t, sh.trunkVector[c]? = some t :=
  ⟨_, List.getElem?_eq_getElem (by rw [hR.trunks]; exact hc)⟩

theorem QueueRange.modifyTrunk {cfg : Config} {sh : Shared} (hR : QueueRange cfg sh) (c : Nat)
    (f : Trunk → Trunk) : QueueRange cfg (sh.modifyTrunk c f) :=
  ⟨(List.length_modify f sh.trunkVector c).trans hR.trunks, hR.calls, hR.free, hR.sleeping⟩

/-- Putting a channel of the card at the end of a queue keeps the bound. -/
theorem lt_of_mem_put {n c : Nat} {q : List Nat} (hq : ∀ d ∈ q, d < n) (hc : c < n) :
    ∀ d ∈ q ++ [c], d < n := by
  intro d hd
  rcases List.mem_append.mp hd with h | h
  · exact hq d h
  · rw [List.mem_singleton.mp h]
    exact hc

theorem callout_range {cfg : Config} {sh sh' : Shared} {x : Nat} {p : CalloutPc} {pc' : Pc}
    (h : CalloutStep sh x p sh' pc') (hR : QueueRange cfg sh) (hpc : InRange cfg (.callout x p)) :
    QueueRange cfg sh' ∧ InRange cfg pc' := by
  cases h with
  | took hq =>
    have hmem : ∀ d, d ∈ _ → d ∈ sh.channelQueue := fun d hd => hq ▸ List.mem_cons_of_mem _ hd
    exact ⟨⟨hR.trunks, hR.calls, fun d hd => hR.free d (hmem d hd), hR.sleeping⟩,
      inRange_some rfl (hR.free _ (hq ▸ List.mem_cons_self ..))⟩
  | dialled => exact ⟨⟨hR.trunks, hR.calls, hR.free, hR.sleeping⟩, hpc⟩
  | notDialled => exact ⟨hR, hpc⟩
  | locked => exact ⟨hR.modifyTrunk _ _, hpc⟩
  | @filled c q _ =>
    have hR' : QueueRange cfg { sh with calls := sh.calls.set c (some x) } :=
      ⟨hR.trunks, List.length_set.trans hR.calls, hR.free, hR.sleeping⟩
    have hR'' := hR'.modifyTrunk c (.fill q sh.now)
    exact ⟨⟨hR''.trunks, hR''.calls, hR''.free, hR''.sleeping⟩, hpc⟩
  | unlocked => exact ⟨hR.modifyTrunk _ _, inRange_none rfl⟩
  | putBack =>
    exact ⟨⟨hR.trunks, hR.calls, lt_of_mem_put hR.free (hpc _ rfl), hR.sleeping⟩, inRange_none rfl⟩
  | _ => exact ⟨⟨hR.trunks, hR.calls, hR.free, hR.sleeping⟩, inRange_none rfl⟩

theorem inRange_resume (cfg : Config) (k : Caller) : InRange cfg k.resume := by
  cases k <;> exact inRange_none rfl

theorem hangUp_range {cfg : Config} {sh sh' : Shared} {k : Caller} {c : Nat} {status : Bytes}
    {p : HangUpPc} {pc' : Pc} (h : HangUpStep sh k c status p sh' pc') (hR : QueueRange cfg sh)
    (hpc : InRange cfg (.hangUp k c status p)) : QueueRange cfg sh' ∧ InRange cfg pc' := by
  cases h with
  | noTrunk => cases k <;> exact ⟨⟨hR.trunks, hR.calls, hR.free, hR.sleeping⟩, inRange_none rfl⟩
  | lockBusy => exact ⟨hR, inRange_resume cfg k⟩
  | locked => exact ⟨hR.modifyTrunk _ _, hpc⟩
  | nullClient => exact ⟨⟨hR.trunks, hR.calls, hR.free, hR.sleeping⟩, hpc⟩
  | answered =>
    have hR' : QueueRange cfg { sh with calls := sh.calls.set c none } :=
      ⟨hR.trunks, List.length_set.trans hR.calls, hR.free, hR.sleeping⟩
    have hR'' := hR'.modifyTrunk c (.realseTrunk sh.now)
    exact ⟨⟨hR''.trunks, hR''.calls, hR''.free, hR''.sleeping⟩, hpc⟩
  | putBack =>
    exact ⟨⟨hR.trunks, hR.calls, lt_of_mem_put hR.free (hpc _ rfl), hR.sleeping⟩, hpc⟩
  | unlocked => exact ⟨hR.modifyTrunk _ _, inRange_resume cfg k⟩
  | _ => exact ⟨hR, hpc⟩

theorem inRange_dealAutoDial {cfg : Config} {c : Nat} (hc : c < cfg.numChannelCount)
    (elapsed : Nat) (dw : DialResult) : InRange cfg (dealAutoDial cfg elapsed c dw) := by
  rcases dealAutoDial_cases cfg elapsed c dw with he | he | ⟨status, he⟩ <;> rw [he]
  · exact inRange_none rfl
  · exact inRange_some rfl hc
  · exact inRange_some rfl hc

theorem autoDial_range {cfg : Config} {sh sh' : Shared} {c : Nat} {p : AutoDialPc} {pc' : Pc}
    (h : AutoDialStep cfg sh c p sh' pc') (hR : QueueRange cfg sh)
    (hpc : InRange cfg (.autoDial c p)) : QueueRange cfg sh' ∧ InRange cfg pc' := by
  cases h with
  | noTrunk => exact ⟨hR, inRange_none rfl⟩
  | entered ht => exact ⟨hR, inRange_dealAutoDial (hR.lt_of_trunk ht) _ _⟩
  | lockBusy => exact ⟨hR, hpc⟩
  | locked => exact ⟨hR.modifyTrunk _ _, hpc⟩
  | slept => exact ⟨hR.modifyTrunk _ _, hpc⟩
  | queuedLocked =>
    exact ⟨⟨hR.trunks, hR.calls, hR.free, lt_of_mem_put hR.sleeping (hpc _ rfl)⟩, hpc⟩
  | queued =>
    exact ⟨⟨hR.trunks, hR.calls, hR.free, lt_of_mem_put hR.sleeping (hpc _ rfl)⟩, inRange_none rfl⟩
  | unlocked => exact ⟨hR.modifyTrunk _ _, inRange_none rfl⟩

theorem timeoutCheck_range {cfg : Config} {sh sh' : Shared} {p : TimeoutPc} {pc' : Pc}
    (h : TimeoutStep cfg sh p sh' pc') (hR : QueueRange cfg sh)
    (hpc : InRange cfg (.timeoutCheck p)) : QueueRange cfg sh' ∧ InRange cfg pc' := by
  cases h with
  | overdue ht => exact ⟨hR, inRange_some rfl (hR.lt_of_trunk ht)⟩
  | overdueFlag ht => exact ⟨hR, inRange_some rfl (hR.lt_of_trunk ht)⟩
  | locked => exact ⟨hR.modifyTrunk _ _, hpc⟩
  | flagged => exact ⟨hR.modifyTrunk _ _, hpc⟩
  | unlocked => exact ⟨hR.modifyTrunk _ _, hpc⟩
  | _ => exact ⟨hR, inRange_none rfl⟩

theorem strategy_range {cfg : Config} {sh sh' : Shared} {p : StrategyPc} {pc' : Pc}
    (h : StrategyStep cfg sh p sh' pc') (hR : QueueRange cfg sh)
    (hpc : InRange cfg (.strategy p)) : QueueRange cfg sh' ∧ InRange cfg pc' := by
  cases h with
  | took hq =>
    have hmem : ∀ d, d ∈ _ → d ∈ sh.sleepChannelQueue :=
      fun d hd => hq ▸ List.mem_cons_of_mem _ hd
    exact ⟨⟨hR.trunks, hR.calls, hR.free, fun d hd => hR.sleeping d (hmem d hd)⟩,
      inRange_some rfl (hR.sleeping _ (hq ▸ List.mem_cons_self ..))⟩
  | noTrunk => exact ⟨⟨hR.trunks, hR.calls, hR.free, hR.sleeping⟩, inRange_none rfl⟩
  | locked => exact ⟨hR.modifyTrunk _ _, hpc⟩
  | slept => exact ⟨hR, hpc⟩
  | hungup => exact ⟨hR.modifyTrunk _ _, hpc⟩
  | unlocked => exact ⟨hR.modifyTrunk _ _, hpc⟩
  | _ => exact ⟨hR, inRange_none rfl⟩

theorem thread_range {cfg : Config} {sh sh' : Shared} {i : Nat} {pc pc' : Pc}
    (h : ThreadStep cfg sh i pc sh' pc') (hR : QueueRange cfg sh) (hpc : InRange cfg pc) :
    QueueRange cfg sh' ∧ InRange cfg pc' := by
  cases h with
  | callout h => exact callout_range h hR hpc
  | hangUp h => exact hangUp_range h hR hpc
  | autoDial h => exact autoDial_range h hR hpc
  | timeoutCheck h => exact timeoutCheck_range h hR hpc
  | strategy h => exact strategy_range h hR hpc
  | ret => exact ⟨⟨hR.trunks, hR.calls, hR.free, hR.sleeping⟩, inRange_none rfl⟩

theorem env_range {cfg : Config} {sh sh' : Shared} {i : Nat} {a : Action} {new : List Pc}
    (h : EnvStep sh i a sh' new) (hR : QueueRange cfg sh) :
    QueueRange cfg sh' ∧ ∀ pc ∈ new, InRange cfg pc := by
  refine ⟨?_, ?_⟩
  · cases h <;> exact ⟨hR.trunks, hR.calls, hR.free, hR.sleeping⟩
  · intro pc hpc
    rcases env_new h hpc with ⟨x, rfl⟩ | ⟨c, dw, rfl⟩ | rfl <;> exact inRange_none rfl

/-- **Indices stay in range** in every reachable state. -/
theorem reachable_rangeInv {cfg : Config} {ok : Conf Shared Pc → Move Action Int → Prop}
    {s : Conf Shared Pc} (h : ReachableBy cfg ok s) : RangeInv cfg s.shared s.threads := by
  obtain ⟨echo, h⟩ := h
  refine Program.Reach.rule ?_ ?_ ?_ h
  · refine ⟨⟨?_, List.length_replicate, fun c hc => List.mem_range.mp hc, nofun⟩, ?_⟩
    · show ((List.range cfg.numChannelCount).map _).length = _
      rw [List.length_map, List.length_range]
    · intro pc hpc
      rcases mem_initial_threads hpc with rfl | rfl
      · exact inRange_none rfl
      · exact inRange_none rfl
  · intro sh ts a sh' new _ hR _ henv
    obtain ⟨hQ, hnew⟩ := env_range (env_step henv).2 hR.queues
    refine ⟨hQ, fun pc hpc => ?_⟩
    rcases List.mem_append.mp hpc with h | h
    · exact hR.threads pc h
    · exact hnew pc h
  · intro sh ts i l r sh' l' _ hR _ hl hex
    obtain ⟨hQ, hl'⟩ :=
      thread_range (exec_step hex).2 hR.queues (hR.threads l (List.mem_of_getElem? hl))
    refine ⟨hQ, fun pc hpc => ?_⟩
    rcases List.mem_or_eq_of_mem_set hpc with h | rfl
    · exact hR.threads pc h
    · exact hl'

end CiaServer.Cti
