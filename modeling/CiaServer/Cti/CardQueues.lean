import CiaServer.Interleave.Objects
import CiaServer.Cti.Steps
import CiaServer.Tools.ThreadSafeQueue

/-!
# The card over the code of its queues

The voice card takes a `put` or a `take` on `m_channel_queue` and
`m_sleep_channel_queue` to be one step. `voiceCardOnQueues` is the card with
`thread_safe_queue` itself in both places: a thread that calls one locks
`_mutex`, looks at `_container`, works on it and unlocks, while the driver, the
clock and the other threads go on, into the same queue too.

`voiceCard_onQueues`: all it comes to is what the card comes to. So whatever
holds of every reachable card holds here.

Mirroring notes:
- `deal_hungup_strategy` sleeps 100 ms after it has caught the exception of
  `take`, and that is later than the moment at which `take` saw the empty queue.
- `size` is called by the status timer of the server, not by a thread of the
  card, so the threads here make no call of it.
-/

namespace CiaServer.Cti

open Interleave
open Tools (ThreadSafeQueue.Pc ThreadSafeQueue.Shared)

/-! ## `thread_safe_queue` as an object -/

section
variable {T : Type}

/-- The code of a `thread_safe_queue`. -/
def queueCode (T : Type) :
    ObjectCode (ThreadSafeQueue.Shared T) (ThreadSafeQueue.Pc T) (List T) (QueueOp T)
      (QueueRes T) where
  begin := Tools.ThreadSafeQueue.begin
  exec s i l := Tools.ThreadSafeQueue.exec s i l ()
  call l := l.call
  value s := s.container
  locked s := s.mutex
  holds l := l.holds
  Knows q l := l.Knows q
  Sound s := s.undefined = false

theorem knows_of_aware {s : ThreadSafeQueue.Shared T} {l : ThreadSafeQueue.Pc T}
    (h : (queueCode T).Aware s l) : l.Knows s.container := by
  cases hh : l.holds with
  | true => exact h hh
  | false => exact Tools.ThreadSafeQueue.knows_of_free hh

/-- What a step of a call does to the container. -/
theorem exec_effect {s s' : ThreadSafeQueue.Shared T} {i : Nat} {l l' : ThreadSafeQueue.Pc T}
    (h : Tools.ThreadSafeQueue.exec s i l () = some (s', l')) (hk : l.Knows s.container) :
    EffectStep (fifo true) s.container l.call s'.container l'.call := by
  have hlock : ∀ {m : ThreadSafeQueue.Pc T}, m.call = l.call →
      Tools.ThreadSafeQueue.lock s m = some (s', l') →
      EffectStep (fifo true) s.container l.call s'.container l'.call := by
    intro m hm he
    unfold Tools.ThreadSafeQueue.lock at he
    split at he <;> cases he
    exact .silent rfl hm
  cases l with
  | putLock task => exact hlock (m := .push task) rfl h
  | takeLock => exact hlock (m := .takeSize) rfl h
  | sizeLock => exact hlock (m := .size) rfl h
  | push task =>
    cases h
    exact .commit rfl rfl rfl
  | takeSize =>
    cases h
    by_cases he : s.container.length = 0
    · rw [if_pos he]
      refine .commit rfl ?_ rfl
      rw [List.length_eq_zero_iff.mp he]
      rfl
    · rw [if_neg he]
      exact .silent rfl rfl
  | front =>
    simp only [Tools.ThreadSafeQueue.exec] at h
    split at h <;> cases h <;> exact .silent rfl rfl
  | pop task =>
    obtain ⟨rest, hq⟩ := hk
    simp only [Tools.ThreadSafeQueue.exec, hq] at h
    cases h
    refine .commit rfl ?_ rfl
    rw [hq]
    rfl
  | size =>
    cases h
    exact .commit rfl rfl rfl
  | returned op res => cases h
  | _ =>
    cases h
    exact .finish rfl rfl rfl

theorem queueCode_lawful : (queueCode T).Lawful (fifo true) where
  call_begin op := by cases op <;> rfl
  holds_begin := Tools.ThreadSafeQueue.begin_free
  holds_returned := by
    intro l op res h
    cases l with
    | returned op res => rfl
    | _ => cases h
  lockStep := by
    intro s i l s' l' ha h
    exact (Tools.ThreadSafeQueue.exec_lock (i := i) h (knows_of_aware ha)).1
  frame := by
    intro s i l s' l' h hl
    have hk : l.Knows s.container := Tools.ThreadSafeQueue.knows_of_free hl
    exact (Tools.ThreadSafeQueue.exec_lock (i := i) h hk).2.1 hl
  knows := by
    intro s i l s' l' ha h _
    exact (Tools.ThreadSafeQueue.exec_lock (i := i) h (knows_of_aware ha)).2.2.1
  sound := by
    intro s i l s' l' ha h hs
    exact (Tools.ThreadSafeQueue.exec_lock (i := i) h (knows_of_aware ha)).2.2.2.trans hs
  effect := by
    intro s i l s' l' ha h
    exact exec_effect (i := i) h (knows_of_aware ha)
  goesOn := by
    intro s l i hm hr
    refine Tools.ThreadSafeQueue.exec_isSome i ?_ hm
    rintro op res rfl
    exact hr op res rfl

end

/-! ## Where the card uses its queues -/

inductive CardQueue where
  /-- `m_channel_queue` -/
  | channel
  /-- `m_sleep_channel_queue` -/
  | sleep
  deriving DecidableEq, Repr

/-- The call a thread makes next. -/
def Pc.queueCall : Pc → Option (CardQueue × QueueOp Nat)
  | .callout _ .take => some (.channel, .take)
  | .callout _ (.put c) => some (.channel, .put c)
  | .hangUp _ c _ (.put _) => some (.channel, .put c)
  | .autoDial c (.put _) => some (.sleep, .put c)
  | .strategy .take => some (.sleep, .take)
  | _ => none

/-- Where it goes on after it, at time `now`. -/
def Pc.afterQueue (now : Nat) : Pc → QueueRes Nat → Pc
  | .callout x .take, .value c => .callout x (.dial c)
  | .callout x .take, _ => .callout x .again
  | .callout x (.put _), _ => .callout x .failed
  | .hangUp k c status (.put retVal), _ => .hangUp k c status (.unlock retVal)
  | .autoDial c (.put locked), _ => if locked then .autoDial c .unlock else .ret
  | .strategy .take, .value c => .strategy (.lock c)
  | .strategy .take, _ => .strategy (.pause (now + 100))
  | pc, _ => pc

/-- The same place, or a pause of `deal_hungup_strategy` that ends earlier. -/
inductive Pc.Ahead : Pc → Pc → Prop where
  | same (pc : Pc) : Ahead pc pc
  | pause {till till' : Nat} (h : till' ≤ till) :
      Ahead (.strategy (.pause till)) (.strategy (.pause till'))

/-- The two queues. -/
def cardUsage : Usage Shared Pc CardQueue (List Nat) (QueueOp Nat) (QueueRes Nat) where
  uses := Pc.queueCall
  resume := Pc.afterQueue
  get sh
    | .channel => sh.channelQueue
    | .sleep => sh.sleepChannelQueue
  put sh v := { sh with channelQueue := v .channel, sleepChannelQueue := v .sleep }
  clock sh := sh.now
  alive sh := !sh.crashed
  le := Pc.Ahead

theorem cardUsage_get_put (sh : Shared) (v : CardQueue → List Nat) :
    cardUsage.get (cardUsage.put sh v) = v := by
  funext k
  cases k <;> rfl

theorem cardUsage_alive {sh : Shared} : cardUsage.alive sh = true ↔ sh.crashed = false := by
  show (!sh.crashed) = true ↔ sh.crashed = false
  rw [Bool.not_eq_true']

theorem cardUsage_get_eq {sh sh' : Shared} (hc : sh'.channelQueue = sh.channelQueue)
    (hs : sh'.sleepChannelQueue = sh.sleepChannelQueue) :
    cardUsage.get sh' = cardUsage.get sh := by
  funext k
  cases k
  · exact hc
  · exact hs

/-- A step that is no queue call leaves both queues and the clock alone. -/
theorem exec_queues {cfg : Config} {sh sh' : Shared} {i : Nat} {pc pc' : Pc} {r : Int}
    (hu : pc.queueCall = none) (h : exec cfg sh i pc r = some (sh', pc')) :
    cardUsage.get sh' = cardUsage.get sh ∧ sh'.now = sh.now := by
  have hsame : sh'.channelQueue = sh.channelQueue ∧
      sh'.sleepChannelQueue = sh.sleepChannelQueue ∧ sh'.now = sh.now := by
    cases (exec_step h).2 with
    | callout hs =>
      cases hs with
      | noChannel | took | putBack => cases hu
      | _ => exact ⟨rfl, rfl, rfl⟩
    | @hangUp k _ _ _ _ _ hs =>
      cases hs with
      | noTrunk => cases k <;> exact ⟨rfl, rfl, rfl⟩
      | putBack => cases hu
      | _ => exact ⟨rfl, rfl, rfl⟩
    | autoDial hs =>
      cases hs with
      | queuedLocked | queued => cases hu
      | _ => exact ⟨rfl, rfl, rfl⟩
    | timeoutCheck hs => cases hs <;> exact ⟨rfl, rfl, rfl⟩
    | strategy hs =>
      cases hs with
      | nothing | took => cases hu
      | _ => exact ⟨rfl, rfl, rfl⟩
    | ret => exact ⟨rfl, rfl, rfl⟩
  exact ⟨cardUsage_get_eq hsame.1 hsame.2.1, hsame.2.2⟩

/-- Nor does the environment touch the queues. -/
theorem env_queues {sh sh' : Shared} {n : Nat} {a : Action} {new : List Pc}
    (h : env sh n a = some (sh', new)) :
    cardUsage.get sh' = cardUsage.get sh ∧ sh.now ≤ sh'.now := by
  cases (env_step h).2 with
  | tick => exact ⟨cardUsage_get_eq rfl rfl, Nat.le_add_right _ _⟩
  | _ => exact ⟨cardUsage_get_eq rfl rfl, Nat.le_refl _⟩

/-- A queue call of the card, as one step. -/
theorem exec_queueCall {cfg : Config} {sh : Shared} {i : Nat} {pc : Pc} {k : CardQueue}
    {op : QueueOp Nat} (r : Int) (hu : pc.queueCall = some (k, op)) (ha : sh.crashed = false) :
    exec cfg sh i pc r = (fifo true (cardUsage.get sh k) op).map fun p =>
      (cardUsage.put sh (Function.update (cardUsage.get sh) k p.1), pc.afterQueue sh.now p.2) := by
  rw [exec.eq_def, ha]
  cases pc with
  | callout x p =>
    cases p with
    | take =>
      cases hu
      obtain ⟨_ | ⟨c, rest⟩, _, _, _, _, _, _, _, _⟩ := sh <;> rfl
    | put c => cases hu; rfl
    | _ => cases hu
  | hangUp k c status p =>
    cases p with
    | put retVal => cases hu; rfl
    | _ => cases hu
  | autoDial c p =>
    cases p with
    | put locked => cases hu; rfl
    | _ => cases hu
  | strategy p =>
    cases p with
    | take =>
      cases hu
      obtain ⟨_, _ | ⟨c, rest⟩, _, _, _, _, _, _, _⟩ := sh <;> rfl
    | _ => cases hu
  | _ => cases hu

/-- A thread that is ahead can make the same step. -/
theorem Pc.Ahead.exec {cfg : Config} {sh sh' : Shared} {i : Nat} {pc pc' m : Pc} {r : Int}
    (hle : pc.Ahead m) (h : Cti.exec cfg sh i pc r = some (sh', pc')) :
    ∃ m', Cti.exec cfg sh i m r = some (sh', m') ∧ pc'.Ahead m' := by
  cases hle with
  | same => exact ⟨pc', h, .same pc'⟩
  | @pause till till' hle =>
    obtain ⟨hcr, hs⟩ := exec_step h
    cases hs with
    | strategy hs =>
      cases hs with
      | paused ht =>
        refine ⟨.strategy .take, ?_, .same _⟩
        rw [exec.eq_def, hcr]
        exact if_pos (Nat.le_trans hle ht)

theorem Pc.Ahead.eq_of_queueCall {pc m : Pc} {u : CardQueue × QueueOp Nat} (hle : pc.Ahead m)
    (hu : pc.queueCall = some u) : m = pc := by
  cases hle with
  | same => rfl
  | pause => cases hu

/-- Who returns later sleeps until later. -/
theorem Pc.ahead_afterQueue {now now' : Nat} (pc : Pc) (res : QueueRes Nat) (h : now ≤ now') :
    (pc.afterQueue now' res).Ahead (pc.afterQueue now res) := by
  by_cases htake : pc = .strategy .take
  · subst htake
    cases res with
    | value c => exact .same _
    | _ => exact .pause (Nat.add_le_add_right h 100)
  · have hsame : pc.afterQueue now' res = pc.afterQueue now res := by
      unfold afterQueue
      split
      · rfl
      · rfl
      · rfl
      · rfl
      · rfl
      · rfl
      · exact absurd rfl htake
      · rfl
    rw [hsame]
    exact .same _

theorem cardUsage_lawful (cfg : Config) : cardUsage.Lawful (voiceCard cfg) (fifo true) where
  get_put := cardUsage_get_put
  put_get _ := rfl
  put_put _ _ _ := rfl
  clock_put _ _ := rfl
  alive_put _ _ := rfl
  exec_uses r hu ha := exec_queueCall r hu (cardUsage_alive.mp ha)
  exec_frame hu h := (exec_queues hu h).imp_right fun he => Nat.le_of_eq he.symm
  env_frame h := env_queues h
  le_refl := .same
  le_uses hle hu := hle.eq_of_queueCall hu
  le_exec hle _ h := hle.exec h
  le_resume pc res h := pc.ahead_afterQueue res h

/-! ## The card on its queues -/

/-- The voice card, `thread_safe_queue` in both places. -/
def voiceCardOnQueues (cfg : Config) :
    Program (Shared × (CardQueue → ThreadSafeQueue.Shared Nat))
      (Pc × Option (ThreadSafeQueue.Pc Nat)) Action Int :=
  (voiceCard cfg).withObjects cardUsage (queueCode Nat)

/-- What `init_cti` leaves: both queues filled and unlocked. -/
def initialOnQueues (cfg : Config) (echo : Nat → Bool) :
    Conf (Shared × (CardQueue → ThreadSafeQueue.Shared Nat))
      (Pc × Option (ThreadSafeQueue.Pc Nat)) where
  shared := ((initial cfg echo).shared, fun k =>
    { mutex := false, container := cardUsage.get (initial cfg echo).shared k, undefined := false })
  threads := (initial cfg echo).threads.map fun pc => (pc, none)

/-- The card behind it: what the queues contain is what their calls have done so far. -/
def cardBehind (s : Shared × (CardQueue → ThreadSafeQueue.Shared Nat)) : Shared :=
  { s.1 with
    channelQueue := (s.2 .channel).container, sleepChannelQueue := (s.2 .sleep).container }

/-- Thread `i` can step, whatever the driver answers. -/
def StepsOnQueues (cfg : Config) (s : Conf (Shared × (CardQueue → ThreadSafeQueue.Shared Nat))
    (Pc × Option (ThreadSafeQueue.Pc Nat))) (i : Nat) : Prop :=
  ∀ r, ∃ s', (voiceCardOnQueues cfg).step s (.run i r) = some s'

/-- What a card on its queues is. -/
structure OnQueues (cfg : Config) (s : Conf (Shared × (CardQueue → ThreadSafeQueue.Shared Nat))
    (Pc × Option (ThreadSafeQueue.Pc Nat))) : Prop where
  /-- There is a card that has come to the same, each thread standing where it is, or after
  the queue call in which it is. -/
  asCard : ∃ t, Reachable cfg t ∧ t.shared = cardBehind s.shared ∧
    List.Forall₂ (cardUsage.Stands (queueCode Nat) s.shared.1.now) s.threads t.threads
  /-- No queue is asked for what it has not. -/
  defined : ∀ k, (s.shared.2 k).undefined = false
  /-- A thread in the code of a queue can go on, or the one that has the mutex of this queue
  can. -/
  live : s.shared.1.crashed = false → ∀ i pc l, s.threads[i]? = some (pc, some l) →
    ∃ k op, pc.queueCall = some (k, op) ∧ (StepsOnQueues cfg s i ∨
      ∃ j m l' op', s.threads[j]? = some (m, some l') ∧ m.queueCall = some (k, op') ∧
        l'.holds = true ∧ StepsOnQueues cfg s j)

theorem stepsOnQueues {cfg : Config}
    {s : Conf (Shared × (CardQueue → ThreadSafeQueue.Shared Nat))
      (Pc × Option (ThreadSafeQueue.Pc Nat))} {i : Nat} {pc : Pc} {l : ThreadSafeQueue.Pc Nat}
    (hi : s.threads[i]? = some (pc, some l))
    (h : InsideGoesOn (voiceCard cfg) cardUsage (queueCode Nat) s.shared i pc l) :
    StepsOnQueues cfg s i := by
  intro r
  obtain ⟨q, hq⟩ := h r
  exact ⟨_, Program.step_run hi hq⟩

/-- **The card on its queues is the card**: no interleaving of the queues' code with itself
and with the rest reaches anything that whole queue calls do not reach. -/
theorem voiceCard_onQueues {cfg : Config} {echo : Nat → Bool}
    {s : Conf (Shared × (CardQueue → ThreadSafeQueue.Shared Nat))
      (Pc × Option (ThreadSafeQueue.Pc Nat))}
    (h : (voiceCardOnQueues cfg).Reach (fun _ _ => True) (initialOnQueues cfg echo) s) :
    OnQueues cfg s := by
  obtain ⟨t, ht, hsim⟩ := Program.Reach.withObjects queueCode_lawful (cardUsage_lawful cfg)
    (fun _ => rfl) (fun _ => rfl) (fun _ => by rfl) h
  refine ⟨⟨t, ⟨echo, ht⟩, hsim.shared, hsim.threads⟩, hsim.inv.sound, ?_⟩
  intro hcr i pc l hl
  obtain ⟨k, op, hu, hgo⟩ := hsim.inv.live (P := voiceCard cfg) queueCode_lawful
    (cardUsage_alive.mpr hcr) hl
  refine ⟨k, op, hu, ?_⟩
  rcases hgo with hgo | ⟨j, m, l', op', hj, hu', hh, hgo⟩
  · exact Or.inl (stepsOnQueues hl hgo)
  · exact Or.inr ⟨j, m, l', op', hj, hu', hh, stepsOnQueues hj hgo⟩

/-- Two requests ask for the one channel, the second while the first has the mutex, and
`deal_hungup_strategy` comes back from its empty queue with a delay. -/
theorem voiceCard_onQueues_overlap :
    OnQueues oneChannel ((voiceCardOnQueues oneChannel).after (fun _ _ => true)
      (initialOnQueues oneChannel fun _ => true)
      [.run 1 0, .run 1 0, .run 1 0, .env (.call 7 [1] [2] [3] true),
        .env (.call 8 [4] [5] [6] true), .run 2 0, .run 3 0, .run 2 0, .run 2 0, .run 1 0,
        .env (.tick 5), .run 1 0, .run 2 0, .run 2 0, .run 2 0, .run 3 0, .run 3 0, .run 2 0,
        .run 3 0, .run 3 0]) :=
  voiceCard_onQueues ((Program.reach_after (by decide)).mono fun _ _ _ => trivial)

end CiaServer.Cti
