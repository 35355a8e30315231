import CiaServer.Interleave.Fifo
import CiaServer.Interleave.Monitor

/-!
# `blocking_queue` (`tools/blocking_queue.hpp`)

`Put` and `Take` under a mutex; a `Take` on an empty queue waits on `_condvar`
until a `Put` has called `notify_all`. Each call is a thread; one step is one
operation on the mutex, the condition variable or the list.

`blockingQueue_isQueue`: it is a FIFO queue whose `Take` waits while it is empty,
and no wake-up is lost. The clients' pools of buffers take `Put` and `Take` to be
one step each for that reason (`m_write_msg_queue_`).

Mirroring notes:
- `_condvar.wait(lock, pred)` tests, and while the test fails it gives the mutex
  back and sleeps in one step; awake again it locks and tests anew. It may also
  wake up without a reason (`Event.wake`).
- `Put` notifies after it has unlocked.
- A failed `BOOST_ASSERT`, or `front()` and `pop_front()` of an empty list, set
  `failed`.
-/

namespace CiaServer.Tools.BlockingQueue

open Interleave

/-- A `blocking_queue`. -/
structure Shared (T : Type) where
  mutex : Bool
  queue : List T
  /-- The calls asleep on `_condvar`. -/
  waiting : List Nat
  failed : Bool
  deriving DecidableEq, Repr

/-- Where a call stands. -/
inductive Pc (T : Type) where
  | putLock (task : T)
  | push (task : T)
  | putUnlock (task : T)
  | notifyAll (task : T)
  | takeLock
  /-- about to test the predicate -/
  | test
  /-- about to give the mutex back and sleep -/
  | wait
  | asleep
  /-- at `BOOST_ASSERT_MSG` -/
  | check
  | front
  | popFront (front : T)
  | takeUnlock (front : T)
  | sizeLock
  | size
  | sizeUnlock (size : Nat)
  | returned (op : QueueOp T) (res : QueueRes T)
  deriving DecidableEq, Repr

/-- What comes from outside. -/
inductive Event (T : Type) where
  | call (op : QueueOp T)
  /-- A call wakes up without having been notified. -/
  | wake (i : Nat)
  deriving DecidableEq, Repr

/-- A call is made. -/
def begin {T : Type} : QueueOp T → Pc T
  | .put task => .putLock task
  | .take => .takeLock
  | .size => .sizeLock

variable {T : Type}

/-- Locking the mutex. -/
def lock (s : Shared T) (l : Pc T) : Option (Shared T × Pc T) :=
  if s.mutex then none else some ({ s with mutex := true }, l)

/-- Unlocking it. -/
def unlock (s : Shared T) (l : Pc T) : Option (Shared T × Pc T) :=
  some ({ s with mutex := false }, l)

/-- The next step of call `i`. -/
def exec (s : Shared T) (i : Nat) : Pc T → Unit → Option (Shared T × Pc T)
  | .putLock task, _ => lock s (.push task)
  | .push task, _ => some ({ s with queue := s.queue ++ [task] }, .putUnlock task)
  | .putUnlock task, _ => unlock s (.notifyAll task)
  | .notifyAll task, _ => some ({ s with waiting := [] }, .returned (.put task) .done)
  | .takeLock, _ => lock s .test
  | .test, _ => some (s, if s.queue.isEmpty then .wait else .check)
  | .wait, _ => some ({ s with mutex := false, waiting := s.waiting ++ [i] }, .asleep)
  | .asleep, _ => if i ∈ s.waiting then none else lock s .test
  | .check, _ => if s.queue.isEmpty then some ({ s with failed := true }, .check) else some (s, .front)
  | .front, _ =>
    match s.queue with
    | [] => some ({ s with failed := true }, .front)
    | front :: _ => some (s, .popFront front)
  | .popFront front, _ =>
    match s.queue with
    | [] => some ({ s with failed := true }, .popFront front)
    | _ :: rest => some ({ s with queue := rest }, .takeUnlock front)
  | .takeUnlock front, _ => unlock s (.returned .take (.value front))
  | .sizeLock, _ => lock s .size
  | .size, _ => some (s, .sizeUnlock s.queue.length)
  | .sizeUnlock size, _ => unlock s (.returned .size (.size size))
  | .returned _ _, _ => none

def env (s : Shared T) (_ : Nat) : Event T → Option (Shared T × List (Pc T))
  | .call op => some (s, [begin op])
  | .wake i => if i ∈ s.waiting then some ({ s with waiting := s.waiting.erase i }, []) else none

/-- Any thread calls any operation at any time. -/
def blockingQueue (T : Type) : Program (Shared T) (Pc T) (Event T) Unit where
  env := env
  exec := exec

/-- An empty queue. -/
def start (T : Type) : Shared T := { mutex := false, queue := [], waiting := [], failed := false }

/-- What a queue can come to. -/
def Reachable (s : Conf (Shared T) (Pc T)) : Prop :=
  (blockingQueue T).Reach (fun _ _ => True) ⟨start T, []⟩ s

/-! ## The mutex -/

/-- Places where the call has the mutex. -/
def Pc.holds : Pc T → Bool
  | .putLock _ => false
  | .notifyAll _ => false
  | .takeLock => false
  | .asleep => false
  | .sizeLock => false
  | .returned _ _ => false
  | _ => true

/-- What the call that has the mutex knows of the list. -/
def Pc.Knows (q : List T) : Pc T → Prop
  | .wait => q = []
  | .check => q ≠ []
  | .front => q ≠ []
  | .popFront task => ∃ rest, q = task :: rest
  | _ => True

theorem knows_of_free {q : List T} {l : Pc T} (h : l.holds = false) : l.Knows q := by
  cases l with
  | wait => cases h
  | check => cases h
  | front => cases h
  | popFront task => cases h
  | _ => exact trivial

/-- A step of a call that knows what its place says. -/
inductive Step (s : Shared T) (i : Nat) : Pc T → Shared T → Pc T → Prop where
  | putLock {task : T} (h : s.mutex = false) :
    Step s i (.putLock task) { s with mutex := true } (.push task)
  | push {task : T} : Step s i (.push task) { s with queue := s.queue ++ [task] } (.putUnlock task)
  | putUnlock {task : T} : Step s i (.putUnlock task) { s with mutex := false } (.notifyAll task)
  | notifyAll {task : T} :
    Step s i (.notifyAll task) { s with waiting := [] } (.returned (.put task) .done)
  | takeLock (h : s.mutex = false) : Step s i .takeLock { s with mutex := true } .test
  | testEmpty (h : s.queue = []) : Step s i .test s .wait
  | testSome (h : s.queue ≠ []) : Step s i .test s .check
  | wait : Step s i .wait { s with mutex := false, waiting := s.waiting ++ [i] } .asleep
  | wakeUp (hw : i ∉ s.waiting) (h : s.mutex = false) :
    Step s i .asleep { s with mutex := true } .test
  | check (h : s.queue ≠ []) : Step s i .check s .front
  | front {task : T} {rest : List T} (h : s.queue = task :: rest) :
    Step s i .front s (.popFront task)
  | popFront {task : T} {rest : List T} (h : s.queue = task :: rest) :
    Step s i (.popFront task) { s with queue := rest } (.takeUnlock task)
  | takeUnlock {task : T} :
    Step s i (.takeUnlock task) { s with mutex := false } (.returned .take (.value task))
  | sizeLock (h : s.mutex = false) : Step s i .sizeLock { s with mutex := true } .size
  | size : Step s i .size s (.sizeUnlock s.queue.length)
  | sizeUnlock {n : Nat} :
    Step s i (.sizeUnlock n) { s with mutex := false } (.returned .size (.size n))

theorem lock_eq_some {s s' : Shared T} {l l' : Pc T} (h : lock s l = some (s', l')) :
    s.mutex = false ∧ s' = { s with mutex := true } ∧ l' = l := by
  unfold lock at h
  split at h
  · cases h
  · next hfree =>
    cases h
    exact ⟨Bool.eq_false_iff.mpr hfree, rfl, rfl⟩

theorem exec_step {s s' : Shared T} {i : Nat} {l l' : Pc T} {r : Unit}
    (h : exec s i l r = some (s', l')) (hk : l.Knows s.queue) : Step s i l s' l' := by
  cases l with
  | putLock task =>
    obtain ⟨hfree, rfl, rfl⟩ := lock_eq_some h
    exact .putLock hfree
  | takeLock =>
    obtain ⟨hfree, rfl, rfl⟩ := lock_eq_some h
    exact .takeLock hfree
  | sizeLock =>
    obtain ⟨hfree, rfl, rfl⟩ := lock_eq_some h
    exact .sizeLock hfree
  | asleep =>
    simp only [exec] at h
    split at h
    · cases h
    · next hw =>
      obtain ⟨hfree, rfl, rfl⟩ := lock_eq_some h
      exact .wakeUp hw hfree
  | test =>
    cases h
    split
    · next he => exact .testEmpty (List.isEmpty_iff.mp he)
    · next he => exact .testSome fun hn => he (List.isEmpty_iff.mpr hn)
  | check =>
    simp only [exec] at h
    split at h
    · next he => exact absurd (List.isEmpty_iff.mp he) hk
    · cases h
      exact .check hk
  | front =>
    simp only [exec] at h
    split at h
    · next hn => exact absurd hn hk
    · next task rest hq =>
      cases h
      exact .front hq
  | popFront task =>
    obtain ⟨rest, hq⟩ := hk
    simp only [exec, hq] at h
    cases h
    exact .popFront hq
  | push task =>
    cases h
    exact .push
  | putUnlock task =>
    cases h
    exact .putUnlock
  | notifyAll task =>
    cases h
    exact .notifyAll
  | wait =>
    cases h
    exact .wait
  | takeUnlock task =>
    cases h
    exact .takeUnlock
  | size =>
    cases h
    exact .size
  | sizeUnlock n =>
    cases h
    exact .sizeUnlock
  | returned op res => cases h

variable {s s' : Shared T} {ts : List (Pc T)} {i : Nat} {l l' : Pc T}

theorem Step.lockStep (h : Step s i l s' l') : LockStep Pc.holds s.mutex l s'.mutex l' := by
  cases h with
  | putLock h => exact .acquire rfl rfl h rfl
  | takeLock h => exact .acquire rfl rfl h rfl
  | wakeUp _ h => exact .acquire rfl rfl h rfl
  | sizeLock h => exact .acquire rfl rfl h rfl
  | putUnlock => exact .release rfl rfl rfl
  | wait => exact .release rfl rfl rfl
  | takeUnlock => exact .release rfl rfl rfl
  | sizeUnlock => exact .release rfl rfl rfl
  | notifyAll => exact .outside rfl rfl rfl
  | _ => exact .inside rfl rfl rfl

/-- Without the mutex the list is left alone. -/
theorem Step.queue_eq (h : Step s i l s' l') (hl : l.holds = false) : s'.queue = s.queue := by
  cases h with
  | push => cases hl
  | popFront => cases hl
  | _ => rfl

theorem Step.knows (h : Step s i l s' l') : l'.Knows s'.queue := by
  cases h with
  | testEmpty h => exact h
  | testSome h => exact h
  | check h => exact h
  | front h => exact ⟨_, h⟩
  | _ => exact trivial

theorem Step.failed_eq (h : Step s i l s' l') : s'.failed = s.failed := by
  cases h <;> rfl

/-! ## Who waits -/

/-- A `Put` that has not notified yet what it has put. -/
def Pc.notifies : Pc T → Bool
  | .putUnlock _ => true
  | .notifyAll _ => true
  | _ => false

/-- Those on `_condvar` are asleep, and while there is something for them a `Put` is
about to wake them. -/
structure WaitInv (s : Shared T) (ts : List (Pc T)) : Prop where
  nodup : s.waiting.Nodup
  asleep : ∀ i ∈ s.waiting, ts[i]? = some .asleep
  notified : s.waiting ≠ [] → s.queue ≠ [] → ∃ l ∈ ts, l.notifies = true

/-- A step that puts nobody to sleep. -/
theorem WaitInv.set (hi : WaitInv s ts) (hl : ts[i]? = some l) (hw : s'.waiting = s.waiting)
    (hin : i ∉ s.waiting)
    (hn : s'.queue ≠ [] → l'.notifies = true ∨ s.queue ≠ [] ∧ l.notifies = false) :
    WaitInv s' (ts.set i l') := by
  refine ⟨by rw [hw]; exact hi.nodup, ?_, ?_⟩
  · intro j hj
    rw [hw] at hj
    have hne : i ≠ j := fun he => hin (he ▸ hj)
    rw [List.getElem?_set_ne hne]
    exact hi.asleep j hj
  · intro hwait hq
    rw [hw] at hwait
    rcases hn hq with hnew | ⟨hold, hno⟩
    · exact ⟨l', mem_set_self hl l', hnew⟩
    · obtain ⟨m, hm, hmn⟩ := hi.notified hwait hold
      obtain ⟨j, hj⟩ := List.mem_iff_getElem?.mp hm
      have hne : i ≠ j := by
        rintro rfl
        cases hl.symm.trans hj
        rw [hno] at hmn
        cases hmn
      exact ⟨m, mem_set_of_ne hne hj l', hmn⟩

/-- Who is not asleep is not waiting. -/
theorem WaitInv.awake (hi : WaitInv s ts) (hl : ts[i]? = some l) (h : l ≠ .asleep) :
    i ∉ s.waiting := by
  intro hin
  exact h (Option.some.inj (hl.symm.trans (hi.asleep i hin)))

theorem WaitInv.step (hi : WaitInv s ts) (hl : ts[i]? = some l) (hk : l.Knows s.queue)
    (h : Step s i l s' l') : WaitInv s' (ts.set i l') := by
  have hlt := (List.getElem?_eq_some_iff.mp hl).1
  -- a step that changes neither the list nor who waits
  have hsame : l ≠ .asleep → s'.waiting = s.waiting → s'.queue = s.queue → l.notifies = false →
      WaitInv s' (ts.set i l') := by
    intro hne hw hq hno
    refine hi.set hl hw (hi.awake hl hne) fun hq' => Or.inr ⟨?_, hno⟩
    rw [← hq]
    exact hq'
  cases h with
  | push =>
    exact hi.set hl rfl (hi.awake hl (by intro he; cases he)) fun _ => Or.inl rfl
  | putUnlock =>
    exact hi.set hl rfl (hi.awake hl (by intro he; cases he)) fun _ => Or.inl rfl
  | notifyAll => exact ⟨List.nodup_nil, nofun, fun h => absurd rfl h⟩
  | wait =>
    have hin := hi.awake hl (by intro he; cases he)
    refine ⟨?_, ?_, fun _ hq => absurd hk hq⟩
    · refine List.nodup_append.mpr ⟨hi.nodup, List.nodup_singleton _, ?_⟩
      intro a ha b hb
      rw [List.mem_singleton.mp hb]
      rintro rfl
      exact hin ha
    · intro j hj
      rcases List.mem_append.mp hj with hj | hj
      · have hne : i ≠ j := fun he => hin (he ▸ hj)
        rw [List.getElem?_set_ne hne]
        exact hi.asleep j hj
      · rw [List.mem_singleton.mp hj, List.getElem?_set_self hlt]
  | wakeUp hw _ => exact hi.set hl rfl hw fun hq => Or.inr ⟨hq, rfl⟩
  | popFront hq =>
    refine hi.set hl rfl (hi.awake hl (by intro he; cases he)) fun _ => Or.inr ⟨?_, rfl⟩
    rw [hq]
    exact List.cons_ne_nil _ _
  | _ => exact hsame (by intro he; cases he) rfl rfl rfl

/-- Those who are woken without a reason no longer wait. -/
theorem WaitInv.erase (hi : WaitInv s ts) (i : Nat) :
    WaitInv { s with waiting := s.waiting.erase i } ts := by
  refine ⟨hi.nodup.erase i, fun j hj => hi.asleep j (List.mem_of_mem_erase hj), ?_⟩
  intro hwait hq
  refine hi.notified ?_ hq
  intro hnil
  refine hwait ?_
  show s.waiting.erase i = []
  rw [hnil]
  rfl

theorem WaitInv.append (hi : WaitInv s ts) (new : List (Pc T)) : WaitInv s (ts ++ new) := by
  refine ⟨hi.nodup, ?_, ?_⟩
  · intro j hj
    have hold := hi.asleep j hj
    rw [List.getElem?_append_left (List.getElem?_eq_some_iff.mp hold).1]
    exact hold
  · intro hwait hq
    obtain ⟨l, hl, hn⟩ := hi.notified hwait hq
    exact ⟨l, List.mem_append_left _ hl, hn⟩

/-- No more calls wait than there are. -/
theorem WaitInv.length_le (hi : WaitInv s ts) : s.waiting.length ≤ ts.length := by
  have hsub : s.waiting ⊆ List.range ts.length := fun j hj =>
    List.mem_range.mpr (List.getElem?_eq_some_iff.mp (hi.asleep j hj)).1
  have hle := (List.subperm_of_subset hi.nodup hsub).length_le
  rwa [List.length_range] at hle

/-! ## Every run -/

/-- The mutex, the list and the condition variable are used as they should be. -/
structure Inv (s : Shared T) (ts : List (Pc T)) : Prop where
  monitor : MonitorInv Pc.holds (fun q l => l.Knows q) s.mutex s.queue ts
  waiters : WaitInv s ts
  sound : s.failed = false

theorem Inv.knows (hi : Inv s ts) (hl : ts[i]? = some l) : l.Knows s.queue := by
  cases hh : l.holds with
  | true => exact hi.monitor.knows l (List.mem_of_getElem? hl) hh
  | false => exact knows_of_free hh

theorem Inv.step (hi : Inv s ts) (hl : ts[i]? = some l) (h : Step s i l s' l') :
    Inv s' (ts.set i l') :=
  ⟨hi.monitor.step hl h.lockStep h.queue_eq fun _ => h.knows,
    hi.waiters.step hl (hi.knows hl) h, h.failed_eq.trans hi.sound⟩

theorem begin_free (op : QueueOp T) : (begin op).holds = false := by
  cases op <;> rfl

theorem Inv.env {n : Nat} {e : Event T} {new : List (Pc T)} (hi : Inv s ts)
    (he : env s n e = some (s', new)) : Inv s' (ts ++ new) := by
  cases e with
  | call op =>
    cases he
    refine ⟨hi.monitor.append ?_, hi.waiters.append _, hi.sound⟩
    intro l hl
    rw [List.mem_singleton.mp hl]
    exact begin_free op
  | wake i =>
    simp only [BlockingQueue.env] at he
    split at he <;> cases he
    rw [List.append_nil]
    exact ⟨hi.monitor, hi.waiters.erase i, hi.sound⟩

theorem inv_of_reachable {s : Conf (Shared T) (Pc T)} (h : Reachable s) :
    Inv s.shared s.threads := by
  refine Program.Reach.rule (I := Inv) ?_ ?_ ?_ h
  · exact ⟨⟨rfl, fun _ hl => absurd hl List.not_mem_nil⟩,
      ⟨List.nodup_nil, fun _ hj => absurd hj List.not_mem_nil, fun h => absurd rfl h⟩, rfl⟩
  · intro sh ts e sh' new _ hi _ he
    exact Inv.env (n := ts.length) hi he
  · intro sh ts i l r sh' l' _ hi _ hl he
    exact hi.step hl (exec_step he (hi.knows hl))

/-! ## The queue it is -/

/-- How far a call is. -/
def Pc.call : Pc T → Call (QueueOp T) (QueueRes T)
  | .putLock task => .pending (.put task)
  | .push task => .pending (.put task)
  | .putUnlock task => .effected (.put task) .done
  | .notifyAll task => .effected (.put task) .done
  | .takeUnlock task => .effected .take (.value task)
  | .sizeLock => .pending .size
  | .size => .pending .size
  | .sizeUnlock n => .effected .size (.size n)
  | .returned op res => .returned op res
  | _ => .pending .take

/-- The effect of a step: `push_back`, `pop_front`, and looking at the size. -/
def effect (s : Shared T) (i : Nat) : Pc T → Option (Effect (QueueOp T) (QueueRes T))
  | .push task => some { call := i, op := .put task, res := .done }
  | .popFront task => some { call := i, op := .take, res := .value task }
  | .size => some { call := i, op := .size, res := .size s.queue.length }
  | _ => none

/-- Every step is the effect of its call, or has none. -/
theorem Step.commit (h : Step s i l s' l') :
    Program.CommitStep (fifo false) Pc.call s.queue i l (effect s i l) s'.queue l' := by
  cases h with
  | push => exact .commit rfl rfl rfl rfl
  | popFront hq =>
    refine .commit rfl rfl ?_ rfl
    rw [hq]
    rfl
  | size => exact .commit rfl rfl rfl rfl
  | _ => exact .silent rfl rfl rfl

theorem call_begin (op : QueueOp T) (i : Nat) : (begin op).call.effect i = none := by
  cases op <;> rfl

/-- What a queue with its effects noted can come to. -/
def LoggedReachable (s : Conf (Shared T × List (Effect (QueueOp T) (QueueRes T))) (Pc T)) : Prop :=
  ((blockingQueue T).logged effect).Reach (fun _ _ => True) ⟨(start T, []), []⟩ s

/-! ## It comes to rest -/

/-- How many steps a call has before it; `n` calls may be there to be woken. -/
def Pc.work (n : Nat) : Pc T → Nat
  | .putLock _ => 3 * n + 4
  | .push _ => 3 * n + 3
  | .putUnlock _ => 3 * n + 2
  | .notifyAll _ => 3 * n + 1
  | .takeLock => 6
  | .asleep => 6
  | .test => 5
  | .wait => 4
  | .check => 4
  | .front => 3
  | .popFront _ => 2
  | .takeUnlock _ => 1
  | .sizeLock => 3
  | .size => 2
  | .sizeUnlock _ => 1
  | .returned _ _ => 0

/-- How many steps all calls have before them. Three of them a sleeping call has only once
it is woken. -/
def work (s : Shared T) (ts : List (Pc T)) : Nat :=
  (ts.map (Pc.work ts.length)).sum + 3 * (ts.length - s.waiting.length)

theorem Inv.work_lt (hi : Inv s ts) (hl : ts[i]? = some l) (h : Step s i l s' l') :
    work s' (ts.set i l') < work s ts := by
  have hset := sum_map_set (Pc.work ts.length) hl l'
  have hle := hi.waiters.length_le
  have hle' := (hi.waiters.step hl (hi.knows hl) h).length_le
  unfold work
  rw [List.length_set] at hle' ⊢
  cases h with
  | notifyAll =>
    simp only [Pc.work] at hset
    show _ + 3 * (ts.length - 0) < _
    omega
  | wait =>
    simp only [Pc.work] at hset
    rw [List.length_append, List.length_singleton] at hle' ⊢
    omega
  | _ =>
    simp only [Pc.work] at hset
    show _ + 3 * (ts.length - s.waiting.length) < _
    omega

/-- A call that has the mutex, or can get it, can go on unless it waits. -/
theorem exec_isSome {l : Pc T} (hl : ∀ op res, l ≠ .returned op res)
    (hw : l = .asleep → i ∉ s.waiting) (hm : s.mutex = true → l.holds = true) :
    ∃ p, exec s i l () = some p := by
  have hlock : ∀ m : Pc T, l.holds = false → ∃ p, lock s m = some p := by
    intro m hh
    refine ⟨_, if_neg ?_⟩
    intro hmutex
    rw [hm hmutex] at hh
    cases hh
  cases l with
  | putLock task => exact hlock (.push task) rfl
  | takeLock => exact hlock .test rfl
  | sizeLock => exact hlock .size rfl
  | asleep =>
    simp only [exec]
    rw [if_neg (hw rfl)]
    exact hlock .test rfl
  | check =>
    simp only [exec]
    split <;> exact ⟨_, rfl⟩
  | front =>
    simp only [exec]
    split <;> exact ⟨_, rfl⟩
  | popFront task =>
    simp only [exec]
    split <;> exact ⟨_, rfl⟩
  | returned op res => exact absurd rfl (hl op res)
  | _ => exact ⟨_, rfl⟩

/-- When no call can go on, all have returned but those that wait for an empty list. -/
theorem Inv.rest (hi : Inv s ts)
    (hq : ∀ (i : Nat) (l : Pc T), ts[i]? = some l → exec s i l () = none)
    {l : Pc T} (hl : l ∈ ts) :
    (∃ op res, l = .returned op res) ∨ l = .asleep ∧ s.queue = [] := by
  have hstuck : ∀ (i : Nat) (m : Pc T), ts[i]? = some m → (∀ op res, m ≠ .returned op res) →
      (m = .asleep → i ∉ s.waiting) → ¬(s.mutex = true → m.holds = true) := by
    intro i m hm hr hw hh
    obtain ⟨p, hp⟩ := exec_isSome hr hw hh
    rw [hq i m hm] at hp
    cases hp
  -- the one that had the mutex could go on
  have hfree : s.mutex = false := by
    refine Bool.eq_false_iff.mpr fun hm => ?_
    obtain ⟨m, hmem, hh⟩ := hi.monitor.exists_holder hm
    obtain ⟨j, hj⟩ := List.mem_iff_getElem?.mp hmem
    refine hstuck j m hj ?_ ?_ fun _ => hh
    · rintro op res rfl
      cases hh
    · rintro rfl
      cases hh
  have hmutex : ∀ m : Pc T, s.mutex = true → m.holds = true := by
    intro m h
    rw [hfree] at h
    cases h
  obtain ⟨i, hil⟩ := List.mem_iff_getElem?.mp hl
  by_cases hr : ∃ op res, l = .returned op res
  · exact Or.inl hr
  · have hr' : ∀ op res, l ≠ .returned op res := fun op res he => hr ⟨op, res, he⟩
    have hw : l = .asleep ∧ i ∈ s.waiting := by
      by_contra hne
      refine hstuck i l hil hr' (fun he hin => hne ⟨he, hin⟩) (hmutex l)
    refine Or.inr ⟨hw.1, ?_⟩
    by_contra hne
    -- somebody would be about to wake it
    obtain ⟨m, hm, hn⟩ := hi.waiters.notified (List.ne_nil_of_mem hw.2) hne
    obtain ⟨j, hj⟩ := List.mem_iff_getElem?.mp hm
    refine hstuck j m hj ?_ ?_ (hmutex m)
    · rintro op res rfl
      cases hn
    · rintro rfl
      cases hn

/-! ## The queue -/

variable [DecidableEq T]

/-- What a `blocking_queue` is. -/
structure IsQueue (s : Conf (Shared T × List (Effect (QueueOp T) (QueueRes T))) (Pc T)) : Prop where
  /-- No assertion fails, and the list is never asked for what it has not. -/
  sound : s.shared.1.failed = false
  /-- The calls have their effects one after the other, each between its beginning and its
  end. -/
  linearized : Linearized (fifo false) [] s.shared.2 s.shared.1.queue (s.threads.map Pc.call)
  /-- That order is the order of the calls, where they do not overlap. -/
  ordered : Program.KeepsOrder (blockingQueue T) effect Pc.call s
  /-- What was put has been taken, in this order, or is there. -/
  inOrder : s.shared.2.filterMap Effect.put? =
    s.shared.2.filterMap Effect.taken? ++ s.shared.1.queue
  /-- Without new calls and wake-ups from outside the calls come to rest … -/
  ends : ∀ ms s', (∀ m ∈ ms, m.isRun = true) →
    ((blockingQueue T).logged effect).run (fun _ _ => true) s ms = some s' →
    ms.length ≤ work s.shared.1 s.threads
  /-- … and then all have returned but `Take`s that wait for an empty queue. -/
  rest : (∀ i, ((blockingQueue T).logged effect).step s (.run i ()) = none) →
    ∀ l ∈ s.threads, (∃ op res, l = .returned op res) ∨ l = .asleep ∧ s.shared.1.queue = []

/-- **`blocking_queue` is a FIFO queue that waits while it is empty**, for any number of
calls that overlap in any way: no deadlock, and no wake-up is lost. -/
theorem blockingQueue_isQueue {s : Conf (Shared T × List (Effect (QueueOp T) (QueueRes T))) (Pc T)}
    (h : LoggedReachable s) : IsQueue s := by
  have hi : Inv s.shared.1 s.threads := inv_of_reachable h.of_logged
  have hlin : Linearized (fifo false) [] s.shared.2 s.shared.1.queue (s.threads.map Pc.call) := by
    refine Program.linearized (P := blockingQueue T) Shared.queue (start T) ?_ ?_ h
    · intro sh ts e sh' new he
      cases e with
      | call op =>
        cases he
        refine ⟨rfl, fun l hl i => ?_⟩
        rw [List.mem_singleton.mp hl]
        exact call_begin op i
      | wake j =>
        simp only [blockingQueue, env] at he
        split at he <;> cases he
        exact ⟨rfl, fun l hl => absurd hl List.not_mem_nil⟩
    · intro sh ts i l r sh' l' hreach hl he
      exact (exec_step he ((inv_of_reachable hreach).knows hl)).commit
  refine ⟨hi.sound, hlin, Program.keepsOrder hlin, puts_eq hlin.legal, ?_, ?_⟩
  · intro ms s' hms hrun
    refine Program.length_le_of_run (I := LoggedReachable) Move.isRun
      (fun s => work s.shared.1 s.threads) ?_ h hms hrun
    intro s m s' hreach hm hst
    refine ⟨hreach.tail ⟨m, trivial, hst⟩, ?_⟩
    rcases Program.step_cases hst with ⟨a, sh, new, rfl, _⟩ | ⟨i, r, l, sh, l', _, hl, he, rfl⟩
    · cases hm
    · obtain ⟨p, hp, hs⟩ := Option.map_eq_some_iff.mp he
      cases hs
      have hi' : Inv s.shared.1 s.threads := inv_of_reachable hreach.of_logged
      exact hi'.work_lt hl (exec_step hp (hi'.knows hl))
  · intro hq l hl
    refine hi.rest ?_ hl
    intro i m hm
    cases hp : exec s.shared.1 i m () with
    | none => rfl
    | some p =>
      have hmove := hq i
      rw [show s = ⟨s.shared, s.threads⟩ from rfl,
        Program.logged_run (P := blockingQueue T) hm hp] at hmove
      cases hmove

/-- A `Take` that goes to sleep, is notified and gets what was put. -/
theorem blockingQueue_isQueue_wait :
    IsQueue (((blockingQueue Nat).logged effect).after (fun _ _ => true) ⟨(start Nat, []), []⟩
      [.env (.call .take), .run 0 (), .run 0 (), .run 0 (), .env (.call (.put 7)), .run 1 (),
       .run 1 (), .run 1 (), .run 1 (), .run 0 (), .run 0 (), .run 0 (), .run 0 (), .run 0 (),
       .run 0 ()]) :=
  blockingQueue_isQueue ((Program.reach_after (by decide)).mono fun _ _ _ => trivial)

end CiaServer.Tools.BlockingQueue
