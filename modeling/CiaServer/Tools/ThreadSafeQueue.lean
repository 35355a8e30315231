import CiaServer.Interleave.Fifo
import CiaServer.Interleave.Monitor

/-!
# `thread_safe_queue` (`tools/thread_safe_queue.hpp`)

`put`, `take` and `size` lock `_mutex`, work on `_container` and unlock it. Each
call is a thread; one step is one mutex operation or one operation on the
container, so that calls overlap in any way.

`threadSafeQueue_isQueue`: it is a FIFO queue all the same. The voice card
takes `put` and `take` to be one step each for that reason (`m_channel_queue`,
`m_sleep_channel_queue`).

Mirroring notes:
- `front()` and `pop()` of an empty `std::queue` are undefined (`undefined`).
- `take` unlocks before it throws `std::out_of_range`, which is the result
  `refused`.
-/

namespace CiaServer.Tools.ThreadSafeQueue

open Interleave

/-- A `thread_safe_queue`. -/
structure Shared (T : Type) where
  mutex : Bool
  container : List T
  /-- `front()` or `pop()` was called on an empty container. -/
  undefined : Bool
  deriving DecidableEq, Repr

/-- Where a call stands. -/
inductive Pc (T : Type) where
  | putLock (task : T)
  | push (task : T)
  | putUnlock (task : T)
  | takeLock
  /-- about to look whether the container is empty -/
  | takeSize
  /-- it is; about to unlock and throw -/
  | throw
  | front
  | pop (front : T)
  | takeUnlock (front : T)
  | sizeLock
  | size
  | sizeUnlock (size : Nat)
  | returned (op : QueueOp T) (res : QueueRes T)
  deriving DecidableEq, Repr

/-- A call is made. -/
def begin {T : Type} : QueueOp T → Pc T
  | .put task => .putLock task
  | .take => .takeLock
  | .size => .sizeLock

variable {T : Type}

/-- `_mutex.lock()`. -/
def lock (s : Shared T) (l : Pc T) : Option (Shared T × Pc T) :=
  if s.mutex then none else some ({ s with mutex := true }, l)

/-- `_mutex.unlock()`. -/
def unlock (s : Shared T) (l : Pc T) : Option (Shared T × Pc T) :=
  some ({ s with mutex := false }, l)

/-- The next step of a call. -/
def exec (s : Shared T) (_ : Nat) : Pc T → Unit → Option (Shared T × Pc T)
  | .putLock task, _ => lock s (.push task)
  | .push task, _ => some ({ s with container := s.container ++ [task] }, .putUnlock task)
  | .putUnlock task, _ => unlock s (.returned (.put task) .done)
  | .takeLock, _ => lock s .takeSize
  | .takeSize, _ => some (s, if s.container.length = 0 then .throw else .front)
  | .throw, _ => unlock s (.returned .take .refused)
  | .front, _ =>
    match s.container with
    | [] => some ({ s with undefined := true }, .front)
    | front :: _ => some (s, .pop front)
  | .pop front, _ =>
    match s.container with
    | [] => some ({ s with undefined := true }, .pop front)
    | _ :: rest => some ({ s with container := rest }, .takeUnlock front)
  | .takeUnlock front, _ => unlock s (.returned .take (.value front))
  | .sizeLock, _ => lock s .size
  | .size, _ => some (s, .sizeUnlock s.container.length)
  | .sizeUnlock size, _ => unlock s (.returned .size (.size size))
  | .returned _ _, _ => none

/-- Any thread calls any operation at any time. -/
def threadSafeQueue (T : Type) : Program (Shared T) (Pc T) (QueueOp T) Unit where
  env s _ op := some (s, [begin op])
  exec := exec

/-- An empty queue. -/
def start (T : Type) : Shared T := { mutex := false, container := [], undefined := false }

/-- What a queue can come to. -/
def Reachable (s : Conf (Shared T) (Pc T)) : Prop :=
  (threadSafeQueue T).Reach (fun _ _ => True) ⟨start T, []⟩ s

/-! ## The mutex -/

/-- Places where the call has `_mutex`. -/
def Pc.holds : Pc T → Bool
  | .putLock _ => false
  | .takeLock => false
  | .sizeLock => false
  | .returned _ _ => false
  | _ => true

/-- What the call that has `_mutex` knows of the container. -/
def Pc.Knows (q : List T) : Pc T → Prop
  | .throw => q = []
  | .front => q ≠ []
  | .pop task => ∃ rest, q = task :: rest
  | _ => True

/-- Everything a step does. -/
theorem exec_lock {s s' : Shared T} {i : Nat} {l l' : Pc T} {r : Unit}
    (h : exec s i l r = some (s', l')) (hk : l.Knows s.container) :
    LockStep Pc.holds s.mutex l s'.mutex l' ∧ (l.holds = false → s'.container = s.container) ∧
      l'.Knows s'.container ∧ s'.undefined = s.undefined := by
  have hlock : ∀ {m : Pc T}, l.holds = false → m.holds = true → m.Knows s.container →
      lock s m = some (s', l') → LockStep Pc.holds s.mutex l s'.mutex l' ∧
        (l.holds = false → s'.container = s.container) ∧ l'.Knows s'.container ∧
        s'.undefined = s.undefined := by
    intro m hl hm hkm he
    unfold lock at he
    split at he
    · cases he
    · next hfree =>
      cases he
      exact ⟨.acquire hl hm (Bool.eq_false_iff.mpr hfree) rfl, fun _ => rfl, hkm, rfl⟩
  have hunlock : ∀ {op : QueueOp T} {res : QueueRes T}, l.holds = true →
      unlock s (.returned op res) = some (s', l') → LockStep Pc.holds s.mutex l s'.mutex l' ∧
        (l.holds = false → s'.container = s.container) ∧ l'.Knows s'.container ∧
        s'.undefined = s.undefined := by
    intro op res hl he
    cases he
    exact ⟨.release hl rfl rfl, fun _ => rfl, trivial, rfl⟩
  cases l with
  | putLock task => exact hlock (m := .push task) rfl rfl trivial h
  | takeLock => exact hlock (m := .takeSize) rfl rfl trivial h
  | sizeLock => exact hlock (m := .size) rfl rfl trivial h
  | putUnlock task => exact hunlock rfl h
  | throw => exact hunlock rfl h
  | takeUnlock front => exact hunlock rfl h
  | sizeUnlock n => exact hunlock rfl h
  | push task =>
    cases h
    exact ⟨.inside rfl rfl rfl, nofun, trivial, rfl⟩
  | takeSize =>
    cases h
    split
    · next he => exact ⟨.inside rfl rfl rfl, nofun, List.length_eq_zero_iff.mp he, rfl⟩
    · next he =>
      exact ⟨.inside rfl rfl rfl, nofun, fun hn => he (List.length_eq_zero_iff.mpr hn), rfl⟩
  | front =>
    simp only [exec] at h
    split at h
    · next hn => exact absurd hn hk
    · next front rest hq =>
      cases h
      exact ⟨.inside rfl rfl rfl, nofun, ⟨rest, hq⟩, rfl⟩
  | pop front =>
    obtain ⟨rest, hq⟩ := hk
    simp only [exec, hq] at h
    cases h
    exact ⟨.inside rfl rfl rfl, nofun, trivial, rfl⟩
  | size =>
    cases h
    exact ⟨.inside rfl rfl rfl, nofun, trivial, rfl⟩
  | returned op res => cases h

/-- One call at a time works on the container, and it never asks an empty one. -/
structure Inv (s : Shared T) (ts : List (Pc T)) : Prop where
  monitor : MonitorInv Pc.holds (fun q l => l.Knows q) s.mutex s.container ts
  defined : s.undefined = false

theorem begin_free (op : QueueOp T) : (begin op).holds = false := by
  cases op <;> rfl

theorem knows_of_free {q : List T} {l : Pc T} (h : l.holds = false) : l.Knows q := by
  cases l with
  | throw => cases h
  | front => cases h
  | pop front => cases h
  | _ => exact trivial

/-- A call in the queue's code knows what its place says. -/
theorem Inv.knows {s : Shared T} {ts : List (Pc T)} (hi : Inv s ts) {i : Nat} {l : Pc T}
    (hl : ts[i]? = some l) : l.Knows s.container := by
  cases hh : l.holds with
  | true => exact hi.monitor.knows l (List.mem_of_getElem? hl) hh
  | false => exact knows_of_free hh

theorem inv_of_reachable {s : Conf (Shared T) (Pc T)} (h : Reachable s) :
    Inv s.shared s.threads := by
  refine Program.Reach.rule (I := Inv) ⟨⟨rfl, fun _ hl => absurd hl List.not_mem_nil⟩, rfl⟩ ?_ ?_ h
  · intro sh ts op sh' new _ hi _ he
    cases he
    refine ⟨hi.monitor.append ?_, hi.defined⟩
    intro l hl
    rw [List.mem_singleton.mp hl]
    exact begin_free op
  · intro sh ts i l r sh' l' _ hi _ hl he
    obtain ⟨hlock, hdata, hk', hu⟩ := exec_lock (i := i) he (hi.knows hl)
    exact ⟨hi.monitor.step hl hlock hdata fun _ => hk', hu.trans hi.defined⟩

/-! ## The queue it is -/

/-- How far a call is. -/
def Pc.call : Pc T → Call (QueueOp T) (QueueRes T)
  | .putLock task => .pending (.put task)
  | .push task => .pending (.put task)
  | .putUnlock task => .effected (.put task) .done
  | .takeLock => .pending .take
  | .takeSize => .pending .take
  | .throw => .effected .take .refused
  | .front => .pending .take
  | .pop _ => .pending .take
  | .takeUnlock task => .effected .take (.value task)
  | .sizeLock => .pending .size
  | .size => .pending .size
  | .sizeUnlock n => .effected .size (.size n)
  | .returned op res => .returned op res

/-- The effect of a step: `push`, `pop`, and looking at the size. -/
def effect (s : Shared T) (i : Nat) : Pc T → Option (Effect (QueueOp T) (QueueRes T))
  | .push task => some { call := i, op := .put task, res := .done }
  | .takeSize =>
    if s.container.length = 0 then some { call := i, op := .take, res := .refused } else none
  | .pop task => some { call := i, op := .take, res := .value task }
  | .size => some { call := i, op := .size, res := .size s.container.length }
  | _ => none

/-- Every step is the effect of its call, or has none. -/
theorem exec_commit {s s' : Shared T} {i : Nat} {l l' : Pc T} {r : Unit}
    (h : exec s i l r = some (s', l')) (hk : l.Knows s.container) :
    Program.CommitStep (fifo true) Pc.call s.container i l (effect s i l) s'.container l' := by
  have hlock : ∀ {m : Pc T}, effect s i l = none → m.call.effect i = l.call.effect i →
      lock s m = some (s', l') →
      Program.CommitStep (fifo true) Pc.call s.container i l (effect s i l) s'.container l' := by
    intro m heff hv he
    unfold lock at he
    split at he <;> cases he
    exact .silent heff rfl hv
  cases l with
  | putLock task => exact hlock (m := .push task) rfl rfl h
  | takeLock => exact hlock (m := .takeSize) rfl rfl h
  | sizeLock => exact hlock (m := .size) rfl rfl h
  | push task =>
    cases h
    exact .commit rfl rfl rfl rfl
  | takeSize =>
    cases h
    by_cases he : s.container.length = 0
    · have hnil := List.length_eq_zero_iff.mp he
      have heff : effect s i .takeSize =
          some { call := i, op := .take, res := .refused } := if_pos he
      rw [if_pos he]
      refine .commit heff rfl ?_ rfl
      rw [hnil]
      rfl
    · rw [if_neg he]
      exact .silent (if_neg he) rfl rfl
  | front =>
    simp only [exec] at h
    split at h <;> cases h <;> exact .silent rfl rfl rfl
  | pop task =>
    obtain ⟨rest, hq⟩ := hk
    simp only [exec, hq] at h
    cases h
    refine .commit rfl rfl ?_ rfl
    rw [hq]
    rfl
  | size =>
    cases h
    exact .commit rfl rfl rfl rfl
  | returned op res => cases h
  | _ =>
    cases h
    exact .silent rfl rfl rfl

theorem call_begin (op : QueueOp T) (i : Nat) : (begin op).call.effect i = none := by
  cases op <;> rfl

/-- What a queue with its effects noted can come to. -/
def LoggedReachable (s : Conf (Shared T × List (Effect (QueueOp T) (QueueRes T))) (Pc T)) : Prop :=
  ((threadSafeQueue T).logged effect).Reach (fun _ _ => True) ⟨(start T, []), []⟩ s

/-! ## Every call returns -/

/-- How many steps a call has before it. -/
def Pc.work : Pc T → Nat
  | .putLock _ => 3
  | .push _ => 2
  | .putUnlock _ => 1
  | .takeLock => 5
  | .takeSize => 4
  | .front => 3
  | .pop _ => 2
  | .takeUnlock _ => 1
  | .throw => 1
  | .sizeLock => 3
  | .size => 2
  | .sizeUnlock _ => 1
  | .returned _ _ => 0

theorem exec_work {s s' : Shared T} {i : Nat} {l l' : Pc T} {r : Unit}
    (h : exec s i l r = some (s', l')) (hk : l.Knows s.container) : l'.work < l.work := by
  have hlock : ∀ {m : Pc T}, m.work < l.work → lock s m = some (s', l') → l'.work < l.work := by
    intro m hw he
    unfold lock at he
    split at he <;> cases he
    exact hw
  cases l with
  | putLock task => exact hlock (m := .push task) (by show 2 < 3; omega) h
  | takeLock => exact hlock (m := .takeSize) (by show 4 < 5; omega) h
  | sizeLock => exact hlock (m := .size) (by show 2 < 3; omega) h
  | takeSize =>
    cases h
    split
    · show 1 < 4
      omega
    · show 3 < 4
      omega
  | front =>
    simp only [exec] at h
    split at h
    · next hn => exact absurd hn hk
    · cases h
      show 2 < 3
      omega
  | pop task =>
    obtain ⟨rest, hq⟩ := hk
    simp only [exec, hq] at h
    cases h
    show 1 < 2
    omega
  | push task =>
    cases h
    show 1 < 2
    omega
  | size =>
    cases h
    show 1 < 2
    omega
  | returned op res => cases h
  | _ =>
    cases h
    exact Nat.one_pos

/-- A call that has the mutex, or can get it, can go on. -/
theorem exec_isSome {s : Shared T} (i : Nat) {l : Pc T} (hl : ∀ op res, l ≠ .returned op res)
    (hm : s.mutex = true → l.holds = true) : ∃ p, exec s i l () = some p := by
  have hlock : ∀ m : Pc T, l.holds = false → ∃ p, lock s m = some p := by
    intro m hh
    refine ⟨_, if_neg ?_⟩
    intro hmutex
    rw [hm hmutex] at hh
    cases hh
  cases l with
  | putLock task => exact hlock (.push task) rfl
  | takeLock => exact hlock .takeSize rfl
  | sizeLock => exact hlock .size rfl
  | front =>
    simp only [exec]
    split <;> exact ⟨_, rfl⟩
  | pop task =>
    simp only [exec]
    split <;> exact ⟨_, rfl⟩
  | returned op res => exact absurd rfl (hl op res)
  | _ => exact ⟨_, rfl⟩

/-- While a call has not returned, one can go on. -/
theorem Inv.exists_exec {s : Shared T} {ts : List (Pc T)} (hi : Inv s ts) {l : Pc T} (hl : l ∈ ts)
    (hr : ∀ op res, l ≠ .returned op res) :
    ∃ i m p, ts[i]? = some m ∧ exec s i m () = some p := by
  cases hm : s.mutex with
  | false =>
    obtain ⟨i, hi⟩ := List.mem_iff_getElem?.mp hl
    obtain ⟨p, hp⟩ := exec_isSome i hr fun h => by rw [hm] at h; cases h
    exact ⟨i, l, p, hi, hp⟩
  | true =>
    -- the one that has the mutex
    obtain ⟨m, hmem, hh⟩ := hi.monitor.exists_holder hm
    obtain ⟨i, hi⟩ := List.mem_iff_getElem?.mp hmem
    have hne : ∀ op res, m ≠ .returned op res := by
      rintro op res rfl
      cases hh
    obtain ⟨p, hp⟩ := exec_isSome i hne fun _ => hh
    exact ⟨i, m, p, hi, hp⟩

/-- How many steps all calls have before them. -/
def work (ts : List (Pc T)) : Nat := (ts.map Pc.work).sum

/-! ## The queue -/

variable [DecidableEq T]

/-- What a `thread_safe_queue` is. -/
structure IsQueue (s : Conf (Shared T × List (Effect (QueueOp T) (QueueRes T))) (Pc T)) : Prop where
  /-- The container is never asked for what it has not. -/
  defined : s.shared.1.undefined = false
  /-- The calls have their effects one after the other, each between its beginning and its
  end. -/
  linearized : Linearized (fifo true) [] s.shared.2 s.shared.1.container (s.threads.map Pc.call)
  /-- That order is the order of the calls, where they do not overlap. -/
  ordered : Program.KeepsOrder (threadSafeQueue T) effect Pc.call s
  /-- What was put has been taken, in this order, or is there. -/
  inOrder : s.shared.2.filterMap Effect.put? =
    s.shared.2.filterMap Effect.taken? ++ s.shared.1.container
  /-- While a call has not returned, one can go on … -/
  live : ∀ l ∈ s.threads, (∀ op res, l ≠ .returned op res) →
    ∃ i s', ((threadSafeQueue T).logged effect).step s (.run i ()) = some s'
  /-- … and not for ever: without new calls, all come to return. -/
  ends : ∀ ms s', (∀ m ∈ ms, m.isRun = true) →
    ((threadSafeQueue T).logged effect).run (fun _ _ => true) s ms = some s' →
    ms.length ≤ work s.threads

/-- **`thread_safe_queue` is a FIFO queue**, for any number of calls that overlap in any
way; and its mutex is always given back. -/
theorem threadSafeQueue_isQueue {s : Conf (Shared T × List (Effect (QueueOp T) (QueueRes T))) (Pc T)}
    (h : LoggedReachable s) : IsQueue s := by
  have hi : Inv s.shared.1 s.threads := inv_of_reachable h.of_logged
  have hlin : Linearized (fifo true) [] s.shared.2 s.shared.1.container
      (s.threads.map Pc.call) := by
    refine Program.linearized (P := threadSafeQueue T) Shared.container (start T) ?_ ?_ h
    · intro sh ts op sh' new he
      cases he
      refine ⟨rfl, fun l hl i => ?_⟩
      rw [List.mem_singleton.mp hl]
      exact call_begin op i
    · intro sh ts i l r sh' l' hreach hl he
      exact exec_commit he ((inv_of_reachable hreach).knows hl)
  refine ⟨hi.defined, hlin, Program.keepsOrder hlin, puts_eq hlin.legal, ?_, ?_⟩
  · intro l hl hr
    obtain ⟨i, m, p, hm, hp⟩ := hi.exists_exec hl hr
    exact ⟨i, _, Program.logged_run hm hp⟩
  · intro ms s' hms hrun
    refine Program.length_le_of_run (I := LoggedReachable) Move.isRun (fun s => work s.threads)
      ?_ h hms hrun
    intro s m s' hreach hm hst
    refine ⟨hreach.tail ⟨m, trivial, hst⟩, ?_⟩
    rcases Program.step_cases hst with ⟨a, sh, new, rfl, _⟩ | ⟨i, r, l, sh, l', _, hl, he, rfl⟩
    · cases hm
    · obtain ⟨p, hp, hs⟩ := Option.map_eq_some_iff.mp he
      cases hs
      have hk := (inv_of_reachable hreach.of_logged).knows hl
      exact sum_map_set_lt Pc.work hl (exec_work (i := i) hp hk)

/-- A `take` that begins before a `put` and gets what it puts. -/
theorem threadSafeQueue_isQueue_overlap :
    IsQueue (((threadSafeQueue Nat).logged effect).after (fun _ _ => true) ⟨(start Nat, []), []⟩
      [.env .take, .env (.put 7), .run 1 (), .run 1 (), .run 1 (), .run 0 (), .run 0 (), .run 0 (),
       .run 0 (), .run 0 ()]) :=
  threadSafeQueue_isQueue ((Program.reach_after (by decide)).mono fun _ _ _ => trivial)

end CiaServer.Tools.ThreadSafeQueue
