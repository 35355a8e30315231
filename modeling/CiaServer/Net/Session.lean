import CiaServer.Net.ReaderInv

/-!
# A whole session (`cia_client.hpp`)

The reader of a session together with what its other handlers do: requests are
dealt with, sends complete, and a timer checks every 3 s how long nothing has
happened. Every completion handler is a thread, as in `Reader`, whose steps are
taken over for the handlers of reads (`Pc.read`).

Mirroring notes:
- Clock readings are microseconds of one clock that is never set back;
  `total_milliseconds` counts whole milliseconds.
- A send is counted from `async_send` to its completion. Which buffer it has,
  and that `do_write` may have to wait for one, is the writer's (`Writer`). A step
  that calls `do_write` never waits here, so what this says of a session that goes on
  holds of the source only where a buffer is free (`CallRequests` counts them).
- The timer's handler reads the clock and `m_update_time` in one step.
- `m_timeout_elapsed` is what the configuration delivered; at 0 no check is
  ever armed.
- The wait on `m_check_timeout_timer` completes without an error once it has
  expired, and with one at any time.
- `stop()` from a send or from the timer is the reader's `stopElsewhere`.

`heard`, `refreshed` and `callouts` are history: when something was last
received, when `m_update_time` was set for another reason, and what was given
to `cti_callout`. No step reads them.
-/

namespace CiaServer.Net.Session

open Wire Interleave
open Reader (Handler Request)

/-- `TIMEOUT_CHECK_ELAPSED`, in milliseconds. -/
def timeoutCheckElapsed : Nat := 3000

/-- `total_milliseconds()` of a number of microseconds. -/
def totalMilliseconds (d : Nat) : Nat := d / 1000

/-- A call handed to `cti_callout`, and `m_is_login` at that moment. -/
structure Callout where
  transId : Bytes
  authCode : Bytes
  pn : Bytes
  isLogin : Bool
  deriving DecidableEq, Repr

/-- A `cia_client` as its handlers share it. -/
structure Shared where
  reader : Reader.Session
  isLogin : Bool
  updateTime : Nat
  timeoutElapsed : Nat
  /-- The expiry of the pending wait on `m_check_timeout_timer`. -/
  checkTimeoutTimer : Option Nat
  /-- The `async_send`s that are not complete. -/
  sends : Nat
  now : Nat
  heard : Nat
  refreshed : List Nat
  callouts : List Callout
  deriving DecidableEq

/-- A completion handler, where it stands. -/
inductive Pc where
  /-- of a read, with `do_deal_request` up to the branch it takes -/
  | read (h : Handler)
  /-- in `do_deal_login_request`, its response under way -/
  | loginSent
  | onSend (ec : Bool)
  | onTimer (ec : Bool)
  /-- about to call `do_deal_heart_request` -/
  | heart
  /-- about to call `do_timeout_check` -/
  | check
  | done
  deriving DecidableEq

/-- What the rest of the world does. -/
inductive Event where
  /-- to the reads -/
  | read (e : Reader.Event)
  | tick (d : Nat)
  /-- A thread of the voice card calls `do_write`. -/
  | write
  | sent (ec : Bool)
  | timer (ec : Bool)
  deriving DecidableEq, Repr

namespace Shared

/-- `stop()`, called by a handler that is no reader's. -/
def stop (s : Shared) : Shared :=
  { s with
    reader := { s.reader with
      started := false
      stoppedElsewhere := s.reader.stoppedElsewhere || s.reader.started } }

/-- What a handler of a read leaves besides the reader's own fields. -/
def afterRead (s : Shared) (h : Handler) (reader : Reader.Session) : Shared :=
  match h with
  | .onHeader false => { s with reader, heard := s.now }
  | .onBody false => { s with reader, heard := s.now, updateTime := s.now }
  | _ => { s with reader }

/-- `m_update_time` is set, and not because something was received. -/
def refresh (s : Shared) : Shared :=
  { s with updateTime := s.now, refreshed := s.now :: s.refreshed }

/-- The expiry is set 3 s from now. -/
def doTimeoutCheck (s : Shared) : Shared :=
  if s.reader.started then
    { s with checkTimeoutTimer := some (s.now + 1000 * timeoutCheckElapsed) }
  else s

/-- More than `m_timeout_elapsed` milliseconds have passed since `t`. -/
def Overdue (s : Shared) (t : Nat) : Prop := s.timeoutElapsed < totalMilliseconds (s.now - t)

instance (s : Shared) (t : Nat) : Decidable (s.Overdue t) := inferInstanceAs (Decidable (_ < _))

end Shared

/-- What the peer, the operating system and the voice card do to a session. -/
def env (s : Shared) (n : Nat) : Event → Option (Shared × List Pc)
  -- the stops are steps of this program
  | .read .stopElsewhere => none
  | .read e => (Reader.env s.reader n e).map fun p => ({ s with reader := p.1 }, p.2.map .read)
  | .tick d => some ({ s with now := s.now + d }, [])
  | .write => some ({ s with sends := s.sends + 1 }, [])
  | .sent ec => if 0 < s.sends then some ({ s with sends := s.sends - 1 }, [.onSend ec]) else none
  | .timer ec =>
    match s.checkTimeoutTimer with
    | none => none
    | some expiry =>
      if ec = true ∨ expiry ≤ s.now then some ({ s with checkTimeoutTimer := none }, [.onTimer ec])
      else none

/-- The next step of a handler. -/
def exec (P : Protobuf) (o : ByteOrder) (s : Shared) (i : Nat) : Pc → Unit → Option (Shared × Pc)
  -- `do_deal_request` has parsed its copy
  | .read (.dealt _ .login), _ => some ({ s with sends := s.sends + 1 }, .loginSent)
  | .read (.dealt _ .heart), _ => some (s.refresh, .done)
  -- whether the peer has logged in is not asked
  | .read (.dealt _ (.callOut transId authCode pn)), _ =>
    some ({ s with callouts := { transId, authCode, pn, isLogin := s.isLogin } :: s.callouts }, .done)
  | .read (.dealt _ .ignored), _ => some (s, .done)
  | .read h, r =>
    (Reader.exec P o s.reader i h r).map fun p => (s.afterRead h p.1, .read p.2)
  | .loginSent, _ => some ({ s with isLogin := true }, .done)
  | .onSend true, _ => some (s.stop, .done)
  | .onSend false, _ => some (s.refresh, .done)
  | .onTimer true, _ => some (s.stop, .done)
  | .onTimer false, _ =>
    if s.Overdue s.updateTime then some (s.stop, .check)
    else if s.timeoutElapsed / 2 < totalMilliseconds (s.now - s.updateTime) then some (s, .heart)
    else some (s, .check)
  | .heart, _ => some ({ s with sends := s.sends + 1 }, .check)
  | .check, _ => some (s.doTimeoutCheck, .done)
  | .done, _ => none

/-- One session, as its handlers interleave. -/
def session (P : Protobuf) (o : ByteOrder) : Program Shared Pc Event Unit :=
  { env, exec := exec P o }

/-- `start()` at clock reading `now`. -/
def start (data : Buffer) (timeoutElapsed now : Nat) : Conf Shared Pc where
  shared :=
    let s : Shared :=
      { reader := (Reader.start data).shared
        isLogin := false
        updateTime := now
        timeoutElapsed
        checkTimeoutTimer := none
        sends := 0
        now
        heard := now
        refreshed := []
        callouts := [] }
    if timeoutElapsed ≠ 0 then s.doTimeoutCheck else s
  threads := []

/-! ## What a move does -/

/-- A move of the rest of the world, and the handler it starts. -/
inductive EnvStep (s : Shared) (n : Nat) : Event → Shared → List Pc → Prop where
  | read {e : Reader.Event} {reader : Reader.Session} {new : List Handler}
    (h : Reader.env s.reader n e = some (reader, new)) :
    EnvStep s n (.read e) { s with reader } (new.map .read)
  | tick {d : Nat} : EnvStep s n (.tick d) { s with now := s.now + d } []
  | write : EnvStep s n .write { s with sends := s.sends + 1 } []
  | sent {ec : Bool} (h : 0 < s.sends) :
    EnvStep s n (.sent ec) { s with sends := s.sends - 1 } [.onSend ec]
  | expired {expiry : Nat} {ec : Bool} (h : s.checkTimeoutTimer = some expiry)
    (hec : ec = true ∨ expiry ≤ s.now) :
    EnvStep s n (.timer ec) { s with checkTimeoutTimer := none } [.onTimer ec]

theorem env_step {s s' : Shared} {n : Nat} {e : Event} {new : List Pc}
    (h : env s n e = some (s', new)) : EnvStep s n e s' new := by
  unfold env at h
  split at h
  · cases h
  · obtain ⟨p, hp, hs⟩ := Option.map_eq_some_iff.mp h
    cases hs
    exact .read hp
  · cases h
    exact .tick
  · cases h
    exact .write
  · split at h <;> cases h
    next hs => exact .sent hs
  · split at h
    · cases h
    · next expiry he =>
      split at h <;> cases h
      next hec => exact .expired he hec

/-- A step of a handler. -/
inductive Step (P : Protobuf) (o : ByteOrder) (s : Shared) (i : Nat) : Pc → Shared → Pc → Prop where
  | read {h h' : Handler} {r : Unit} {reader : Reader.Session}
    (hstep : Reader.exec P o s.reader i h r = some (reader, h')) :
    Step P o s i (.read h) (s.afterRead h reader) (.read h')
  | login {body : Bytes} :
    Step P o s i (.read (.dealt body .login)) { s with sends := s.sends + 1 } .loginSent
  | heartResponse {body : Bytes} : Step P o s i (.read (.dealt body .heart)) s.refresh .done
  | callOut {body transId authCode pn : Bytes} :
    Step P o s i (.read (.dealt body (.callOut transId authCode pn)))
      { s with callouts := { transId, authCode, pn, isLogin := s.isLogin } :: s.callouts } .done
  | ignored {body : Bytes} : Step P o s i (.read (.dealt body .ignored)) s .done
  | loginSent : Step P o s i .loginSent { s with isLogin := true } .done
  | sendFailed : Step P o s i (.onSend true) s.stop .done
  | sendDone : Step P o s i (.onSend false) s.refresh .done
  | timerFailed : Step P o s i (.onTimer true) s.stop .done
  | timedOut (h : s.Overdue s.updateTime) : Step P o s i (.onTimer false) s.stop .check
  | quiet (h : ¬s.Overdue s.updateTime)
    (hh : s.timeoutElapsed / 2 < totalMilliseconds (s.now - s.updateTime)) :
    Step P o s i (.onTimer false) s .heart
  | busy (h : ¬s.Overdue s.updateTime)
    (hh : ¬s.timeoutElapsed / 2 < totalMilliseconds (s.now - s.updateTime)) :
    Step P o s i (.onTimer false) s .check
  | heart : Step P o s i .heart { s with sends := s.sends + 1 } .check
  | check : Step P o s i .check s.doTimeoutCheck .done

theorem exec_step {P : Protobuf} {o : ByteOrder} {s s' : Shared} {i : Nat} {l l' : Pc} {r : Unit}
    (h : exec P o s i l r = some (s', l')) : Step P o s i l s' l' := by
  unfold exec at h
  split at h
  · cases h
    exact .login
  · cases h
    exact .heartResponse
  · cases h
    exact .callOut
  · cases h
    exact .ignored
  · obtain ⟨p, hp, hs⟩ := Option.map_eq_some_iff.mp h
    cases hs
    exact .read hp
  · cases h
    exact .loginSent
  · cases h
    exact .sendFailed
  · cases h
    exact .sendDone
  · cases h
    exact .timerFailed
  · split at h
    · next ho =>
      cases h
      exact .timedOut ho
    · next ho =>
      split at h
      · next hh =>
        cases h
        exact .quiet ho hh
      · next hh =>
        cases h
        exact .busy ho hh
  · cases h
    exact .heart
  · cases h
    exact .check
  · cases h

end CiaServer.Net.Session
