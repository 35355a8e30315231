import CiaServer.Interleave.Program
import CiaServer.Cti.Trunk

/-!
# The voice card as interleaving threads (`voice_card_control.hpp`)

`voice_card_control` is a shared state (the trunks, the queue of free
channels, the queue of channels to hang up later, the requests waiting on
their retry timers) and the threads that work on it: any number of
`cti_callout` calls and driver callbacks, the `timeout_check` thread and the
`deal_hungup_strategy` threads. This file is its step relation. A `Pc` says
where a thread stands; one step of a thread is one queue operation, one mutex
operation, one driver call, or the straight-line code between two of these.

Mirroring notes:
- Each function of the source is one inductive of program points (`CalloutPc`
  … `StrategyPc`) and one `exec…` function, in the order of its statements.
  `cti_hangUp` is one function with three callers; `Caller` is the return
  address.
- The result of a driver call (`SsmAutoDial`, `SsmHangup`) is the outside
  result `r` of the step. `SsmChkAutoDial`, `SsmSetTxCallerId` and
  `SsmGetAutoDialFailureReason` return values that only reach the log, so
  they are not steps. Log output is not modelled.
- `t->m_client_socket->do_write(..)` through a null pointer and an exception
  that leaves a thread end the process: `crashed` stops every move.
- `do_write` is one step, the response written (`respond`). That it may wait for a
  buffer of the client is left out: which threads that holds up, and with which trunk
  locked, is in `Progress`, and nothing else here says that a thread goes on.
- An index is the `size_t` an `int` converts to; `m_trunk_vector.at` is
  `trunkVector[c]?`, and `none` is the `std::out_of_range` it throws.
- `sleep_for(d)` ends at some moment not before `d` has passed.

`calls` and `log` are history: which request a trunk was filled for, and what
happened in which order (newest first). No step reads them.
-/

namespace CiaServer.Cti

open Interleave (Conf Program Move tok tokens)

/-- The settings `voice_card_control` takes from `config_server`. -/
structure Config where
  numChannelCount : Nat
  timeoutElapse : Nat
  useStrategy : Bool
  ctiWarningElapse : Nat
  ctiSleepingElapse : Nat
  deriving Repr

/-- The progress values of an `E_PROC_AutoDial` event (`dwParam`). -/
inductive DialResult where
  | standby
  | dialing
  | echotone
  | noDialtone
  | busytone
  | echoNovoice
  | novoice
  | voice
  | voicef1
  | voicef2
  | noanswer
  | failure
  | invalidPhonum
  | sessionProceeding
  | isdnProgress
  | other (dwParam : Nat)
  deriving DecidableEq, Repr

/-- The driver events `cti_callback` distinguishes (`wEvent`). -/
inductive CardEvent where
  | sysNoSound
  | rcvSs7Msu
  | sysBargeIn
  | procAutoDial
  | rcvSs7IsupCpg
  | chgChState
  | chgMtp2Status
  | chgPcmLinkStatus
  | other (wEvent : Nat)
  deriving DecidableEq, Repr

/-- A `CIA_CALL_RESPONSE` as it is written to a client. -/
structure Response where
  client : Client
  transId : Bytes
  status : Bytes
  deriving DecidableEq, Repr

/-- What happened, for the history. -/
inductive Obs where
  /-- `SsmAutoDial(c)` returned 0 for request `x`. -/
  | dialled (x c : Nat)
  /-- Request `x` was written into trunk `c`. -/
  | recorded (x c now : Nat)
  /-- The driver called back on channel `c`, in thread `i`. -/
  | delivered (i c : Nat) (dw : DialResult)
  /-- The callback in thread `i` ran to completion. -/
  | returned (i now : Nat)
  /-- A response was written, for the request that was on the trunk. -/
  | response (req : Option Nat) (r : Response)
  deriving DecidableEq, Repr

/-- Everything the threads share. -/
structure Shared where
  channelQueue : List Nat
  sleepChannelQueue : List Nat
  trunkVector : List Trunk
  /-- The `cti_call_out_param` objects; a request is an index. -/
  params : List CallOutParam
  /-- The requests with a pending `async_wait` on their retry timer. -/
  waits : List Nat
  now : Nat
  crashed : Bool
  calls : List (Option Nat)
  log : List Obs
  deriving DecidableEq, Repr

/-! ## Program points -/

/-- `cti_callout` and `cti_callout_again`. -/
inductive CalloutPc where
  /-- about to take a channel -/
  | take
  /-- about to call `SsmAutoDial` -/
  | dial (c : Nat)
  /-- dialled; about to `try_lock` the trunk -/
  | lock (c : Nat)
  /-- holds the trunk; about to fill it in -/
  | fill (c : Nat)
  | unlock (c : Nat)
  /-- not dialled; about to put the channel back -/
  | put (c : Nat)
  /-- not dialled, channel returned -/
  | failed
  /-- in `cti_callout_again` -/
  | again
  deriving DecidableEq, Repr

/-- `cti_hangUp`. -/
inductive HangUpPc where
  | lock
  /-- holds the trunk; about to look at the flag and the step -/
  | check
  /-- about to call `SsmHangup` -/
  | driver
  /-- about to write the response and release the trunk -/
  | answer (retVal : Int)
  /-- about to put the channel back, the trunk still locked -/
  | put (retVal : Int)
  | unlock (retVal : Int)
  deriving DecidableEq, Repr

/-- `deal_e_proc_auto_dial`. -/
inductive AutoDialPc where
  | enter (dw : DialResult)
  /-- early ring: about to `try_lock` before `TRK_SLEEP` -/
  | lock
  | setSleep
  /-- about to put the channel into the sleep queue; the lock, if it was got,
  is kept until the function returns -/
  | put (locked : Bool)
  | unlock
  deriving DecidableEq, Repr

/-- `timeout_check`. -/
inductive TimeoutPc where
  | sleep (till : Nat)
  /-- at the head of the loop body for trunk `i` -/
  | look (i : Nat)
  | lock (i : Nat)
  | setFlag (i : Nat)
  | unlock (i : Nat)
  deriving DecidableEq, Repr

/-- `deal_hungup_strategy`. -/
inductive StrategyPc where
  | take
  | pause (till : Nat)
  | lock (c : Nat)
  /-- holds the trunk; about to compute the sleeping time -/
  | sleep (c : Nat)
  /-- sleeps with the trunk locked -/
  | wake (c till : Nat)
  | unlock (c : Nat)
  deriving DecidableEq, Repr

/-- Where `cti_hangUp` returns to. -/
inductive Caller where
  | callback
  | timeoutCheck (i : Nat)
  | strategy
  deriving DecidableEq, Repr

/-- Where a thread stands. -/
inductive Pc where
  | callout (x : Nat) (p : CalloutPc)
  | hangUp (k : Caller) (channelID : Nat) (status : Bytes) (p : HangUpPc)
  | autoDial (channelID : Nat) (p : AutoDialPc)
  | timeoutCheck (p : TimeoutPc)
  | strategy (p : StrategyPc)
  /-- `cti_callback` about to return 1 -/
  | ret
  | done
  deriving DecidableEq, Repr

/-! ## Operations on the shared state -/

def Shared.modifyTrunk (sh : Shared) (c : Nat) (f : Trunk → Trunk) : Shared :=
  { sh with trunkVector := sh.trunkVector.modify c f }

def Shared.note (sh : Shared) (o : Obs) : Shared := { sh with log := o :: sh.log }

/-- `do_write` of a `CIA_CALL_RESPONSE`. -/
def Shared.respond (sh : Shared) (req : Option Nat) (r : Response) : Shared :=
  sh.note (.response req r)

section
variable (sh : Shared) (c : Nat) (f : Trunk → Trunk) (o : Obs)

@[simp] theorem Shared.modifyTrunk_channelQueue :
    (sh.modifyTrunk c f).channelQueue = sh.channelQueue := rfl
@[simp] theorem Shared.modifyTrunk_sleepChannelQueue :
    (sh.modifyTrunk c f).sleepChannelQueue = sh.sleepChannelQueue := rfl
@[simp] theorem Shared.modifyTrunk_params : (sh.modifyTrunk c f).params = sh.params := rfl
@[simp] theorem Shared.modifyTrunk_waits : (sh.modifyTrunk c f).waits = sh.waits := rfl
@[simp] theorem Shared.modifyTrunk_crashed : (sh.modifyTrunk c f).crashed = sh.crashed := rfl
@[simp] theorem Shared.modifyTrunk_calls : (sh.modifyTrunk c f).calls = sh.calls := rfl
@[simp] theorem Shared.modifyTrunk_log : (sh.modifyTrunk c f).log = sh.log := rfl
@[simp] theorem Shared.modifyTrunk_trunkVector :
    (sh.modifyTrunk c f).trunkVector = sh.trunkVector.modify c f := rfl
@[simp] theorem Shared.note_channelQueue : (sh.note o).channelQueue = sh.channelQueue := rfl
@[simp] theorem Shared.note_sleepChannelQueue :
    (sh.note o).sleepChannelQueue = sh.sleepChannelQueue := rfl
@[simp] theorem Shared.note_trunkVector : (sh.note o).trunkVector = sh.trunkVector := rfl
@[simp] theorem Shared.note_params : (sh.note o).params = sh.params := rfl
@[simp] theorem Shared.note_waits : (sh.note o).waits = sh.waits := rfl
@[simp] theorem Shared.note_crashed : (sh.note o).crashed = sh.crashed := rfl
@[simp] theorem Shared.note_calls : (sh.note o).calls = sh.calls := rfl
@[simp] theorem Shared.note_log : (sh.note o).log = o :: sh.log := rfl
@[simp] theorem Shared.respond_eq (req : Option Nat) (r : Response) :
    sh.respond req r = sh.note (.response req r) := rfl

end

/-- The response `cti_callout` itself gives to a request. -/
def CallOutParam.response (p : CallOutParam) (status : Bytes) : Response :=
  { client := p.baseClient, transId := p.transId, status }

/-- The request trunk `c` was last filled for, while it is not released. -/
def Shared.callOn (sh : Shared) (c : Nat) : Option Nat := sh.calls[c]?.getD none

/-- `get_idol_channel_number`. -/
def Shared.getIdolChannelNumber (sh : Shared) : Nat := sh.channelQueue.length

/-! ## The steps of a thread -/

/-- `cti_callout` and `cti_callout_again`, for request `x`. -/
def execCallout (sh : Shared) (x : Nat) (r : Int) : CalloutPc → Option (Shared × Pc)
  | .take =>
    match sh.channelQueue with
    -- `std::out_of_range`: every channel is busy
    | [] => some (sh, .callout x .again)
    | c :: rest => some ({ sh with channelQueue := rest }, .callout x (.dial c))
  | .dial c =>
    if r = 0 then some (sh.note (.dialled x c), .callout x (.lock c))
    else some (sh, .callout x (.put c))
  | .lock c =>
    match sh.trunkVector[c]? with
    | none => some ({ sh with crashed := true }, .done)
    | some t =>
      -- the busy branch only logs: neither the channel nor the request is kept
      if t.trunkMutex then some (sh, .done)
      else some (sh.modifyTrunk c (.setMutex true), .callout x (.fill c))
  | .fill c =>
    match sh.params[x]? with
    | none => none
    | some p =>
      some (({ sh with calls := sh.calls.set c (some x) }.modifyTrunk c (.fill p sh.now)).note
        (.recorded x c sh.now), .callout x (.unlock c))
  | .unlock c => some (sh.modifyTrunk c (.setMutex false), .done)
  | .put c =>
    some ({ sh with channelQueue := sh.channelQueue ++ [c] }, .callout x .failed)
  | .failed =>
    match sh.params[x]? with
    | none => none
    | some p =>
      -- a first failed dial is tried once more, the second one is answered
      if p.repeatCallOut then
        some ({ sh with params := sh.params.set x { p with repeatCallOut := false } },
          .callout x .again)
      else some (sh.respond (some x) (p.response ciaCallFail), .done)
  | .again =>
    match sh.params[x]? with
    | none => none
    | some p =>
      if 25000 < p.elapsed sh.now then
        some (sh.respond (some x) (p.response ciaCallTimeout), .done)
      else
        some ({ sh with params := sh.params.set x (p.armTimer sh.now), waits := sh.waits ++ [x] },
          .done)

/-- Where the caller of `cti_hangUp` goes on. -/
def Caller.resume : Caller → Pc
  | .callback => .ret
  | .timeoutCheck i => .timeoutCheck (.look (i + 1))
  | .strategy => .strategy .take

/-- An exception out of `cti_hangUp`: `cti_callback` catches it, the two
thread functions do not. -/
def Caller.raise (sh : Shared) : Caller → Shared × Pc
  | .callback => (sh, .ret)
  | .timeoutCheck _ => ({ sh with crashed := true }, .done)
  | .strategy => ({ sh with crashed := true }, .done)

/-- The two reasons for which `cti_hangUp` leaves a locked trunk alone, besides
the flag: it is idle, or it is waiting for its delayed hang-up. -/
def Trunk.refusesHangUp (t : Trunk) : Bool :=
  !t.hungupByEchoTone || t.step == .idle || t.step == .sleep

/-- `cti_hangUp(channelID, status)`. -/
def execHangUp (sh : Shared) (k : Caller) (c : Nat) (status : Bytes) (r : Int) :
    HangUpPc → Option (Shared × Pc)
  | .lock =>
    match sh.trunkVector[c]? with
    | none => some (k.raise sh)
    | some t =>
      -- another thread works on the trunk: the hang-up is given up, not retried
      if t.trunkMutex then some (sh, k.resume)
      else some (sh.modifyTrunk c (.setMutex true), .hangUp k c status .check)
  | .check =>
    match sh.trunkVector[c]? with
    | none => none
    | some t =>
      if t.refusesHangUp then some (sh, .hangUp k c status (.unlock (-1)))
      else some (sh, .hangUp k c status .driver)
  | .driver => some (sh, .hangUp k c status (.answer r))
  | .answer retVal =>
    match sh.trunkVector[c]? with
    | none => none
    | some t =>
      match t.clientSocket with
      -- `do_write` through the null pointer
      | none => some ({ sh with crashed := true }, .hangUp k c status (.answer retVal))
      | some client =>
        some (({ sh with calls := sh.calls.set c none }.modifyTrunk c (.realseTrunk sh.now)).respond
          (sh.callOn c) { client, transId := t.transId, status }, .hangUp k c status (.put retVal))
  | .put retVal =>
    some ({ sh with channelQueue := sh.channelQueue ++ [c] }, .hangUp k c status (.unlock retVal))
  | .unlock _ => some (sh.modifyTrunk c (.setMutex false), k.resume)

/-- The `switch` of `deal_e_proc_auto_dial` on channel `c`, whose call has age
`elapsed`. -/
def dealAutoDial (cfg : Config) (elapsed c : Nat) : DialResult → Pc
  | .echotone =>
    if cfg.useStrategy && elapsed ≤ cfg.ctiWarningElapse then .autoDial c .lock
    else .hangUp .callback c ciaCallSuccess .lock
  | .busytone => .hangUp .callback c ciaCallSuccess .lock
  | .voice => .hangUp .callback c ciaCallSuccess .lock
  | .voicef1 => .hangUp .callback c ciaCallSuccess .lock
  | .voicef2 => .hangUp .callback c ciaCallSuccess .lock
  | .noDialtone => .hangUp .callback c ciaCallFail .lock
  | .noanswer => .hangUp .callback c ciaCallFail .lock
  | .failure => .hangUp .callback c ciaCallFail .lock
  | .invalidPhonum => .hangUp .callback c ciaCallFail .lock
  | .standby => .ret
  | .dialing => .ret
  | .echoNovoice => .ret
  | .novoice => .ret
  | .sessionProceeding => .ret
  | .isdnProgress => .ret
  | .other _ => .ret

/-- `deal_e_proc_auto_dial`. With an index outside the vector every branch that
would change something throws first, and `cti_callback` returns. -/
def execAutoDial (cfg : Config) (sh : Shared) (c : Nat) : AutoDialPc → Option (Shared × Pc)
  | .enter dw =>
    match sh.trunkVector[c]? with
    | none => some (sh, .ret)
    | some t => some (sh, dealAutoDial cfg (t.elapsed sh.now) c dw)
  | .lock =>
    match sh.trunkVector[c]? with
    | none => none
    | some t =>
      -- without the lock only the mark is missing: the channel is queued all the same
      if t.trunkMutex then some (sh, .autoDial c (.put false))
      else some (sh.modifyTrunk c (.setMutex true), .autoDial c .setSleep)
  -- whatever the trunk's step was
  | .setSleep => some (sh.modifyTrunk c (.setStep .sleep), .autoDial c (.put true))
  | .put locked =>
    some ({ sh with sleepChannelQueue := sh.sleepChannelQueue ++ [c] },
      if locked then .autoDial c .unlock else .ret)
  | .unlock => some (sh.modifyTrunk c (.setMutex false), .ret)

/-- `timeout_check`. -/
def execTimeoutCheck (cfg : Config) (sh : Shared) : TimeoutPc → Option (Shared × Pc)
  | .sleep till => if till ≤ sh.now then some (sh, .timeoutCheck (.look 0)) else none
  | .look i =>
    match sh.trunkVector[i]? with
    | none => some (sh, .timeoutCheck (.sleep (sh.now + 500)))
    | some t =>
      -- both fields are read without the mutex
      if t.step ≠ .idle ∧ cfg.timeoutElapse ≤ t.elapsed sh.now then
        if t.hungupByEchoTone then some (sh, .hangUp (.timeoutCheck i) i ciaCallFail .lock)
        else some (sh, .timeoutCheck (.lock i))
      else some (sh, .timeoutCheck (.look (i + 1)))
  | .lock i =>
    match sh.trunkVector[i]? with
    | none => none
    | some t =>
      if t.trunkMutex then some (sh, .timeoutCheck (.look (i + 1)))
      else some (sh.modifyTrunk i (.setMutex true), .timeoutCheck (.setFlag i))
  | .setFlag i =>
    some (sh.modifyTrunk i (fun t => { t with hungupByEchoTone := true }),
      .timeoutCheck (.unlock i))
  | .unlock i =>
    some (sh.modifyTrunk i (.setMutex false), .hangUp (.timeoutCheck i) i ciaCallFail .lock)

/-- `deal_hungup_strategy`. -/
def execStrategy (cfg : Config) (sh : Shared) : StrategyPc → Option (Shared × Pc)
  | .take =>
    match sh.sleepChannelQueue with
    | [] => some (sh, .strategy (.pause (sh.now + 100)))
    | c :: rest => some ({ sh with sleepChannelQueue := rest }, .strategy (.lock c))
  | .pause till => if till ≤ sh.now then some (sh, .strategy .take) else none
  | .lock c =>
    match sh.trunkVector[c]? with
    | none => some ({ sh with crashed := true }, .done)
    | some t =>
      -- `m_trunk_mutex.lock()` waits
      if t.trunkMutex then none
      else some (sh.modifyTrunk c (.setMutex true), .strategy (.sleep c))
  | .sleep c =>
    match sh.trunkVector[c]? with
    | none => none
    | some t =>
      some (sh, .strategy (.wake c
        (sh.now + (sleepingElapse 64 cfg.ctiSleepingElapse (t.elapsed sh.now)).toNat)))
  -- as above, the old step is not looked at
  | .wake c till =>
    if till ≤ sh.now then some (sh.modifyTrunk c (.setStep .hungup), .strategy (.unlock c))
    else none
  | .unlock c =>
    some (sh.modifyTrunk c (.setMutex false), .hangUp .strategy c ciaCallSuccess .lock)

/-- The next step of thread `i`. -/
def exec (cfg : Config) (sh : Shared) (i : Nat) (pc : Pc) (r : Int) : Option (Shared × Pc) :=
  if sh.crashed then none
  else match pc with
    | .callout x p => execCallout sh x r p
    | .hangUp k c status p => execHangUp sh k c status r p
    | .autoDial c p => execAutoDial cfg sh c p
    | .timeoutCheck p => execTimeoutCheck cfg sh p
    | .strategy p => execStrategy cfg sh p
    | .ret => some (sh.note (.returned i sh.now), .done)
    | .done => none

/-! ## The environment -/

/-- What happens from outside: time passes, a client's request is handed to
`cti_callout`, the driver calls back, a pending `async_wait` completes. -/
inductive Action where
  | tick (d : Nat)
  | call (baseClient : Client) (transId authCode pn : Bytes) (hungupByEchoTone : Bool)
  | event (wEvent : CardEvent) (nReference : Int) (dwParam : DialResult)
  | fire (x : Nat) (ec : Bool)
  deriving DecidableEq, Repr

/-- The `size_t` an `int` argument of `m_trunk_vector.at` converts to. -/
def toSizeT (n : Int) : Nat := (n % 2 ^ 64).toNat

/-- The environment's moves; `i` is the index of the thread a move starts. -/
def env (sh : Shared) (i : Nat) (a : Action) : Option (Shared × List Pc) :=
  if sh.crashed then none
  else match a with
    | .tick d => some ({ sh with now := sh.now + d }, [])
    | .call baseClient transId authCode pn hungupByEchoTone =>
      some ({ sh with params := sh.params ++
          [.new baseClient transId authCode pn hungupByEchoTone sh.now] },
        [.callout sh.params.length .take])
    | .event .procAutoDial nReference dwParam =>
      some (sh.note (.delivered i (toSizeT nReference) dwParam),
        [.autoDial (toSizeT nReference) (.enter dwParam)])
    -- every other event is logged and answered with 1
    | .event _ _ _ => some (sh, [.ret])
    | .fire x ec =>
      match sh.params[x]? with
      | none => none
      | some p =>
        -- with an error code the handler only logs, and the request is dropped
        if x ∈ sh.waits ∧ (ec = true ∨ p.repeatCallOutTimer.getD 0 ≤ sh.now) then
          some ({ sh with waits := sh.waits.erase x }, if ec then [] else [.callout x .take])
        else none

/-- `voice_card_control` as a program of interleaving threads. -/
def voiceCard (cfg : Config) : Program Shared Pc Action Int where
  env := env
  exec := exec cfg

/-- The state `init_cti` leaves, with the threads the constructor starts. What
`m_hungup_by_echo_tone` of a fresh trunk holds is up to the memory. -/
def initial (cfg : Config) (echo : Nat → Bool) : Conf Shared Pc where
  shared :=
    { channelQueue := List.range cfg.numChannelCount
      sleepChannelQueue := []
      trunkVector := (List.range cfg.numChannelCount).map fun i => .new (echo i)
      params := []
      waits := []
      now := 0
      crashed := false
      calls := List.replicate cfg.numChannelCount none
      log := [] }
  threads := .timeoutCheck (.sleep 500) ::
    List.replicate (cfg.numChannelCount / 2 + 1) (.strategy .take)

/-- Reached by moves that all satisfy `ok`. -/
def ReachableBy (cfg : Config) (ok : Conf Shared Pc → Move Action Int → Prop)
    (s : Conf Shared Pc) : Prop :=
  ∃ echo, (voiceCard cfg).Reach ok (initial cfg echo) s

/-- Reached by any moves. -/
def Reachable (cfg : Config) (s : Conf Shared Pc) : Prop := ReachableBy cfg (fun _ _ => True) s

theorem ReachableBy.reachable {cfg : Config} {ok : Conf Shared Pc → Move Action Int → Prop}
    {s : Conf Shared Pc} (h : ReachableBy cfg ok s) : Reachable cfg s := by
  obtain ⟨echo, h⟩ := h
  exact ⟨echo, h.mono fun _ _ _ => trivial⟩

/-- The configuration an explicit list of moves leads to, if each is possible
in its turn and accepted by `ok`. -/
def after (cfg : Config) (ok : Conf Shared Pc → Move Action Int → Bool) (echo : Nat → Bool)
    (ms : List (Move Action Int)) : Conf Shared Pc :=
  (voiceCard cfg).after ok (initial cfg echo) ms

theorem reachable_after {cfg : Config} {ok : Conf Shared Pc → Move Action Int → Bool}
    {echo : Nat → Bool} {ms : List (Move Action Int)}
    (h : ((voiceCard cfg).run ok (initial cfg echo) ms).isSome = true) :
    ReachableBy cfg (fun s m => ok s m = true) (after cfg ok echo ms) :=
  ⟨echo, Interleave.Program.reach_after h⟩

/-- Every move is accepted. -/
def anyMove (_ : Conf Shared Pc) (_ : Move Action Int) : Bool := true

/-- A card with one channel. -/
def oneChannel : Config :=
  { numChannelCount := 1, timeoutElapse := 15000, useStrategy := true
    ctiWarningElapse := 3000, ctiSleepingElapse := 5000 }

end CiaServer.Cti
