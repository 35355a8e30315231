import Mathlib.Algebra.Group.Int.Defs
import Mathlib.Algebra.Group.Nat.Defs
import CiaServer.CiaDef

/-!
# A trunk and a call request (`trunk.hpp`, `cti_call_out_param`)

The two records every operation of the voice card works on. A `Trunk` is one
line of the card with the call that occupies it; a `CallOutParam` is one call
request on its way through `cti_callout` and its retries.

Mirroring notes:
- Clock readings are milliseconds on one clock, and a timer is the reading at
  its start: `m_callTime` is `callTime`, its age is `now - callTime`. The
  settings it is compared with are in the same unit.
- A `base_client` is known by a number; a `shared_ptr` that may be null is an
  `Option`. `cti_call_out_param::m_base_client` is never null (both callers
  pass an existing client), `trunk::m_client_socket` is null while idle.
- `boost::mutex` is a flag. Every unlock in the code is done by the thread
  that locked (`boost::unique_lock` and the paired `lock`/`unlock` of the
  strategy thread).
-/

namespace CiaServer.Cti

/-- A `base_client`, by identity. -/
abbrev Client := Nat

/-- `trunk_state`. -/
inductive TrunkState where
  | idle
  | waitConnect
  | calloutDail
  | chekBargein
  | sleep
  | hungup
  deriving DecidableEq, Repr

/-- `cti_call_out_param`: `repeatCallOutTimer` is the expiry of the retry
timer once it has been created. -/
structure CallOutParam where
  baseClient : Client
  transId : Bytes
  authCode : Bytes
  pn : Bytes
  hungupByEchoTone : Bool
  repeatCallOutTimer : Option Nat
  repeatCallOut : Bool
  callTime : Nat
  deriving DecidableEq, Repr

/-- The constructor of `cti_call_out_param`. -/
def CallOutParam.new (baseClient : Client) (transId authCode pn : Bytes)
    (hungupByEchoTone : Bool) (now : Nat) : CallOutParam :=
  { baseClient, transId, authCode, pn, hungupByEchoTone
    repeatCallOutTimer := none
    repeatCallOut := true
    callTime := now }

/-- `cti_call_out_elapsed_milliseconds`. -/
def CallOutParam.elapsed (p : CallOutParam) (now : Nat) : Nat := now - p.callTime

/-- The timer part of `cti_callout_again`: the timer is created on the first
retry only, and only then is its expiry set. -/
def CallOutParam.armTimer (p : CallOutParam) (now : Nat) : CallOutParam :=
  match p.repeatCallOutTimer with
  | none => { p with repeatCallOutTimer := some (now + 2000) }
  | some _ => p

/-- `trunk`. -/
structure Trunk where
  step : TrunkState
  callerId : Bytes
  calledId : Bytes
  transId : Bytes
  callTime : Nat
  hungupByEchoTone : Bool
  trunkMutex : Bool
  clientSocket : Option Client
  deriving DecidableEq, Repr

/-- The constructor of `trunk` sets `m_step` only; `m_hungup_by_echo_tone` has
whatever value the memory had. -/
def Trunk.new (hungupByEchoTone : Bool) : Trunk :=
  { step := .idle, callerId := [], calledId := [], transId := [], callTime := 0
    hungupByEchoTone, trunkMutex := false, clientSocket := none }

/-- The age of the trunk's call, `m_callTime.elapsed()`. -/
def Trunk.elapsed (t : Trunk) (now : Nat) : Nat := now - t.callTime

/-- `realseTrunk`. -/
def Trunk.realseTrunk (now : Nat) (t : Trunk) : Trunk :=
  { t with
    step := .idle
    callerId := []
    calledId := []
    transId := []
    callTime := now
    hungupByEchoTone := true
    clientSocket := none }

/-- What `cti_callout` writes into the trunk it has locked. -/
def Trunk.fill (p : CallOutParam) (now : Nat) (t : Trunk) : Trunk :=
  { t with
    clientSocket := some p.baseClient
    transId := p.transId
    callerId := p.authCode
    calledId := p.pn
    hungupByEchoTone := p.hungupByEchoTone
    step := .calloutDail
    callTime := now }

def Trunk.setStep (step : TrunkState) (t : Trunk) : Trunk := { t with step }

def Trunk.setMutex (b : Bool) (t : Trunk) : Trunk := { t with trunkMutex := b }

/-- Conversion of an integer to a 32-bit `int`. -/
def toInt (x : Int) : Int := x.bmod (2 ^ 32)

/-- `m_cti_sleeping_elapse - t->elpased()` as `deal_hungup_strategy` computes
it: `elpased` narrows the milliseconds to `int`, the subtraction is done in
the `w` bits of `size_t`, and the result is narrowed to `int` again. -/
def sleepingElapse (w : Nat) (ctiSleepingElapse : Nat) (elapsed : Nat) : Int :=
  toInt (((ctiSleepingElapse : Int) - toInt elapsed) % 2 ^ w)

end CiaServer.Cti
