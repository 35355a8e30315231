import CiaServer.Interleave.Routine
import CiaServer.Cti.VoiceCard

/-!
# One call at a time (`voice_card_control.hpp`)

The functions of `voice_card_control` as sequential routines: what one call of
each does to the shared state while no other thread steps. They work on the
`Shared` of the step relation and leave it as the thread's own steps do
(`ctiHangUp_solo`, `ctiCallout_solo`, `timeoutPass_solo`, `ctiCallback_solo`).

Mirroring notes:
- `m_trunk_vector.at(c)` throws `outOfRange`; a call through a null pointer is
  `nullPointer`, which no handler catches. Both leave the state as it is then.
- A log record is modelled where it indexes the vector. `BOOST_LOG_SEV`
  evaluates its record only if the severity is enabled.
- `Driver` has the driver's answers for one call. The clock moves by `took`
  between the beginning of `cti_callout` and its next reading; the other calls
  read one clock value.
-/

namespace CiaServer.Cti

open Interleave (Routine)

/-- `severity_level`. -/
inductive Severity where
  | allEvent
  | ss7Msg
  | calloutMsg
  | debug
  | runtimeInfo
  | warning
  | critical
  deriving DecidableEq, Repr

/-- What a call throws, or dies of. -/
inductive Fault where
  | outOfRange
  | nullPointer
  deriving DecidableEq, Repr

/-- A call of one of the functions of `voice_card_control`. -/
abbrev CardM := Routine Shared Fault

/-- What the driver answers, channel by channel. -/
structure Driver where
  ssmAutoDial : Nat → Int
  ssmHangup : Nat → Int
  /-- The message of `SsmGetSs7Msu`; `none` is the length -1. -/
  ssmGetSs7Msu : Option Bytes

/-- `m_trunk_vector.at(c)`. -/
def trunkAt (c : Nat) : CardM Trunk := do
  match (← get).trunkVector[c]? with
  | none => throw .outOfRange
  | some t => pure t

/-- The `cti_call_out_param` of a request. -/
def paramAt (x : Nat) : CardM CallOutParam := do
  match (← get).params[x]? with
  | none => throw .nullPointer
  | some p => pure p

/-- A log record that indexes the vector. -/
def logAt (enabled : Severity → Bool) (severity : Severity) (nReference : Int) : CardM Unit :=
  if enabled severity then discard (trunkAt (toSizeT nReference)) else pure ()

/-! ## `cti_hangUp` -/

/-- The response, `realseTrunk` and the return of the channel. -/
def Shared.release (sh : Shared) (c : Nat) (t : Trunk) (client : Client) (status : Bytes) :
    Shared :=
  let sh₁ := ({ sh with calls := sh.calls.set c none }.modifyTrunk c (.realseTrunk sh.now)).respond
    (sh.callOn c) { client, transId := t.transId, status }
  { sh₁ with channelQueue := sh₁.channelQueue ++ [c] }

/-- `cti_hangUp`. -/
def ctiHangUp (d : Driver) (channelID : Nat) (status : Bytes) : CardM Int := do
  let t ← trunkAt channelID
  if t.trunkMutex then
    pure (-1)
  else if t.refusesHangUp then
    pure (-1)
  else
    -- whatever the driver answers, the trunk is released
    match t.clientSocket with
    | none => throw .nullPointer
    | some client =>
      modify fun sh => sh.release channelID t client status
      pure (d.ssmHangup channelID)

/-! ## `cti_callout` and `cti_callout_again` -/

/-- `cti_callout_again`. -/
def ctiCalloutAgain (x : Nat) : CardM Unit := do
  let p ← paramAt x
  if 25000 < p.elapsed (← get).now then
    modify fun sh => sh.respond (some x) (p.response ciaCallTimeout)
  else
    modify fun sh => { sh with params := sh.params.set x (p.armTimer sh.now), waits := sh.waits ++ [x] }

/-- `cti_callout`. -/
def ctiCallout (d : Driver) (took x : Nat) : CardM Unit := do
  match (← get).channelQueue with
  | [] =>
    modify fun sh => { sh with now := sh.now + took }
    ctiCalloutAgain x
  | c :: rest =>
    modify fun sh => { sh with channelQueue := rest, now := sh.now + took }
    if d.ssmAutoDial c = 0 then
      modify fun sh => sh.note (.dialled x c)
      let t ← trunkAt c
      if t.trunkMutex then
        pure ()
      else
        let p ← paramAt x
        modify fun sh => ({ sh with calls := sh.calls.set c (some x) }.modifyTrunk c
          (.fill p sh.now)).note (.recorded x c sh.now)
    else
      modify fun sh => { sh with channelQueue := sh.channelQueue ++ [c] }
      let p ← paramAt x
      if p.repeatCallOut then
        modify fun sh => { sh with params := sh.params.set x { p with repeatCallOut := false } }
        ctiCalloutAgain x
      else
        modify fun sh => sh.respond (some x) (p.response ciaCallFail)

/-! ## `timeout_check` -/

/-- The body of the `for` loop, for trunk `i`. -/
def timeoutLook (cfg : Config) (d : Driver) (i : Nat) : CardM Unit := do
  let t ← trunkAt i
  if t.step ≠ .idle ∧ cfg.timeoutElapse ≤ t.elapsed (← get).now then
    if t.hungupByEchoTone then
      discard (ctiHangUp d i ciaCallFail)
    else if t.trunkMutex then
      -- `continue`
      pure ()
    else
      modify fun sh => sh.modifyTrunk i fun t => { t with hungupByEchoTone := true }
      discard (ctiHangUp d i ciaCallFail)
  else
    pure ()

/-- One pass of the `for` loop. -/
def timeoutPass (cfg : Config) (d : Driver) : CardM Unit := do
  (List.range (← get).trunkVector.length).forM (timeoutLook cfg d)

/-! ## `cti_callback` -/

/-- A log record, and the hang-up of the channel. -/
def logAndHangUp (d : Driver) (enabled : Severity → Bool) (severity : Severity) (nReference : Int)
    (status : Bytes) : CardM Int := do
  logAt enabled severity nReference
  discard (ctiHangUp d (toSizeT nReference) status)
  pure 1

/-- A log record and nothing else. -/
def logOnly (enabled : Severity → Bool) (severity : Severity) (nReference : Int) : CardM Int := do
  logAt enabled severity nReference
  pure 1

/-- `deal_e_proc_auto_dial`. -/
def dealEProcAutoDial (cfg : Config) (d : Driver) (enabled : Severity → Bool) (nReference : Int) :
    DialResult → CardM Int
  | .standby => pure 1
  | .dialing => logOnly enabled .debug nReference
  | .echotone => do
    logAt enabled .runtimeInfo nReference
    logAt enabled .calloutMsg nReference
    let t ← trunkAt (toSizeT nReference)
    if cfg.useStrategy && t.elapsed (← get).now ≤ cfg.ctiWarningElapse then
      if t.trunkMutex then
        pure ()
      else
        modify fun sh => sh.modifyTrunk (toSizeT nReference) (.setStep .sleep)
      modify fun sh => { sh with sleepChannelQueue := sh.sleepChannelQueue ++ [toSizeT nReference] }
      pure 1
    else
      discard (ctiHangUp d (toSizeT nReference) ciaCallSuccess)
      pure 1
  | .noDialtone => logAndHangUp d enabled .runtimeInfo nReference ciaCallFail
  | .busytone => logAndHangUp d enabled .runtimeInfo nReference ciaCallSuccess
  | .echoNovoice => logOnly enabled .runtimeInfo nReference
  | .novoice => logOnly enabled .runtimeInfo nReference
  | .voice => logAndHangUp d enabled .runtimeInfo nReference ciaCallSuccess
  | .voicef1 => logAndHangUp d enabled .runtimeInfo nReference ciaCallSuccess
  | .voicef2 => logAndHangUp d enabled .runtimeInfo nReference ciaCallSuccess
  | .noanswer => logAndHangUp d enabled .runtimeInfo nReference ciaCallFail
  -- two records of one severity
  | .failure => logAndHangUp d enabled .critical nReference ciaCallFail
  | .invalidPhonum => logAndHangUp d enabled .runtimeInfo nReference ciaCallFail
  | .sessionProceeding => logOnly enabled .critical nReference
  | .isdnProgress => logOnly enabled .critical nReference
  | .other _ => pure 1

/-- `deal_e_rcv_ss7msu`. -/
def dealERcvSs7Msu (d : Driver) : CardM Int :=
  match d.ssmGetSs7Msu with
  | none => pure 1
  | some msu =>
    if msu.length < 12 then
      pure 1
    else if msu[10]? = some 0x06 then
      match (msu[11]?.getD 0) &&& 0x03 with
      | 1 => pure 1
      | 2 => pure 1
      | _ => pure 1
    else
      pure 1

/-- `deal_e_sys_bargein`. -/
def dealESysBargein : CardM Int := pure 1

/-- The `switch` of `cti_callback`. -/
def dispatch (cfg : Config) (d : Driver) (enabled : Severity → Bool) (wEvent : CardEvent)
    (nReference : Int) (dwParam : DialResult) : CardM Int :=
  match wEvent with
  | .sysNoSound => pure 1
  | .rcvSs7Msu => dealERcvSs7Msu d
  | .sysBargeIn => do
    logAt enabled .debug nReference
    dealESysBargein
  | .procAutoDial => do
    logAt enabled .debug nReference
    dealEProcAutoDial cfg d enabled nReference dwParam
  | .rcvSs7IsupCpg => logOnly enabled .allEvent nReference
  | .chgChState => logOnly enabled .allEvent nReference
  | .chgMtp2Status => pure 1
  | .chgPcmLinkStatus => logOnly enabled .allEvent nReference
  | .other _ => pure 1

/-- `cti_callback`. -/
def ctiCallback (cfg : Config) (d : Driver) (enabled : Severity → Bool) (wEvent : CardEvent)
    (nReference : Int) (dwParam : DialResult) : CardM Int :=
  tryCatch (dispatch cfg d enabled wEvent nReference dwParam) fun
    | .outOfRange => pure 1
    | e => throw e

/-! ## What clients are told -/

/-- The response an observation is of. -/
def Obs.written : Obs → Option Response
  | .response _ r => some r
  | _ => none

/-- The responses written to clients, oldest first. -/
def Shared.responses (sh : Shared) : List Response := (sh.log.filterMap Obs.written).reverse

section
variable (sh : Shared) (c : Nat) (f : Trunk → Trunk)

@[simp] theorem Shared.modifyTrunk_responses : (sh.modifyTrunk c f).responses = sh.responses := rfl

@[simp] theorem Shared.note_response_responses (req : Option Nat) (r : Response) :
    (sh.note (.response req r)).responses = sh.responses ++ [r] := by
  simp [Shared.responses, Obs.written]

end

/-! ## The release of a trunk -/

section
variable (sh : Shared) (c : Nat) (t : Trunk) (client : Client) (status : Bytes)

@[simp] theorem Shared.release_trunkVector :
    (sh.release c t client status).trunkVector = sh.trunkVector.modify c (.realseTrunk sh.now) :=
  rfl
@[simp] theorem Shared.release_channelQueue :
    (sh.release c t client status).channelQueue = sh.channelQueue ++ [c] := rfl
@[simp] theorem Shared.release_sleepChannelQueue :
    (sh.release c t client status).sleepChannelQueue = sh.sleepChannelQueue := rfl
@[simp] theorem Shared.release_now : (sh.release c t client status).now = sh.now := rfl
@[simp] theorem Shared.release_crashed :
    (sh.release c t client status).crashed = sh.crashed := rfl
@[simp] theorem Shared.release_responses :
    (sh.release c t client status).responses
      = sh.responses ++ [{ client, transId := t.transId, status }] :=
  Shared.note_response_responses _ _ _

end

end CiaServer.Cti
