import CiaServer.Cti.Accounts
import CiaServer.Tools.Startup

/-!
# How many channels are idle (`cia_server::set_idol_channel_timer`)

Whoever distributes the calls over the servers goes by the number each of them
writes under `/freeNum`. A timer of `cia_server` asks the card for it from time to
time, while the threads of the card go on, and while it is on its way to the store
the number may change.

`idolChannelTimer_samples`: over every run, what the timer stores is, in order,
what was idle at some moments of the run. What is under `/freeNum` is what was stored
there last, by the server or by somebody else. And `get_started` throws only at what
somebody else has stored under `/status`, so that otherwise the timer goes on until a
wait is ended.

Mirroring notes:
- `main` writes too: `set_started(true)` after `start()`, and no idle channels and
  `set_started(false)` at the end, when the timer may still be running.
- The timer keeps its `cia_server`, so its handler always finds one.
- A call to the store is one step.
- An exception that leaves the handler ends the process.
-/

namespace CiaServer.Net.IdolChannelTimer

open Interleave Tools Machine
open Cti (Config Action)

/-- Where `set_idol_channel_timer` stands. -/
inductive Pc where
  /-- no wait is outstanding -/
  | off
  | wait (till : Int)
  /-- in the handler, about to call `get_idol_channel_number` -/
  | count
  /-- about to call `set_idol_channel_number(n)` -/
  | announce (n : Nat)
  /-- about to call `get_started` -/
  | check
  /-- about to call `set_started(true)` -/
  | restart
  /-- about to call `set_idol_channel_timer` -/
  | rearm
  /-- an exception has left the handler -/
  | thrown
  deriving DecidableEq, Repr

/-- The card, the node and the timer. -/
structure State where
  card : Conf Cti.Shared Cti.Pc
  node : Node
  timer : Pc

variable {ω : Type}

inductive Event (ω : Type) where
  | card (m : Move Action Int)
  /-- The timer goes on: a wait completes, with or without an error, or the handler does its
  next step; `w` is how the call to the store comes out. -/
  | timer (ec : Bool) (w : ω)
  /-- `main` calls `set_started(status)`. -/
  | setStarted (status : Bool) (w : ω)
  /-- `main` calls `set_idol_channel_number(0)`. -/
  | setIdolChannelNumber (w : ω)
  /-- Somebody else stores or deletes what is under a path. -/
  | elsewhere (path : Bytes) (value : Option Bytes)

/-- `expires_from_now` and `async_wait`. -/
def arm (elapsed : Int) (now : Nat) : Pc := .wait (now + elapsed)

/-- `set_idol_channel_timer`, with its handler. -/
def execTimer (zk : Zookeeper ω) (elapsed : Int) (s : State) (ec : Bool) (w : ω) : Option State :=
  match s.timer with
  | .wait till =>
    if ec then some { s with timer := .off }
    else if till ≤ s.card.shared.now then some { s with timer := .count }
    else none
  | .count => some { s with timer := .announce s.card.shared.getIdolChannelNumber }
  | .announce n => some { s with node := s.node.setIdolChannelNumber zk w n, timer := .check }
  | .check =>
    match s.node.getStarted zk w with
    | .error _ => some { s with timer := .thrown }
    -- 1 is started, 2 is not, -1 is no answer
    | .ok v => some { s with timer := if v = 2 then .restart else .rearm }
  | .restart => some { s with node := s.node.setStarted zk w true, timer := .rearm }
  | .rearm => some { s with timer := arm elapsed s.card.shared.now }
  | .off => none
  | .thrown => none

/-- The process lives. -/
def State.up (s : State) : Bool := !s.card.shared.crashed && s.timer != .thrown

/-- One step of the server, as long as the process lives. -/
def step (zk : Zookeeper ω) (cfg : Config) (elapsed : Int) (s : State) (e : Event ω) : Option State :=
  if s.up then
    match e with
    | .card m => ((Cti.voiceCard cfg).step s.card m).map fun card => { s with card }
    | .timer ec w => execTimer zk elapsed s ec w
    | .setStarted status w => some { s with node := s.node.setStarted zk w status }
    | .setIdolChannelNumber w => some { s with node := s.node.setIdolChannelNumber zk w 0 }
    | .elsewhere path value => some { s with node := s.node.storeElsewhere path value }
  else none

/-- What `start()` leaves. -/
def start (cfg : Config) (echo : Nat → Bool) (elapsed : Int) (node : Node) : State where
  card := Cti.initial cfg echo
  node
  timer := if elapsed ≠ 0 then arm elapsed 0 else .off

/-! ## What a step is -/

/-- The steps of the timer. -/
inductive TimerStep (zk : Zookeeper ω) (elapsed : Int) (s : State) (ec : Bool) (w : ω) :
    State → Prop where
  | ended {till : Int} (h : s.timer = .wait till) (hec : ec = true) :
      TimerStep zk elapsed s ec w { s with timer := .off }
  | expired {till : Int} (h : s.timer = .wait till) (ht : till ≤ s.card.shared.now) :
      TimerStep zk elapsed s ec w { s with timer := .count }
  | counted (h : s.timer = .count) :
      TimerStep zk elapsed s ec w { s with timer := .announce s.card.shared.getIdolChannelNumber }
  | announced {n : Nat} (h : s.timer = .announce n) :
      TimerStep zk elapsed s ec w
        { s with node := s.node.setIdolChannelNumber zk w n, timer := .check }
  | checked {v : Int} (h : s.timer = .check) (hv : s.node.getStarted zk w = .ok v) :
      TimerStep zk elapsed s ec w { s with timer := if v = 2 then .restart else .rearm }
  | threw {e : StoiError} (h : s.timer = .check) (hv : s.node.getStarted zk w = .error e) :
      TimerStep zk elapsed s ec w { s with timer := .thrown }
  | restarted (h : s.timer = .restart) :
      TimerStep zk elapsed s ec w { s with node := s.node.setStarted zk w true, timer := .rearm }
  | rearmed (h : s.timer = .rearm) :
      TimerStep zk elapsed s ec w { s with timer := arm elapsed s.card.shared.now }

variable {zk : Zookeeper ω} {cfg : Config} {elapsed : Int} {s s' : State}

theorem execTimer_step {ec : Bool} {w : ω} (h : execTimer zk elapsed s ec w = some s') :
    TimerStep zk elapsed s ec w s' := by
  unfold execTimer at h
  split at h
  · next ht =>
    split at h
    · next hec => cases h; exact .ended ht hec
    · split at h <;> cases h
      next hle => exact .expired ht hle
  · next ht => cases h; exact .counted ht
  · next ht => cases h; exact .announced ht
  · next ht =>
    split at h <;> cases h
    · next hv => exact .threw ht hv
    · next hv => exact .checked ht hv
  · next ht => cases h; exact .restarted ht
  · next ht => cases h; exact .rearmed ht
  · cases h
  · cases h

/-- The steps of the server. -/
inductive Step (zk : Zookeeper ω) (cfg : Config) (elapsed : Int) (s : State) :
    Event ω → State → Prop where
  | card {m : Move Action Int} {card : Conf Cti.Shared Cti.Pc}
      (h : (Cti.voiceCard cfg).step s.card m = some card) :
      Step zk cfg elapsed s (.card m) { s with card }
  | timer {ec : Bool} {w : ω} {s' : State} (h : TimerStep zk elapsed s ec w s') :
      Step zk cfg elapsed s (.timer ec w) s'
  | setStarted {status : Bool} {w : ω} :
      Step zk cfg elapsed s (.setStarted status w) { s with node := s.node.setStarted zk w status }
  | setIdolChannelNumber {w : ω} :
      Step zk cfg elapsed s (.setIdolChannelNumber w)
        { s with node := s.node.setIdolChannelNumber zk w 0 }
  | elsewhere {path : Bytes} {value : Option Bytes} :
      Step zk cfg elapsed s (.elsewhere path value)
        { s with node := s.node.storeElsewhere path value }

theorem step_cases {e : Event ω} (h : step zk cfg elapsed s e = some s') :
    Step zk cfg elapsed s e s' := by
  unfold step at h
  split at h
  · split at h
    · obtain ⟨card, hcard, rfl⟩ := Option.map_eq_some_iff.mp h
      exact .card hcard
    · exact .timer (execTimer_step h)
    · cases h; exact .setStarted
    · cases h; exact .setIdolChannelNumber
    · cases h; exact .elsewhere
  · cases h

/-! ## The notes of a run -/

/-- The number of channels that are idle when something happens. -/
def idle (s : State) (_ : Event ω) : Option Nat := some s.card.shared.getIdolChannelNumber

/-- The number that is on its way to the store. -/
def Pc.underway : Pc → Option Nat
  | .announce n => some n
  | _ => none

/-- The number `n`, if `set_idol_channel_number(n)` stores it. -/
def stored (zk : Zookeeper ω) (s : State) (w : ω) (n : Nat) : Option Nat :=
  if (s.node.setIdolChannelNumber zk w n).freeNum = some (toDecimal n) then some n else none

/-- The number the timer stores. -/
def announced (zk : Zookeeper ω) (s : State) : Event ω → Option Nat
  | .timer _ w => s.timer.underway.bind (stored zk s w)
  | _ => none

/-- The number that the server stores, the timer or `main`. -/
def storedHere (zk : Zookeeper ω) (s : State) : Event ω → Option Nat
  | .setIdolChannelNumber w => stored zk s w 0
  | e => announced zk s e

/-- What is stored under `/freeNum`, by whomever. -/
def written (zk : Zookeeper ω) (s : State) : Event ω → Option (Option Bytes)
  | .elsewhere path value =>
    if path = s.node.currentNodePath ++ zooPathFreeChannelNum then some value else none
  | e => (storedHere zk s e).map fun n => some (toDecimal n)

theorem mem_of_stored {w : ω} {n m : Nat} (h : stored zk s w n = some m) : m = n := by
  unfold stored at h
  split at h <;> cases h
  rfl

theorem announced_eq_none {ec : Bool} {w : ω} (h : s.timer.underway = none) :
    announced zk s (.timer ec w) = none := by
  rw [announced, h]
  rfl

/-- A number comes onto its way when it is counted, and leaves it when it is stored. -/
theorem step_sublist {e : Event ω} (h : step zk cfg elapsed s e = some s') :
    ((announced zk s e).toList ++ s'.timer.underway.toList).Sublist
      (s.timer.underway.toList ++ (idle s e).toList) := by
  cases step_cases h with
  | card | setStarted | setIdolChannelNumber | elsewhere => exact List.sublist_append_left _ _
  | @timer ec w _ h =>
    have hother : s.timer.underway = none → s'.timer.underway = none →
        ((announced zk s (.timer ec w)).toList ++ s'.timer.underway.toList).Sublist
          (s.timer.underway.toList ++ (idle s (.timer ec w)).toList) := by
      intro hs hs'
      rw [announced_eq_none hs, hs']
      exact List.nil_sublist _
    cases h with
    | ended ht | expired ht | threw ht | restarted ht | rearmed ht =>
      exact hother (by rw [ht]; rfl) rfl
    | checked ht =>
      refine hother (by rw [ht]; rfl) ?_
      dsimp only
      split <;> rfl
    | counted ht =>
      have hs : s.timer.underway = none := by rw [ht]; rfl
      rw [announced_eq_none hs, hs]
      exact List.Sublist.refl _
    | @announced n ht =>
      have hs : s.timer.underway = some n := by rw [ht]; rfl
      have hle : (stored zk s w n).toList.Sublist [n] := by
        unfold stored
        split
        · exact List.Sublist.refl _
        · exact List.nil_sublist _
      rw [announced, hs, Option.bind_some,
        show ({ s with node := _, timer := Pc.check } : State).timer.underway = none from rfl,
        Option.toList_none, List.append_nil]
      exact hle.trans (List.sublist_append_left _ _)

/-- A number is stored, or nothing is. -/
theorem freeNum_stored (hzk : zk.Lawful) (w : ω) (n : Nat) :
    (s.node.setIdolChannelNumber zk w n).freeNum
      = ((stored zk s w n).map fun n => some (toDecimal n)).elim s.node.freeNum id := by
  unfold stored
  split
  · next h => exact h
  · next h => exact (Node.freeNum_setIdolChannelNumber hzk n).resolve_left h

/-- What is stored under `/freeNum` is there then, and nothing else changes it. -/
theorem step_freeNum (hzk : zk.Lawful) {e : Event ω} (h : step zk cfg elapsed s e = some s') :
    s'.node.freeNum = (written zk s e).elim s.node.freeNum id := by
  cases step_cases h with
  | card => rfl
  | setStarted => exact Node.freeNum_setStarted hzk _
  | setIdolChannelNumber => exact freeNum_stored hzk _ 0
  | @elsewhere path value =>
    refine (Node.store_storeElsewhere path value _).trans ?_
    unfold written Node.storeElsewhere
    dsimp only
    split <;> rfl
  | @timer ec w _ h =>
    show _ = ((announced zk s (.timer ec w)).map _).elim _ _
    cases h with
    | @announced n ht =>
      rw [announced, show s.timer.underway = some n by rw [ht]; rfl]
      exact freeNum_stored hzk w n
    | restarted ht =>
      rw [announced_eq_none (by rw [ht]; rfl)]
      exact Node.freeNum_setStarted hzk _
    | ended ht | expired ht | counted ht | checked ht | threw ht | rearmed ht =>
      rw [announced_eq_none (by rw [ht]; rfl)]
      rfl

/-! ## What holds throughout -/

/-- What is on its way is no larger than the card. -/
structure Inv (cfg : Config) (s : State) : Prop where
  card : Cti.Reachable cfg s.card
  underway : ∀ n, s.timer.underway = some n → n ≤ cfg.numChannelCount

/-- No more channels are idle than the card has. -/
theorem idle_le {c : Conf Cti.Shared Cti.Pc} (h : Cti.Reachable cfg c) :
    c.shared.getIdolChannelNumber ≤ cfg.numChannelCount := by
  have hR := Cti.reachable_rangeInv h
  refine length_le_of_tokens hR.queues.free fun c => ?_
  have hone := Cti.reachable_chanInv h c
  unfold Cti.Shared.chan at hone
  omega

theorem inv_step {e : Event ω} (hI : Inv cfg s) (h : step zk cfg elapsed s e = some s') :
    Inv cfg s' := by
  cases step_cases h with
  | card hcard => exact ⟨hI.card.step hcard, hI.underway⟩
  | setStarted | setIdolChannelNumber | elsewhere => exact ⟨hI.card, hI.underway⟩
  | timer h =>
    refine ⟨?_, ?_⟩
    · cases h <;> exact hI.card
    · intro n hn
      cases h with
      | counted =>
        cases hn
        exact idle_le hI.card
      | checked =>
        dsimp only at hn
        split at hn <;> cases hn
      | _ => cases hn

theorem inv_start {echo : Nat → Bool} {node : Node} : Inv cfg (start cfg echo elapsed node) := by
  refine ⟨Cti.reachable_initial cfg echo, ?_⟩
  unfold start
  dsimp only
  split <;> exact nofun

/-- `get_started` can read what is under `/status`, and has thrown nothing. -/
def ReadsStatus (s : State) : Prop := Node.Readable s.node.status ∧ s.timer ≠ .thrown

/-- Nobody else stores under `/status` what `get_started` cannot read. -/
def StoresReadable (nodePath : Bytes) (e : Event ω) : Prop :=
  ∀ value, e = .elsewhere (nodePath ++ zooPathStatus) value → Node.Readable value

theorem currentNodePath_step {e : Event ω} (h : step zk cfg elapsed s e = some s') :
    s'.node.currentNodePath = s.node.currentNodePath := by
  cases step_cases h with
  | timer h => cases h <;> rfl
  | _ => rfl

theorem readsStatus_step (hzk : zk.Lawful) {e : Event ω} (hr : ReadsStatus s)
    (he : StoresReadable s.node.currentNodePath e) (h : step zk cfg elapsed s e = some s') :
    ReadsStatus s' := by
  obtain ⟨hread, hthrown⟩ := hr
  cases step_cases h with
  | card => exact ⟨hread, hthrown⟩
  | setStarted => exact ⟨Node.readable_setStarted hzk hread _, hthrown⟩
  | setIdolChannelNumber =>
    refine ⟨?_, hthrown⟩
    dsimp only
    rw [Node.status_setIdolChannelNumber hzk]
    exact hread
  | @elsewhere path value =>
    refine ⟨?_, hthrown⟩
    show Node.Readable ((s.node.storeElsewhere path value).store _)
    rw [Node.store_storeElsewhere]
    split
    · next hp => exact he value (by rw [hp]; rfl)
    · exact hread
  | timer h =>
    cases h with
    | ended | expired | counted | rearmed => exact ⟨hread, nofun⟩
    | announced =>
      refine ⟨?_, nofun⟩
      dsimp only
      rw [Node.status_setIdolChannelNumber hzk]
      exact hread
    | checked =>
      refine ⟨hread, ?_⟩
      dsimp only
      split <;> exact nofun
    | threw _ hv =>
      obtain ⟨v, hv'⟩ := Node.getStarted_of_readable hzk hread
      cases hv'.symm.trans hv
    | restarted => exact ⟨Node.readable_setStarted hzk hread _, nofun⟩

/-- The timer is off only once a wait has ended with an error. -/
theorem on_step {e : Event ω} (hon : s.timer ≠ .off) (he : ∀ w, e ≠ .timer true w)
    (h : step zk cfg elapsed s e = some s') : s'.timer ≠ .off := by
  cases step_cases h with
  | card | setStarted | setIdolChannelNumber | elsewhere => exact hon
  | @timer ec w _ h =>
    cases h with
    | ended _ hec =>
      subst hec
      exact absurd rfl (he w)
    | checked =>
      dsimp only
      split <;> exact nofun
    | _ => exact nofun

/-! ## Over a run -/

section
variable {echo : Nat → Bool} {node : Node} {es : List (Event ω)}

/-- What the run `es` stores, and what is there at its end, in `s`. -/
structure Samples (zk : Zookeeper ω) (cfg : Config) (elapsed : Int) (s₀ : State)
    (es : List (Event ω)) (s : State) : Prop where
  /-- What the timer stores is, in order, what was idle at some moments of the run. -/
  sampled : (noted (step zk cfg elapsed) (announced zk) s₀ es).Sublist
    (noted (step zk cfg elapsed) idle s₀ es)
  /-- Under `/freeNum` is what was stored there last. -/
  last : s.node.freeNum =
    (noted (step zk cfg elapsed) (written zk) s₀ es).getLast?.elim s₀.node.freeNum id
  /-- Every number the server stores is one of the card, and is read back if it is an `int`. -/
  read : ∀ n ∈ noted (step zk cfg elapsed) (storedHere zk) s₀ es,
    n ≤ cfg.numChannelCount ∧ (n < 2 ^ 31 → stoi (toDecimal n) = .ok (n : Int))
  /-- `get_started` throws only at what somebody else has stored, or what was there. -/
  notThrown : Node.Readable s₀.node.status →
    (∀ e ∈ es, StoresReadable s₀.node.currentNodePath e) → s.timer ≠ .thrown
  /-- A timer that runs goes on until a wait is ended, or `get_started` throws. -/
  goesOn : s₀.timer ≠ .off → (∀ w, .timer true w ∉ es) → s.timer ≠ .off

theorem storedHere_le {e : Event ω} {n : Nat} (hI : Inv cfg s) (h : storedHere zk s e = some n) :
    n ≤ cfg.numChannelCount := by
  cases e with
  | setIdolChannelNumber w =>
    rw [mem_of_stored h]
    exact Nat.zero_le _
  | timer ec w =>
    obtain ⟨m, hm, hs⟩ := Option.bind_eq_some_iff.mp h
    rw [mem_of_stored hs]
    exact hI.underway m hm
  | _ => cases h

/-- **What the server says is idle was idle**, in order, over every run. -/
theorem idolChannelTimer_samples (hzk : zk.Lawful)
    (h : runs (step zk cfg elapsed) (start cfg echo elapsed node) es = some s) :
    Samples zk cfg elapsed (start cfg echo elapsed node) es s := by
  have hI : Inv cfg (start cfg echo elapsed node) := inv_start
  have hnone : (start cfg echo elapsed node).timer.underway = none ∧
      (start cfg echo elapsed node).timer ≠ .thrown := by
    unfold start
    dsimp only
    split <;> exact ⟨rfl, nofun⟩
  refine ⟨?_, ?_, ?_, ?_, ?_⟩
  · have hsub := noted_sublist (fun s : State => s.timer.underway.toList)
      (fun _ _ _ hst => step_sublist hst) h
    rw [hnone.1] at hsub
    exact hsub
  · exact noted_last (fun s : State => s.node.freeNum) _ (fun _ _ _ hst => step_freeNum hzk hst) h
  · intro n hn
    obtain ⟨t, e, ht, hw⟩ := mem_noted (Inv cfg) (fun _ _ _ hI hst => inv_step hI hst) hI hn
    exact ⟨storedHere_le ht hw, fun hlt => stoi_of_decimalInt (decimalInt_toDecimal hlt)⟩
  · intro hread hes
    refine (runs_rule (fun s => ReadsStatus s ∧ s.node.currentNodePath = node.currentNodePath)
      (StoresReadable node.currentNodePath) ?_ ⟨⟨hread, hnone.2⟩, rfl⟩ hes h).1.2
    intro s e s' hs he hst
    refine ⟨readsStatus_step hzk hs.1 ?_ hst, (currentNodePath_step hst).trans hs.2⟩
    rw [hs.2]
    exact he
  · intro hon hes
    exact runs_rule (fun s => s.timer ≠ .off) (fun e => ∀ w, e ≠ .timer true w)
      (fun _ _ _ hon he hst => on_step hon he hst) hon
      (fun e he w heq => hes w (by rw [← heq]; exact he)) h

end

/-! ## One round -/

/-- A store whose calls succeed or fail. -/
def plainZookeeper : Zookeeper Bool where
  zkSetData accepted z path value := if accepted then Function.update z path (some value) else z
  zkGetData accepted z path := if accepted then Tools.zkGetData z path else []

theorem plainZookeeper_lawful : plainZookeeper.Lawful := by
  constructor
  · intro accepted z path value
    cases accepted with
    | false => exact Or.inr rfl
    | true => exact Or.inl rfl
  · intro accepted z path
    cases accepted with
    | false => exact Or.inr rfl
    | true =>
      show z path = some ((z path).getD []) ∨ (z path).getD [] = []
      cases z path with
      | none => exact Or.inr rfl
      | some value => exact Or.inl rfl

/-- The card takes a call while the number of idle channels is on its way, and somebody else
has said that the server is not started. -/
def callUnderway : List (Event Bool) :=
  [.card (.env (.tick 1000)), .timer false true, .timer false true,
    .card (.env (.call 0 [1] [2] [3] true)), .card (.run 2 0),
    .elsewhere (ascii "/auth/ip/status") (some (ascii "2")),
    .timer false true, .timer false true, .timer false true, .timer false true]

/-- A node under which nothing is stored. -/
def freshNode : Node where
  store _ := none
  currentNodePath := ascii "/auth/ip"
  started := []

theorem idolChannelTimer_samples_underway :
    ∃ s, runs (step plainZookeeper Cti.oneChannel 1000)
        (start Cti.oneChannel (fun _ => true) 1000 freshNode) callUnderway = some s ∧
      Samples plainZookeeper Cti.oneChannel 1000
        (start Cti.oneChannel (fun _ => true) 1000 freshNode) callUnderway s := by
  have hsome : (runs (step plainZookeeper Cti.oneChannel 1000)
      (start Cti.oneChannel (fun _ => true) 1000 freshNode) callUnderway).isSome = true := by
    decide +kernel
  obtain ⟨s, hs⟩ := Option.isSome_iff_exists.mp hsome
  exact ⟨s, hs, idolChannelTimer_samples plainZookeeper_lawful hs⟩

/-- The 1 that is stored is of before the call. -/
example : noted (step plainZookeeper Cti.oneChannel 1000) (announced plainZookeeper)
      (start Cti.oneChannel (fun _ => true) 1000 freshNode) callUnderway = [1] ∧
    noted (step plainZookeeper Cti.oneChannel 1000) idle
      (start Cti.oneChannel (fun _ => true) 1000 freshNode) callUnderway
      = [1, 1, 1, 1, 1, 0, 0, 0, 0, 0] := by
  decide +kernel

end CiaServer.Net.IdolChannelTimer
