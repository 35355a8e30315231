import CiaServer.Interleave.Star
import CiaServer.Cti.RequestInv
import CiaServer.Net.CallRequests

/-!
# The whole server (`main.cpp`, `test_all`)

The voice card and the sessions of its clients. A session's `cti_callout` is a
move of the card's environment, and the card's `do_write` is one of the
session's; everything else each of them does by itself. A client is the number
of its session.

`ownAnswers`: what the card writes to a client is an answer to a call request
that this client has sent, with its `transid`, and no request has two.

Mirroring notes:
- `do_deal_call_out_request` calls `cti_callout` as the last thing its handler
  does. The call goes on as a thread of the card's.
- Every part has its own clock.
- An exception that leaves a thread of the card ends the process.
-/

namespace CiaServer

open Interleave
open Cti (Response Obs CallOutParam)
open Net (Protobuf Buffer)
open Wire (ByteOrder)
open Net.Session (Callout Call callRequests)

/-- What `start()` of a session is given. -/
structure Accepted where
  data : Buffer
  timeoutElapsed : Nat
  now : Nat

/-- `do_deal_call_out_request`: the call a step of client `k` hands to the card. -/
def callOut (k : Nat) (c c' : Conf Net.Session.Shared Net.Session.Pc) : Option Cti.Action :=
  match c'.shared.callouts with
  | [] => none
  | co :: rest =>
    if rest.length = c.shared.callouts.length then
      some (.call k co.transId co.authCode co.pn true)
    else none

/-- `do_write`: the client a step of the card writes to. -/
def written (c c' : Conf Cti.Shared Cti.Pc) : Option (Nat × Net.Session.Event) :=
  match c'.shared.log with
  | .response _ r :: rest =>
    if rest.length = c.shared.log.length then some (r.client, .write) else none
  | _ => none

/-- Calls come from the sessions only. -/
def isCall : Cti.Action → Bool
  | .call _ _ _ _ _ => true
  | _ => false

/-- Responses come from the card only. -/
def isWrite : Net.Session.Event → Bool
  | .write => true
  | _ => false

/-- `test_all`: the voice card and its clients. -/
def testAll (P : Protobuf) (o : ByteOrder) (cfg : Cti.Config) :
    Star Net.Session.Shared Net.Session.Pc Net.Session.Event Unit
      Cti.Shared Cti.Pc Cti.Action Int Accepted where
  part := Net.Session.session P o
  hub := Cti.voiceCard cfg
  start a := Net.Session.start a.data a.timeoutElapsed a.now
  ask := callOut
  tell := written
  asked := isCall
  told := isWrite
  up sh := !sh.crashed

/-- The clients and the card. -/
abbrev Server := Cluster Net.Session.Shared Net.Session.Pc Cti.Shared Cti.Pc

/-- What the server can come to. -/
def Reachable (P : Protobuf) (o : ByteOrder) (cfg : Cti.Config) (s : Server) : Prop :=
  ∃ echo, (testAll P o cfg).Reachable (Cti.initial cfg echo) s

/-! ## The calls of a client -/

/-- The call a request of client `k` is for. -/
def callBy (k : Nat) (p : CallOutParam) : Option Call :=
  if p.baseClient = k then some { transId := p.transId, authCode := p.authCode, pn := p.pn }
  else none

/-- The calls client `k` has handed to the card, in their order. -/
def callsBy (k : Nat) (params : List CallOutParam) : List Call := params.filterMap (callBy k)

/-- The card has of every client the calls that were handed over, and of nobody else any. -/
def CallsInv (s : Server) : Prop :=
  ∀ k : Nat, callsBy k s.hub.shared.params =
    (s.parts[k]?.elim [] fun c => c.shared.callouts.map Callout.call).reverse

theorem callBy_congr {k : Nat} {p p' : CallOutParam} (h : p'.call = p.call) :
    callBy k p' = callBy k p := by
  simp only [CallOutParam.call, Prod.mk.injEq, Option.some.injEq] at h
  obtain ⟨hc, ht, ha, hp⟩ := h
  rw [callBy, callBy, hc, ht, ha, hp]

/-- Requests that stay what they are are the same calls. -/
theorem callsBy_congr {k : Nat} {ps ps' : List CallOutParam} (hl : ps'.length = ps.length)
    (h : Cti.SameRequests ps ps') : callsBy k ps' = callsBy k ps := by
  have hmap : ps'.map (callBy k) = ps.map (callBy k) := by
    refine List.ext_getElem? fun x => ?_
    rw [List.getElem?_map, List.getElem?_map]
    cases hx : ps[x]? with
    | none =>
      rw [List.getElem?_eq_none_iff] at hx
      rw [List.getElem?_eq_none (by omega)]
    | some p =>
      obtain ⟨p', hp', hc⟩ := h x p hx
      rw [hp', Option.map_some, Option.map_some, callBy_congr hc]
  have hred : ∀ qs : List CallOutParam, callsBy k qs = (qs.map (callBy k)).filterMap id := by
    intro qs
    rw [List.filterMap_map]
    rfl
  rw [hred, hred, hmap]

/-! ## One step -/

variable {P : Protobuf} {o : ByteOrder} {cfg : Cti.Config} {k : Nat}

/-- A step of a session hands over one call, or none. -/
theorem callouts_step {c c' : Conf Net.Session.Shared Net.Session.Pc}
    {m : Move Net.Session.Event Unit} (h : (Net.Session.session P o).step c m = some c') :
    c'.shared.callouts = c.shared.callouts ∧ callOut k c c' = none ∨
    ∃ co : Callout, c'.shared.callouts = co :: c.shared.callouts ∧
      callOut k c c' = some (.call k co.transId co.authCode co.pn true) := by
  have hsame : c'.shared.callouts = c.shared.callouts →
      c'.shared.callouts = c.shared.callouts ∧ callOut k c c' = none := by
    intro hc
    refine ⟨hc, ?_⟩
    unfold callOut
    split
    · rfl
    · next co rest hr =>
      rw [if_neg]
      intro hlen
      rw [← hc, hr, List.length_cons] at hlen
      omega
  rcases Program.step_cases h with ⟨e, sh, new, _, he, rfl⟩ | ⟨i, r, l, sh, l', _, _, he, rfl⟩
  · refine Or.inl (hsame ?_)
    cases Net.Session.env_step he with
    | _ => rfl
  · cases Net.Session.exec_step he with
    | callOut =>
      refine Or.inr ⟨_, rfl, ?_⟩
      exact if_pos rfl
    | read => exact Or.inl (hsame (Net.Session.Shared.afterRead_callouts _ _ _))
    | check =>
      refine Or.inl (hsame ?_)
      show (Net.Session.Shared.doTimeoutCheck _).callouts = _
      unfold Net.Session.Shared.doTimeoutCheck
      split <;> rfl
    | _ => exact Or.inl (hsame rfl)

/-- The card writes, and a write hands over nothing. -/
theorem callouts_written {c c' : Conf Cti.Shared Cti.Pc} {j : Nat} {e : Net.Session.Event}
    (hw : written c c' = some (j, e)) {d d' : Conf Net.Session.Shared Net.Session.Pc}
    (h : (Net.Session.session P o).step d (.env e) = some d') :
    d'.shared.callouts = d.shared.callouts := by
  have he : e = .write := by
    unfold written at hw
    split at hw
    · split at hw
      · cases hw
        rfl
      · cases hw
    · cases hw
  subst he
  cases h
  rfl

/-- Nobody has handed over anything when he joins. -/
theorem callouts_start (a : Accepted) :
    (Net.Session.start a.data a.timeoutElapsed a.now).shared.callouts = [] := by
  show (if a.timeoutElapsed ≠ 0 then _ else _ : Net.Session.Shared).callouts = []
  split
  · unfold Net.Session.Shared.doTimeoutCheck
    split <;> rfl
  · rfl

/-- A move of the card that is no call leaves the requests as they are. -/
theorem requests_step {c c' : Conf Cti.Shared Cti.Pc} {m : Move Cti.Action Int}
    (hm : m.free isCall = true) (h : (Cti.voiceCard cfg).step c m = some c') :
    callsBy k c'.shared.params = callsBy k c.shared.params := by
  rcases Program.step_cases h with ⟨a, sh, new, rfl, he, rfl⟩ | ⟨i, r, l, sh, l', _, _, he, rfl⟩
  · cases (Cti.env_step he).2 with
    | call => cases hm
    | _ => rfl
  · have hp := Cti.thread_params (Cti.exec_step he).2
    exact callsBy_congr hp.1 hp.2

/-- A call is one more request, of the client that makes it. -/
theorem requests_call {c c' : Conf Cti.Shared Cti.Pc} {j : Nat} {co : Callout}
    (h : (Cti.voiceCard cfg).step c
      (.env (.call j co.transId co.authCode co.pn true)) = some c') :
    callsBy k c'.shared.params =
      callsBy k c.shared.params ++ if j = k then [co.call] else [] := by
  rcases Program.step_cases h with ⟨a, sh, new, ha, he, rfl⟩ | ⟨i, r, l, sh, l', hr, _⟩
  · cases ha
    have he' : Cti.env c.shared c.threads.length
        (.call j co.transId co.authCode co.pn true) = some (sh, new) := he
    cases (Cti.env_step he').2 with
    | call =>
      show callsBy k (_ ++ [_]) = _
      rw [callsBy, List.filterMap_append]
      congr 1
      have hby : callBy k (.new j co.transId co.authCode co.pn true c.shared.now) =
          if j = k then some co.call else none := rfl
      by_cases hj : j = k
      · rw [if_pos hj] at hby ⊢
        rw [List.filterMap_cons_some hby]
        rfl
      · rw [if_neg hj] at hby ⊢
        rw [List.filterMap_cons_none hby]
        rfl
  · cases hr

theorem callsInv {s : Server} (h : Reachable P o cfg s) : CallsInv s := by
  obtain ⟨echo, h⟩ := h
  refine Star.rule (I := CallsInv) (fun _ => rfl) ?_ h
  intro s s' _ hi hst k
  -- what client `j` has handed over, after a step of client `i`
  have hset : ∀ {i : Nat} {c c' : Conf Net.Session.Shared Net.Session.Pc}, s.parts[i]? = some c →
      (s.parts.set i c')[k]?.elim [] (fun c => c.shared.callouts.map Callout.call) =
        if i = k then c'.shared.callouts.map Callout.call
        else s.parts[k]?.elim [] fun c => c.shared.callouts.map Callout.call := by
    intro i c c' hc
    by_cases hik : i = k
    · subst hik
      rw [if_pos rfl, List.getElem?_set_self (List.getElem?_eq_some_iff.mp hc).1]
      rfl
    · rw [if_neg hik, List.getElem?_set_ne hik]
  have hkeep : ∀ {i : Nat} {c c' : Conf Net.Session.Shared Net.Session.Pc}, s.parts[i]? = some c →
      c'.shared.callouts = c.shared.callouts →
      (s.parts.set i c')[k]?.elim [] (fun c => c.shared.callouts.map Callout.call) =
        s.parts[k]?.elim [] fun c => c.shared.callouts.map Callout.call := by
    intro i c c' hc hcall
    rw [hset hc]
    split
    · next hik =>
      subst hik
      rw [hc, hcall]
      rfl
    · rfl
  have hik := hi k
  cases hst with
  | @part i m c c' hc hm hst ha =>
    rcases callouts_step (k := i) hst with ⟨hcall, _⟩ | ⟨co, _, hask⟩
    · show callsBy k s.hub.shared.params = _
      rw [hkeep hc hcall]
      exact hik
    · rw [show callOut i c c' = none from ha] at hask
      cases hask
  | @ask i m c c' a hub hc hm hst ha hh =>
    rcases callouts_step (k := i) hst with ⟨_, hask⟩ | ⟨co, hcall, hask⟩
    · rw [show callOut i c c' = some a from ha] at hask
      cases hask
    · cases (show callOut i c c' = some a from ha).symm.trans hask
      show callsBy k hub.shared.params = _
      rw [requests_call hh, hset hc, hik]
      split
      · next he =>
        subst he
        rw [hc, hcall, List.map_cons, List.reverse_cons]
        rfl
      · rw [List.append_nil]
  | @hub m hub parts hm hh hp =>
    show callsBy k hub.shared.params = _
    rw [requests_step hm hh, hik]
    rcases hp with rfl | ⟨i, a, c, c', hc, ht, hst, rfl⟩
    · rfl
    · rw [hkeep hc (callouts_written ht hst)]
  | join a =>
    show callsBy k s.hub.shared.params = _
    rw [hik]
    congr 1
    by_cases hk : k < s.parts.length
    · rw [List.getElem?_append_left hk]
    · rw [List.getElem?_append_right (by omega), List.getElem?_singleton,
        List.getElem?_eq_none (by omega)]
      split
      · show [] = (Net.Session.start _ _ _).shared.callouts.map Callout.call
        rw [callouts_start]
        rfl
      · rfl

/-! ## The answers to a client -/

/-- The `transid`s of what the card has written to client `k`, the newest first. -/
def answersTo (k : Nat) (log : List Obs) : List Bytes :=
  log.filterMap fun
    | .response _ r => if r.client = k then some r.transId else none
    | _ => none

/-- The request a response to client `k` answers. -/
def answeredOf (k : Nat) : Obs → Option Nat
  | .response req r => if r.client = k then req else none
  | _ => none

/-- The card answers requests of a client, and none of them twice. -/
theorem answersTo_subperm {s : Conf Cti.Shared Cti.Pc} (h : Cti.Reachable cfg s) (k : Nat) :
    (answersTo k s.shared.log).Subperm ((callsBy k s.shared.params).map Call.transId) := by
  have hone : ∀ x, tokens Obs.answers x s.shared.log ≤ 1 := by
    intro x
    have hplaced := Cti.reachable_requestInv h x
    unfold Cti.Shared.placed Cti.Shared.made at hplaced
    split at hplaced <;> omega
  let own : CallOutParam → Option Bytes := fun p => if p.baseClient = k then some p.transId else none
  have hnodup : (s.shared.log.filterMap (answeredOf k)).Nodup := by
    have hall : (s.shared.log.filterMap Obs.answers).Nodup :=
      List.nodup_iff_count_le_one.mpr fun x => by
        rw [count_filterMap_eq_tokens]
        exact hone x
    refine List.Nodup.sublist (filterMap_sublist ?_) hall
    intro ob _ x hx
    cases ob with
    | response req r =>
      simp only [answeredOf] at hx
      split at hx
      · exact hx
      · cases hx
    | _ => cases hx
  -- the request of a response is the client's, and has its `transid`
  have hanswers : answersTo k s.shared.log =
      (s.shared.log.filterMap (answeredOf k)).filterMap fun x => s.shared.params[x]?.bind own := by
    rw [List.filterMap_filterMap]
    refine List.filterMap_congr fun ob hob => ?_
    cases ob with
    | response req r =>
      obtain ⟨x, p, rfl, hp, hc, ht⟩ := Cti.reachable_answerInv h req r hob
      simp only [answeredOf]
      by_cases hk : r.client = k
      · rw [if_pos hk, if_pos hk, Option.bind_some, hp, Option.bind_some, ht]
        exact (if_pos (hc.symm.trans hk)).symm
      · rw [if_neg hk, if_neg hk]
        rfl
    | _ => rfl
  have hcalls : (callsBy k s.shared.params).map Call.transId = s.shared.params.filterMap own := by
    rw [callsBy, List.map_filterMap]
    refine List.filterMap_congr fun p _ => ?_
    show (callBy k p).map Call.transId = own p
    by_cases hk : p.baseClient = k
    · rw [callBy, if_pos hk]
      exact (if_pos hk).symm
    · rw [callBy, if_neg hk]
      exact (if_neg hk).symm
  rw [hanswers, hcalls]
  exact subperm_of_nodup_index own hnodup

/-- The card answers clients only. -/
theorem client_lt {s : Server} (h : Reachable P o cfg s) {req : Option Nat} {r : Response}
    (hr : Obs.response req r ∈ s.hub.shared.log) : r.client < s.parts.length := by
  have hcalls := callsInv h
  obtain ⟨echo, h⟩ := h
  by_contra hlt
  have hsub := answersTo_subperm ⟨echo, Star.reach_hub h⟩ r.client
  rw [hcalls r.client, List.getElem?_eq_none (Nat.le_of_not_lt hlt)] at hsub
  have hmem : r.transId ∈ answersTo r.client s.hub.shared.log :=
    List.mem_filterMap.mpr ⟨_, hr, if_pos rfl⟩
  cases hsub.subset hmem

/-- The answers to a client are answers to call requests in its stream. -/
theorem answersTo_asked {s : Server} (h : Reachable P o cfg s)
    {c : Conf Net.Session.Shared Net.Session.Pc} (hc : s.parts[k]? = some c) :
    (answersTo k s.hub.shared.log).Subperm
      ((callRequests P c.shared.reader.stream).map Call.transId) := by
  have hcalls := callsInv h
  obtain ⟨echo, h⟩ := h
  obtain ⟨a, hpart⟩ := Star.reach_part h hc
  have hsub := answersTo_subperm ⟨echo, Star.reach_hub h⟩ k
  rw [hcalls k, hc] at hsub
  obtain ⟨calls, hperm, hsubl⟩ := Net.Session.callouts_subperm hpart
  refine hsub.trans (List.Subperm.trans ?_ ⟨_, hperm.map Call.transId, hsubl.map Call.transId⟩)
  exact ((List.reverse_perm _).map Call.transId).subperm

/-- What a client gets is what it has asked for. -/
structure OwnAnswers (P : Protobuf) (s : Server) : Prop where
  /-- Nobody but the clients gets an answer. -/
  clients : ∀ req r, Obs.response req r ∈ s.hub.shared.log → r.client < s.parts.length
  /-- A client gets an answer for a call request in its stream, with its `transid`, and for
  none twice. -/
  own : ∀ (k : Nat) (c : Conf Net.Session.Shared Net.Session.Pc), s.parts[k]? = some c →
    (answersTo k s.hub.shared.log).Subperm
      ((callRequests P c.shared.reader.stream).map Call.transId)

/-- **No client gets an answer it has not asked for**, or two for one request, however
the sessions, the card and its driver interleave. -/
theorem ownAnswers {s : Server} (h : Reachable P o cfg s) : OwnAnswers P s :=
  ⟨fun _ _ hr => client_lt h hr, fun _ _ hc => answersTo_asked h hc⟩

/-- A client that connects and asks for a call, which is made and answered after a busy tone. -/
def oneCall : List (StarMove Net.Session.Event Unit Cti.Action Int Accepted) :=
  .join { data := Net.zeroed, timeoutElapsed := 0, now := 0 } ::
    Net.Session.callWithoutLogin.map (.part 0) ++
    [.hub (.run 2 0), .hub (.run 2 0), .hub (.run 2 0), .hub (.run 2 0), .hub (.run 2 0),
     .hub (.env (.event .procAutoDial 0 .busytone)), .hub (.run 3 0), .hub (.run 3 0),
     .hub (.run 3 0), .hub (.run 3 0), .hub (.run 3 0)]

theorem ownAnswers_oneCall :
    OwnAnswers Net.knownFields ((testAll Net.knownFields .little Cti.oneChannel).after
      (Cti.initial Cti.oneChannel fun _ => true) oneCall) :=
  ownAnswers ⟨fun _ => true, Star.reachable_after (by decide +kernel)⟩

example : answersTo 0 ((testAll Net.knownFields .little Cti.oneChannel).after
    (Cti.initial Cti.oneChannel fun _ => true) oneCall).hub.shared.log = [[1]] := by
  decide +kernel

end CiaServer
