import CiaServer.Net.ServerInv

/-!
# The server's handlers as steps of a session

In `Session` a handler is a thread, and others may come between its steps; in
`Server` it is one step. By itself the thread ends where the server's handler
does: a client and a session that agree on what both have (`Client.Agrees`)
agree when the handler is done (`handler_solo`).

The session has no buffers, so the handlers are those that get one where they
need it, and its clock is not set back.
-/

namespace CiaServer.Net.Server

open Wire Interleave Machine Tools
open Reader (AsyncRead asyncReadHeader asyncReadBody dealRequest)

/-- An `async_read` that has not completed, as the session has it. -/
def Client.reading (cl : Client) : List AsyncRead :=
  (cl.reads.filter fun rd => decide (rd.status = .pending)).map Read.op

/-- What a client and a session both have is the same. -/
structure Client.Agrees (cl : Client) (s : Session.Shared) : Prop where
  started : s.reader.started = cl.started
  readMsg : s.reader.readMsg = cl.readMsg
  updateTime : s.updateTime = cl.updateTime.1
  timeoutElapsed : s.timeoutElapsed = cl.timeoutElapsed
  isLogin : s.isLogin = cl.isLogin
  reading : s.reader.reading.toList = cl.reading
  sends : s.sends = cl.sends.count .pending
  checkTimeoutTimer : s.checkTimeoutTimer.toList.length = cl.waits.count .pending

/-- The thread of a handler in a session, and the clock it reads. -/
def ClientEvent.thread (cl : Client) : ClientEvent → Option (Session.Pc × Ptime)
  | .onRead k now =>
    match cl.reads[k]? with
    | some ⟨op, .queued ec⟩ => some (.read (op.handler ec), now)
    | _ => none
  | .onSend k now =>
    match cl.sends[k]? with
    | some (.queued ec) => some (.onSend ec, now)
    | _ => none
  | .onTimer k now =>
    match cl.waits[k]? with
    | some (.queued ec) => some (.onTimer ec, now)
    | _ => none
  | _ => none

variable {w : WordSize} {P : Protobuf} {o : ByteOrder} {cfg : ConfigServer} {c n i : Nat}
  {r : Registry} {cl cl' : Client} {s : Session.Shared} {now : Ptime}

/-- Thread `i` of a session comes to its end by itself, and leaves `s'`. -/
def Ends (P : Protobuf) (o : ByteOrder) (n i : Nat) (s : Session.Shared) (pc : Session.Pc)
    (s' : Session.Shared) : Prop :=
  ∃ pc', (Session.session P o).Solo (fun _ => False) (fun _ => ()) n i (s, pc) (s', pc') ∧
    Session.exec P o s' i pc' () = none

/-- One step first. -/
theorem Ends.head {s₁ s' : Session.Shared} {pc pc₁ : Session.Pc}
    (h : Session.exec P o s i pc () = some (s₁, pc₁)) (hb : Ends P o n i s₁ pc₁ s') :
    Ends P o n i s pc s' := by
  obtain ⟨pc', hsolo, hend⟩ := hb
  exact ⟨pc', Program.Solo.head h hsolo, hend⟩

/-- One step that is the last. -/
theorem Ends.last {s' : Session.Shared} {pc pc' : Session.Pc}
    (h : Session.exec P o s i pc () = some (s', pc')) (hend : Session.exec P o s' i pc' () = none) :
    Ends P o n i s pc s' :=
  ⟨pc', Program.Solo.head h .refl, hend⟩

/-! ## What the functions do to both -/

theorem count_abort (l : List Status) : (l.map Status.abort).count .pending = 0 := by
  rw [List.count_eq_zero]
  intro h
  obtain ⟨st, -, hst⟩ := List.mem_map.mp h
  cases st <;> cases hst

theorem count_append_pending (l : List Status) :
    (l ++ [Status.pending]).count .pending = l.count .pending + 1 := by
  rw [List.count_append, List.count_singleton_self]

/-- The `stop` of a handler of a read. -/
theorem Client.Agrees.stopReader (ha : cl.Agrees s) (c : Nat) (r : Registry) :
    (stop c r cl).2.Agrees { s with reader := { s.reader with started := false } } := by
  unfold stop
  split
  · exact { ha with started := rfl }
  · next hs => exact { ha with started := (Bool.eq_false_of_not_eq_true hs).symm }

/-- The `stop` of another handler. -/
theorem Client.Agrees.stop (ha : cl.Agrees s) (c : Nat) (r : Registry) :
    (Server.stop c r cl).2.Agrees s.stop := by
  have h := ha.stopReader c r
  exact { h with }

theorem Client.Agrees.doWrite (ha : cl.Agrees s) (h : cl.doWrite = some cl') :
    cl'.Agrees { s with sends := s.sends + 1 } := by
  obtain ⟨q, -, rfl⟩ := doWrite_spec h
  exact { ha with sends := by rw [count_append_pending, ha.sends] }

theorem Client.Agrees.doTimeoutCheck (ha : cl.Agrees s) :
    cl.doTimeoutCheck.Agrees s.doTimeoutCheck := by
  unfold Session.Shared.doTimeoutCheck
  rw [ha.started]
  rcases doTimeoutCheck_cases cl with ⟨hs, he⟩ | ⟨hs, he⟩
  · rw [if_pos hs, he]
    exact { ha with checkTimeoutTimer := by rw [count_append_pending, count_abort]; rfl }
  · rw [if_neg (by rw [hs]; decide), he]
    exact ha

theorem Client.Agrees.doReadHeader (ha : cl.Agrees s) (hr : cl.reads = []) :
    cl.doReadHeader.Agrees
      { s with reader := { s.reader with reading := some asyncReadHeader } } :=
  { ha with reading := by rw [Client.doReadHeader, Client.reading, hr]; rfl }

theorem Client.Agrees.doReadBody (ha : cl.Agrees s) (hr : cl.reads = []) :
    cl.doReadBody.Agrees
      { s with reader := { s.reader with reading := some (asyncReadBody s.reader.readMsg) } } :=
  { ha with reading := by rw [ha.readMsg, Client.doReadBody, Client.reading, hr]; rfl }

/-! ## The handlers -/

theorem onHeader_solo (P : Protobuf) (o : ByteOrder) (n i c : Nat) (r : Registry)
    (ha : cl.Agrees s) (hr : cl.reads = []) (ec : Bool) :
    ∃ s', Ends P o n i s (.read (.onHeader ec)) s' ∧ (onHeader o c ec r cl).2.Agrees s' := by
  cases ec with
  | true => exact ⟨_, Ends.head rfl (Ends.last rfl rfl), ha.stopReader c r⟩
  | false =>
    have hm : ({ cl with readMsg := (cl.readMsg.decodeHeader o).2 } : Client).Agrees
        { s with
          reader := { s.reader with readMsg := (s.reader.readMsg.decodeHeader o).2 }
          heard := s.now } :=
      { ha with readMsg := by rw [ha.readMsg] }
    have hstep : Session.exec P o s i (.read (.onHeader false)) ()
        = some ({ s with
            reader := { s.reader with readMsg := (s.reader.readMsg.decodeHeader o).2 }
            heard := s.now },
          .read (if (cl.readMsg.decodeHeader o).1 then .readBody else .stop)) := by
      rw [← ha.readMsg]
      rfl
    unfold onHeader
    dsimp only
    split
    · next hd =>
      rw [if_pos hd] at hstep
      exact ⟨_, Ends.head hstep (Ends.last rfl rfl), hm.doReadBody hr⟩
    · next hd =>
      rw [if_neg hd] at hstep
      exact ⟨_, Ends.head hstep (Ends.last rfl rfl), hm.stopReader c r⟩

/-- `do_deal_request`, from the copy on. -/
theorem doDealRequest_solo {chMsg : ChatMessage} (ha : cl.Agrees s) (hnow : s.now = now.1)
    (h : cl.doDealRequest P now chMsg = some cl') :
    ∃ s', Ends P o n i s (.read (.deal chMsg)) s' ∧ cl'.Agrees s' := by
  have hstep : Session.exec P o s i (.read (.deal chMsg)) ()
      = some (s, .read (.dealt chMsg.body (dealRequest P chMsg.body))) := rfl
  unfold Client.doDealRequest at h
  split at h
  · next hd =>
    obtain ⟨cl₁, hwrite, rfl⟩ := Option.map_eq_some_iff.mp h
    rw [hd] at hstep
    exact ⟨_, Ends.head hstep (Ends.head rfl (Ends.last rfl rfl)),
      { ha.doWrite hwrite with isLogin := rfl }⟩
  · next hd =>
    cases h
    rw [hd] at hstep
    exact ⟨_, Ends.head hstep (Ends.last rfl rfl), { ha with updateTime := hnow }⟩
  · next hd =>
    cases h
    rw [hd] at hstep
    exact ⟨_, Ends.head hstep (Ends.last rfl rfl), { ha with }⟩
  · next hd =>
    cases h
    rw [hd] at hstep
    exact ⟨_, Ends.head hstep (Ends.last rfl rfl), ha⟩

theorem onBody_solo {p : Registry × Client} {ec : Bool} (ha : cl.Agrees s) (hr : cl.reads = [])
    (hnow : s.now = now.1) (h : onBody P c ec now r cl = some p) :
    ∃ s', Ends P o n i s (.read (.onBody ec)) s' ∧ p.2.Agrees s' := by
  unfold onBody at h
  cases ec with
  | true =>
    cases h
    exact ⟨_, Ends.head rfl (Ends.last rfl rfl), ha.stopReader c r⟩
  | false =>
    obtain ⟨cl₁, hdeal, rfl⟩ := Option.map_eq_some_iff.mp h
    have hu : ({ cl with updateTime := now } : Client).Agrees
        { s with heard := s.now, updateTime := s.now } :=
      { ha with updateTime := hnow }
    obtain ⟨s', hends, ha'⟩ := doDealRequest_solo (o := o) (n := n) (i := i)
      (hu.doReadHeader hr) hnow hdeal
    rw [← ha.readMsg] at hends
    exact ⟨s', Ends.head rfl (Ends.head rfl hends), ha'⟩

theorem onSend_solo (P : Protobuf) (o : ByteOrder) (n i c : Nat) (r : Registry)
    (ha : cl.Agrees s) (hnow : s.now = now.1) (ec : Bool) :
    ∃ s', Ends P o n i s (.onSend ec) s' ∧ (onSend c ec now r cl).2.Agrees s' := by
  have hq : ({ cl with writeMsgQueue := cl.writeMsgQueue + 1 } : Client).Agrees s := { ha with }
  cases ec with
  | true => exact ⟨_, Ends.last rfl rfl, hq.stop c r⟩
  | false => exact ⟨_, Ends.last rfl rfl, { hq with updateTime := hnow }⟩

theorem onTimer_solo {p : Registry × Client} {ec : Bool} (ha : cl.Agrees s) (hnow : s.now = now.1)
    (hle : s.updateTime ≤ s.now) (h : onTimer w c ec now r cl = some p) :
    ∃ s', Ends P o n i s (.onTimer ec) s' ∧ p.2.Agrees s' := by
  unfold onTimer at h
  cases ec with
  | true =>
    cases h
    exact ⟨_, Ends.last rfl rfl, ha.stop c r⟩
  | false =>
    have hstep := Session.exec_onTimer P o w i hnow.symm ha.updateTime.symm hle
    rw [ha.timeoutElapsed] at hstep
    dsimp only at h
    split at h
    · next hc =>
      cases h
      rw [hc] at hstep
      exact ⟨_, Ends.head hstep (Ends.last rfl rfl), (ha.stop c r).doTimeoutCheck⟩
    · next hc =>
      obtain ⟨cl₁, hwrite, rfl⟩ := Option.map_eq_some_iff.mp h
      rw [hc] at hstep
      exact ⟨_, Ends.head hstep (Ends.head rfl (Ends.last rfl rfl)), (ha.doWrite hwrite).doTimeoutCheck⟩
    · next hc =>
      cases h
      rw [hc] at hstep
      exact ⟨_, Ends.head hstep (Ends.last rfl rfl), ha.doTimeoutCheck⟩

/-! ## The step of the server -/

/-- A client that is started is a session that begins. -/
theorem start_agrees {data : Buffer} (hf : cl.Fresh) (hm : cl.readMsg = ChatMessage.new data)
    (hl : cl.isLogin = false) (hs : cl.sends = []) (c : Nat) (now : Ptime) (r : Registry) :
    (start c now r cl).2.Agrees (Session.start data cl.timeoutElapsed now.1).shared := by
  have hsends : 0 = cl.sends.count .pending := by rw [hs]; rfl
  rw [start_spec hf]
  by_cases ht : cl.timeoutElapsed = 0
  · rw [Session.start, if_neg (not_not.mpr ht), if_pos ht]
    exact ⟨rfl, hm.symm, rfl, rfl, hl.symm, rfl, hsends, rfl⟩
  · rw [Session.start, if_pos ht, if_neg ht]
    exact ⟨rfl, hm.symm, rfl, rfl, hl.symm, rfl, hsends, rfl⟩

/-- Without an operation that is complete, the session has the same. -/
theorem Client.Agrees.eraseRead {k : Nat} {op : AsyncRead} {ec : Bool} (ha : cl.Agrees s)
    (hi : cl.Ok n) (hk : cl.reads[k]? = some ⟨op, .queued ec⟩) :
    ({ cl with reads := cl.reads.eraseIdx k } : Client).Agrees s ∧ cl.reads.eraseIdx k = [] := by
  have hlen := length_eraseIdx_of_some hk
  have hle := hi.reads_le
  have hnil : cl.reads.eraseIdx k = [] := List.eq_nil_of_length_eq_zero (by omega)
  refine ⟨{ ha with reading := ?_ }, hnil⟩
  obtain ⟨rd, hrd⟩ := List.length_eq_one_iff.mp (show cl.reads.length = 1 by omega)
  have hmem := List.mem_of_getElem? hk
  rw [hrd, List.mem_singleton] at hmem
  rw [ha.reading, Client.reading, Client.reading, hnil, hrd, ← hmem]
  rfl

theorem count_eraseIdx_queued {l : List Status} {k : Nat} {ec : Bool}
    (hk : l[k]? = some (.queued ec)) : (l.eraseIdx k).count .pending = l.count .pending := by
  obtain ⟨hlt, hget⟩ := List.getElem?_eq_some_iff.mp hk
  have hne : Status.queued ec ≠ .pending := nofun
  rw [← (List.getElem_cons_eraseIdx_perm hlt).count_eq, hget, List.count_cons_of_ne hne]

/-- **A handler of the server is what its thread does by itself** in a session
that agrees with the client. -/
theorem handler_solo {e : ClientEvent} {r' : Registry} {pc : Session.Pc} (o : ByteOrder) (m i : Nat)
    (hi : cl.Ok n) (ha : cl.Agrees s) (hpc : e.thread cl = some (pc, now)) (hnow : s.now = now.1)
    (hle : s.updateTime ≤ s.now) (h : clientStep w P o c r cl e = some (r', cl')) :
    ∃ s', Ends P o m i s pc s' ∧ cl'.Agrees s' := by
  unfold ClientEvent.thread at hpc
  split at hpc
  · next k now' =>
    split at hpc <;> cases hpc
    next op ec hk =>
    obtain ⟨ha', hr⟩ := ha.eraseRead hi hk
    cases hp : op.part with
    | header =>
      simp only [clientStep, hk, hp] at h
      have hcl : cl' = (onHeader o c ec r { cl with reads := cl.reads.eraseIdx k }).2 := by
        rw [Option.some.inj h]
      rw [hcl, show op.handler ec = .onHeader ec by rw [AsyncRead.handler, hp]]
      exact onHeader_solo P o m i c r ha' hr ec
    | body =>
      simp only [clientStep, hk, hp] at h
      rw [show op.handler ec = .onBody ec by rw [AsyncRead.handler, hp]]
      exact onBody_solo ha' hr hnow h
  · next k now' =>
    split at hpc <;> cases hpc
    next ec hk =>
    have ha' : ({ cl with sends := cl.sends.eraseIdx k } : Client).Agrees s :=
      { ha with sends := by rw [count_eraseIdx_queued hk, ha.sends] }
    simp only [clientStep, hk] at h
    have hcl : cl' = (onSend c ec now r { cl with sends := cl.sends.eraseIdx k }).2 := by
      rw [Option.some.inj h]
    rw [hcl]
    exact onSend_solo P o m i c r ha' hnow ec
  · next k now' =>
    split at hpc <;> cases hpc
    next ec hk =>
    have ha' : ({ cl with waits := cl.waits.eraseIdx k } : Client).Agrees s :=
      { ha with checkTimeoutTimer := by rw [count_eraseIdx_queued hk, ha.checkTimeoutTimer] }
    simp only [clientStep, hk] at h
    exact onTimer_solo ha' hnow hle h
  · cases hpc

end CiaServer.Net.Server
