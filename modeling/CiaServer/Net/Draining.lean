import CiaServer.Net.ServerInv

/-!
# A stopped client drains

After `stop()` nothing new is armed for its own sake: a read that has been
completed still leads to the next one, which then fails on the closed socket, a
request still gets its answer, and the check may still send a heartbeat before
it sees that the client does not run. A read of no bytes goes round once more,
because it need not fail.

`Client.work` counts what is left: each operation weighs more than all that its
completion and its handler can bring about on a closed socket. Every step of
the client takes something off it (`ClientStep.work_lt`), and as long as
something is outstanding a step is possible (`exists_step`), so in the end
nothing refers to the client (`drains`).
-/

namespace CiaServer.Net.Server

open Wire Interleave Machine Tools
open Reader (AsyncRead asyncReadHeader asyncReadBody dealRequest Part)

/-! ## What is left to do -/

/-- A header that has been read leads to a body, a body to a header and an answer. -/
def readWork : Part → Nat
  | .header => 7
  | .body => 5

/-- Only a read of no bytes can still succeed. -/
def Read.work (rd : Read) : Nat :=
  match rd.status with
  | .pending => if rd.op.want = 0 then readWork rd.op.part + 1 else 2
  | .queued false => readWork rd.op.part
  | .queued true => 1

def sendWork : Status → Nat
  | .pending => 2
  | .queued _ => 1

/-- The check may send a heartbeat. -/
def waitWork : Status → Nat
  | .pending => 4
  | .queued false => 3
  | .queued true => 1

/-- A bound on the steps of a client that was stopped. -/
def Client.work (cl : Client) : Nat :=
  (cl.reads.map Read.work).sum + (cl.sends.map sendWork).sum + (cl.waits.map waitWork).sum

/-- `stop()` has been called. -/
structure Client.Stopped (cl : Client) : Prop where
  started : cl.started = false
  closed : cl.closed = true

variable {w : WordSize} {P : Protobuf} {o : ByteOrder} {cfg : ConfigServer} {c n : Nat}
  {r r' : Registry} {cl cl' : Client} {e : ClientEvent}

/-! ## A step takes something off -/

/-- To a client that was stopped, `stop()` does nothing. -/
theorem stop_of_stopped (h : stop c r cl = (r', cl')) (hs : cl.started = false) : cl' = cl := by
  rcases stop_cases h with ⟨ht, _⟩ | ⟨_, _, he⟩
  · rw [hs] at ht
    cases ht
  · exact he

theorem doTimeoutCheck_of_stopped (hs : cl.started = false) : cl.doTimeoutCheck = cl := by
  rcases doTimeoutCheck_cases cl with ⟨ht, _⟩ | ⟨_, he⟩
  · rw [hs] at ht
    cases ht
  · exact he

theorem Client.Stopped.congr (h : cl.Stopped) (hs : cl'.started = cl.started)
    (hc : cl'.closed = cl.closed) : cl'.Stopped := ⟨hs.trans h.started, hc.trans h.closed⟩

theorem ClientStep.stopped (h : ClientStep w P o c r cl e r' cl') (hs : cl.Stopped) :
    cl'.Stopped := by
  cases h with
  | readFailed _ _ h =>
    rw [stop_of_stopped h hs.started]
    exact hs.congr rfl rfl
  | sendFailed _ h =>
    rw [stop_of_stopped h hs.started]
    exact hs.congr rfl rfl
  | timerFailed _ h =>
    rw [stop_of_stopped h hs.started]
    exact hs.congr rfl rfl
  | timedOut _ h =>
    rw [doTimeoutCheck_of_stop h, stop_of_stopped h hs.started]
    exact hs.congr rfl rfl
  | body _ _ hdeal =>
    rcases doDealRequest_cases hdeal with ⟨_, rfl⟩ | ⟨_, _, rfl⟩ <;> exact hs.congr rfl rfl
  | @quiet k now cl₁ _ hwrite =>
    have hs₁ : cl₁.Stopped := by
      obtain ⟨_, _, rfl⟩ := doWrite_spec hwrite
      exact hs.congr rfl rfl
    rw [doTimeoutCheck_of_stopped hs₁.started]
    exact hs₁
  | @busy k =>
    have hs₁ : Client.Stopped { cl with waits := cl.waits.eraseIdx k } := hs.congr rfl rfl
    rw [doTimeoutCheck_of_stopped hs₁.started]
    exact hs₁
  | write hwrite =>
    obtain ⟨_, _, rfl⟩ := doWrite_spec hwrite
    exact hs.congr rfl rfl
  | _ => exact hs.congr rfl rfl

theorem readWork_pos (part : Part) : 5 ≤ readWork part := by
  cases part <;> decide

/-- A read whose handler is queued has been one that is worth more. -/
theorem Read.work_queued_lt {op : AsyncRead} {ec : Bool} (h : ec = false → op.want = 0) :
    Read.work ⟨op, .queued ec⟩ < Read.work ⟨op, .pending⟩ := by
  have hpos := readWork_pos op.part
  unfold Read.work
  dsimp only
  cases ec with
  | true =>
    dsimp only
    split <;> omega
  | false =>
    rw [if_pos (h rfl)]
    exact Nat.lt_succ_self _

theorem Read.work_pos (rd : Read) : 0 < rd.work := by
  have hpos := readWork_pos rd.op.part
  unfold Read.work
  split
  · split <;> omega
  · omega
  · exact Nat.one_pos

theorem sendWork_pos (st : Status) : 0 < sendWork st := by
  cases st <;> exact Nat.succ_pos _

theorem waitWork_pos : ∀ st : Status, 0 < waitWork st
  | .pending => by decide
  | .queued false => by decide
  | .queued true => by decide

/-- What is started anew. -/
theorem Read.work_header : Read.work ⟨asyncReadHeader, .pending⟩ = 2 := rfl

theorem Read.work_body_le (m : ChatMessage) : Read.work ⟨asyncReadBody m, .pending⟩ ≤ 6 := by
  unfold Read.work
  dsimp only
  split
  · exact Nat.le_refl _
  · decide

theorem work_lt_of_reads (hs : cl'.sends = cl.sends) (hw : cl'.waits = cl.waits)
    (hr : (cl'.reads.map Read.work).sum < (cl.reads.map Read.work).sum) : cl'.work < cl.work := by
  unfold Client.work
  rw [hs, hw]
  omega

theorem work_lt_of_sends (hr : cl'.reads = cl.reads) (hw : cl'.waits = cl.waits)
    (hs : (cl'.sends.map sendWork).sum < (cl.sends.map sendWork).sum) : cl'.work < cl.work := by
  unfold Client.work
  rw [hr, hw]
  omega

theorem work_lt_of_waits (hr : cl'.reads = cl.reads) (hs : cl'.sends = cl.sends)
    (hw : (cl'.waits.map waitWork).sum < (cl.waits.map waitWork).sum) : cl'.work < cl.work := by
  unfold Client.work
  rw [hr, hs]
  omega

/-- **Every step of a stopped client leaves less to do**, unless the voice card
writes to it. -/
theorem ClientStep.work_lt (h : ClientStep w P o c r cl e r' cl') (hs : cl.Stopped)
    (he : e ≠ .write) : cl'.work < cl.work := by
  cases h with
  | @readDone k op ec bs hk hec =>
    have hlt : Read.work ⟨op, .queued ec⟩ < Read.work ⟨op, .pending⟩ :=
      Read.work_queued_lt fun h => hec h hs.closed
    exact work_lt_of_reads rfl rfl (sum_map_set_lt Read.work hk hlt)
  | @sendDone k ec hk hec =>
    have hlt : sendWork (.queued ec) < sendWork .pending := Nat.one_lt_two
    exact work_lt_of_sends rfl rfl (sum_map_set_lt sendWork hk hlt)
  | @waitDone k ec hk =>
    have hlt : waitWork (.queued ec) < waitWork .pending := by cases ec <;> decide
    exact work_lt_of_waits rfl rfl (sum_map_set_lt waitWork hk hlt)
  | @readFailed k now op ec r' cl' readMsg hk h =>
    rw [stop_of_stopped h hs.started]
    exact work_lt_of_reads rfl rfl (sum_map_eraseIdx_lt Read.work hk (Read.work_pos _))
  | @header k now op readMsg hk hop =>
    have herase := sum_map_eraseIdx Read.work hk
    have hnew := Read.work_body_le readMsg
    have hold : Read.work ⟨op, .queued false⟩ = 7 := congrArg readWork hop
    have hr : ((cl.reads.eraseIdx k ++ [(⟨asyncReadBody readMsg, .pending⟩ : Read)]).map
        Read.work).sum < (cl.reads.map Read.work).sum := by
      rw [sum_map_append_singleton]
      omega
    exact work_lt_of_reads rfl rfl hr
  | @body k now op cl' hk hop hdeal =>
    have herase := sum_map_eraseIdx Read.work hk
    have hold : Read.work ⟨op, .queued false⟩ = 5 := congrArg readWork hop
    have hr : ((cl.reads.eraseIdx k ++ [(⟨asyncReadHeader, .pending⟩ : Read)]).map
        Read.work).sum + 3 = (cl.reads.map Read.work).sum := by
      rw [sum_map_append_singleton, Read.work_header]
      omega
    rcases doDealRequest_cases hdeal with ⟨_, rfl⟩ | ⟨q, _, rfl⟩
    · exact work_lt_of_reads rfl rfl (by rw [← hr]; exact Nat.lt_add_of_pos_right (by decide))
    · -- the answer is a send
      have hsend : ((cl.sends ++ [Status.pending]).map sendWork).sum
          = (cl.sends.map sendWork).sum + 2 := sum_map_append_singleton ..
      unfold Client.work
      dsimp only [Client.doReadHeader]
      omega
  | @sendFailed k now r' cl' hk h =>
    rw [stop_of_stopped h hs.started]
    exact work_lt_of_sends rfl rfl (sum_map_eraseIdx_lt sendWork hk (sendWork_pos _))
  | @sent k now hk =>
    exact work_lt_of_sends rfl rfl (sum_map_eraseIdx_lt sendWork hk (sendWork_pos _))
  | @timerFailed k now r' cl' hk h =>
    rw [stop_of_stopped h hs.started]
    exact work_lt_of_waits rfl rfl (sum_map_eraseIdx_lt waitWork hk (waitWork_pos _))
  | @timedOut k now r' cl' hk h =>
    rw [doTimeoutCheck_of_stop h, stop_of_stopped h hs.started]
    exact work_lt_of_waits rfl rfl (sum_map_eraseIdx_lt waitWork hk (waitWork_pos _))
  | @quiet k now cl₁ hk hwrite =>
    have herase := sum_map_eraseIdx waitWork hk
    obtain ⟨q, _, hcl₁⟩ := doWrite_spec hwrite
    have hs₁ : cl₁.started = false := by rw [hcl₁]; exact hs.started
    have hsend : ((cl.sends ++ [Status.pending]).map sendWork).sum
        = (cl.sends.map sendWork).sum + 2 := sum_map_append_singleton ..
    rw [doTimeoutCheck_of_stopped hs₁, hcl₁]
    simp only [waitWork] at herase
    unfold Client.work
    dsimp only
    omega
  | @busy k now hk =>
    have hs₁ : Client.Stopped { cl with waits := cl.waits.eraseIdx k } := hs.congr rfl rfl
    rw [doTimeoutCheck_of_stopped hs₁.started]
    exact work_lt_of_waits rfl rfl (sum_map_eraseIdx_lt waitWork hk (waitWork_pos _))
  | write => exact absurd rfl he

/-! ## As long as something is outstanding, a step is possible -/

/-- Nothing is outstanding. -/
structure Client.Idle (cl : Client) : Prop where
  reads : cl.reads = []
  sends : cl.sends = []
  waits : cl.waits = []

/-- Without an operation only the voice card can do something. -/
theorem clientStep_of_idle (h : cl.Idle) (he : e ≠ .write) :
    clientStep w P o c r cl e = none := by
  cases e with
  | write => exact absurd rfl he
  | readDone k ec bs => simp only [clientStep, h.reads, List.getElem?_nil]
  | onRead k now => simp only [clientStep, h.reads, List.getElem?_nil]
  | sendDone k ec =>
    simp only [clientStep, h.sends, List.getElem?_nil, reduceCtorEq, false_and, if_false]
  | onSend k now => simp only [clientStep, h.sends, List.getElem?_nil]
  | waitDone k ec => simp only [clientStep, h.waits, List.getElem?_nil, reduceCtorEq, if_false]
  | onTimer k now => simp only [clientStep, h.waits, List.getElem?_nil]

/-- A send completes with an error, and the handler of a send never waits. -/
theorem exists_step_of_send {st : Status} {sends : List Status} (h : cl.sends = st :: sends)
    (now : Ptime) : ∃ e, e ≠ .write ∧ (clientStep w P o c r cl e).isSome = true := by
  cases st with
  | pending =>
    refine ⟨.sendDone 0 true, nofun, ?_⟩
    simp [clientStep, h]
  | queued ec =>
    refine ⟨.onSend 0 now, nofun, ?_⟩
    simp [clientStep, h]

/-- With a buffer in the queue, `do_write` does not wait. -/
theorem isSome_doWrite (h : 0 < cl.writeMsgQueue) : cl.doWrite.isSome = true := by
  rw [Client.doWrite, if_neg (Nat.ne_of_gt h)]
  rfl

theorem isSome_doDealRequest (h : 0 < cl.writeMsgQueue) (now : Ptime) (chMsg : ChatMessage) :
    (cl.doDealRequest P now chMsg).isSome = true := by
  unfold Client.doDealRequest
  split
  · rw [Option.isSome_map]
    exact isSome_doWrite h
  · rfl
  · rfl
  · rfl

theorem exists_step_of_read {rd : Read} {reads : List Read} (h : cl.reads = rd :: reads)
    (hq : 0 < cl.writeMsgQueue) (now : Ptime) :
    ∃ e, e ≠ .write ∧ (clientStep w P o c r cl e).isSome = true := by
  obtain ⟨op, st⟩ := rd
  cases st with
  | pending =>
    refine ⟨.readDone 0 true [], nofun, ?_⟩
    simp [clientStep, h]
  | queued ec =>
    refine ⟨.onRead 0 now, nofun, ?_⟩
    simp only [clientStep, h, List.getElem?_cons_zero]
    split
    · rfl
    · unfold onBody
      split
      · rfl
      · rw [Option.isSome_map]
        refine isSome_doDealRequest ?_ now cl.readMsg
        exact hq

theorem exists_step_of_wait {st : Status} {waits : List Status} (h : cl.waits = st :: waits)
    (hq : 0 < cl.writeMsgQueue) (now : Ptime) :
    ∃ e, e ≠ .write ∧ (clientStep w P o c r cl e).isSome = true := by
  cases st with
  | pending =>
    refine ⟨.waitDone 0 true, nofun, ?_⟩
    simp [clientStep, h]
  | queued ec =>
    refine ⟨.onTimer 0 now, nofun, ?_⟩
    simp only [clientStep, h, List.getElem?_cons_zero]
    unfold onTimer
    split
    · rfl
    · split
      · rfl
      · rw [Option.isSome_map]
        exact isSome_doWrite hq
      · rfl

/-- A client with a buffer of its own never waits for ever. -/
theorem exists_step (hi : cl.Ok n) (hn : 0 < n) (hidle : ¬cl.Idle) :
    ∃ e, e ≠ .write ∧ (clientStep w P o c r cl e).isSome = true := by
  have now := Ptime.zero
  cases hs : cl.sends with
  | cons st sends => exact exists_step_of_send hs now
  | nil =>
    -- no send has a buffer, so the queue has them all
    have hq : 0 < cl.writeMsgQueue := by
      have hb := hi.buffers
      rw [hs, List.length_nil] at hb
      omega
    cases hr : cl.reads with
    | cons rd reads => exact exists_step_of_read hr hq now
    | nil =>
      cases hw : cl.waits with
      | cons st waits => exact exists_step_of_wait hw hq now
      | nil => exact absurd ⟨hr, hs, hw⟩ hidle

/-! ## The run -/

/-- How many `shared_ptr`s there are to the client `c`. -/
def State.references (s : State) (c : Nat) : Nat :=
  s.registry.clients.count c + (if s.accepting = some c then 1 else 0) +
    ((s.objects[c]?).elim 0 fun cl => cl.reads.length + cl.sends.length + cl.waits.length)

/-- A step of client `c`, or something that happens to it. -/
def Event.of (c : Nat) : Event → Bool
  | .client d _ => d == c
  | .accept _ _ _ => false

/-- What the client still has to do. -/
def State.work (s : State) (c : Nat) : Nat := (s.objects[c]?).elim 0 Client.work

/-- The client `c` is stopped. -/
structure StoppedAt (n c : Nat) (s : State) : Prop where
  inv : Inv n s
  stopped : ∃ cl, s.objects[c]? = some cl ∧ Client.Stopped cl

/-- What a step of the server does to a client that was stopped: it is the
client's own, or leaves it alone. -/
theorem StoppedAt.object {s s' : State} {ev : Event} (hi : StoppedAt n c s)
    (h : step w P o cfg s ev = some s') :
    (ev.of c = false ∧ s'.objects[c]? = s.objects[c]?) ∨
    ∃ e cl r' cl', ev = .client c e ∧ s.objects[c]? = some cl ∧ Client.Stopped cl ∧
      ClientStep w P o c s.registry cl e r' cl' ∧ s'.objects[c]? = some cl' := by
  obtain ⟨cl₀, hc₀, hs₀⟩ := hi.stopped
  have hlt := (List.getElem?_eq_some_iff.mp hc₀).1
  rcases step_cases h with ⟨_, _, rfl, rfl⟩ | ⟨now, data, d, dl, rfl, ha, hd, _, rfl⟩ |
    ⟨d, e, dl, r', dl', rfl, hd, hstep, rfl⟩
  · exact Or.inl ⟨rfl, rfl⟩
  · -- the acceptor's client was never closed
    left
    refine ⟨rfl, ?_⟩
    have hne : d ≠ c := by
      rintro rfl
      obtain ⟨fl, hf, hfresh⟩ := hi.inv.accepting d ha
      rw [hc₀] at hf
      cases hf
      exact Bool.false_ne_true (hfresh.closed.symm.trans hs₀.closed)
    rw [List.getElem?_append_left (by rw [List.length_set]; exact hlt), List.getElem?_set_ne hne]
  · by_cases hdc : d = c
    · subst hdc
      rw [hc₀] at hd
      cases hd
      exact Or.inr ⟨e, cl₀, r', dl', rfl, hc₀, hs₀, hstep, List.getElem?_set_self hlt⟩
    · exact Or.inl ⟨decide_eq_false hdc, List.getElem?_set_ne hdc⟩

theorem StoppedAt.next {s s' : State} {ev : Event} (hi : StoppedAt cfg.getIocpThreadNumber c s)
    (h : step w P o cfg s ev = some s') : StoppedAt cfg.getIocpThreadNumber c s' := by
  refine ⟨inv_step hi.inv h, ?_⟩
  rcases hi.object h with ⟨_, hsame⟩ | ⟨_, _, _, cl', _, _, hs, hstep, hc'⟩
  · rw [hsame]
    exact hi.stopped
  · exact ⟨cl', hc', hstep.stopped hs⟩

/-- A step of the client takes something off, and no other step adds to it. -/
theorem StoppedAt.work_le {s s' : State} {ev : Event} (hi : StoppedAt n c s)
    (h : step w P o cfg s ev = some s') (hev : ev ≠ .client c .write) :
    (if ev.of c then 1 else 0) + s'.work c ≤ s.work c := by
  unfold State.work
  rcases hi.object h with ⟨hof, hsame⟩ | ⟨e, cl, r', cl', rfl, hc, hs, hstep, hc'⟩
  · rw [hof, hsame]
    exact Nat.le_of_eq (Nat.zero_add _)
  · have hlt := hstep.work_lt hs fun he => hev (congrArg _ he)
    rw [hc, hc', Option.elim_some, Option.elim_some]
    split <;> omega

/-- On a server with io threads, nothing but the client decides. -/
theorem step_client {s : State} (hc : s.objects[c]? = some cl) (hn : 0 < cfg.getIocpThreadNumber)
    (e : ClientEvent) : step w P o cfg s (.client c e)
      = (clientStep w P o c s.registry cl e).map fun p =>
        { s with registry := p.1, objects := s.objects.set c p.2 } := by
  simp only [step, hc, Nat.ne_of_gt hn, and_false, if_false]

/-- As long as something refers to the client, it can take a step. -/
theorem StoppedAt.references_eq_zero_iff {s : State} (hi : StoppedAt cfg.getIocpThreadNumber c s) :
    s.references c = 0 ↔ ∀ e, e ≠ .write → step w P o cfg s (.client c e) = none := by
  obtain ⟨cl, hc, hs⟩ := hi.stopped
  have hn : 0 < cfg.getIocpThreadNumber := (hi.inv.client c cl hc).threads (Or.inr hs.closed)
  have hzero : s.references c = cl.reads.length + cl.sends.length + cl.waits.length := by
    have hcount := hi.inv.registered c
    rw [running_of_some hc, hs.started] at hcount
    have haccept : s.accepting ≠ some c := by
      intro ha
      obtain ⟨fl, hf, hfresh⟩ := hi.inv.accepting c ha
      rw [hc] at hf
      cases hf
      exact Bool.false_ne_true (hfresh.closed.symm.trans hs.closed)
    rw [State.references, hcount, if_neg haccept, hc]
    simp
  constructor
  · intro h0 e he
    rw [hzero] at h0
    have hidle : cl.Idle :=
      ⟨List.eq_nil_of_length_eq_zero (by omega), List.eq_nil_of_length_eq_zero (by omega),
        List.eq_nil_of_length_eq_zero (by omega)⟩
    rw [step_client hc hn, clientStep_of_idle hidle he]
    rfl
  · intro hnone
    by_contra hne
    have hidle : ¬cl.Idle := by
      intro h
      rw [hzero, h.reads, h.sends, h.waits] at hne
      exact hne rfl
    obtain ⟨e, he, hsome⟩ := exists_step (w := w) (P := P) (o := o) (c := c) (r := s.registry)
      (hi.inv.client c cl hc) hn hidle
    have := hnone e he
    rw [step_client hc hn, Option.map_eq_none_iff] at this
    rw [this] at hsome
    cases hsome

/-- **A stopped client drains.** While the voice card does not write to it, every
step of the client leaves it less to do and no other step leaves it more, so it
takes no more steps than it had to do; and when it can take none, nothing refers
to it. -/
theorem drains {s : State} (h : Reachable w P o cfg s) (hc : s.objects[c]? = some cl)
    (hstarted : cl.started = false) (hclosed : cl.closed = true) :
    ∀ es s', (∀ ev ∈ es, ev ≠ .client c .write) → runs (step w P o cfg) s es = some s' →
      es.countP (Event.of c) + s'.work c ≤ cl.work ∧
      (∀ e s'', e ≠ .write → step w P o cfg s' (.client c e) = some s'' →
        s''.work c < s'.work c) ∧
      ((∀ e, e ≠ .write → step w P o cfg s' (.client c e) = none) → s'.references c = 0) := by
  intro es s' hes hrun
  have hi : StoppedAt cfg.getIocpThreadNumber c s := ⟨inv h, cl, hc, hstarted, hclosed⟩
  have hi' : StoppedAt cfg.getIocpThreadNumber c s' :=
    runs_rule (StoppedAt cfg.getIocpThreadNumber c) (fun _ => True)
      (fun _ _ _ hi _ h => hi.next h) hi (fun _ _ => trivial) hrun
  refine ⟨?_, ?_, hi'.references_eq_zero_iff.mpr⟩
  · have hle := countP_add_le_of_runs (StoppedAt cfg.getIocpThreadNumber c)
      (fun ev => ev ≠ .client c .write) (Event.of c) (fun s => s.work c)
      (fun _ _ _ hi _ h => hi.next h) (fun _ _ _ hi hev h => hi.work_le h hev) hi hes hrun
    have hwork : s.work c = cl.work := by rw [State.work, hc, Option.elim_some]
    rw [← hwork]
    exact hle
  · intro e s'' he hstep
    have hev : Event.client c e ≠ .client c .write := fun heq => he (Event.client.inj heq).2
    have hle := hi'.work_le hstep hev
    rw [show (Event.client c e).of c = true from decide_eq_true rfl, if_pos rfl] at hle
    omega

/-- A client whose first read fails while its first wait is on. -/
def failedRead : List Event :=
  [.accept false .zero zeroed, .client 0 (.readDone 0 true []),
   .client 0 (.onRead 0 .zero)]

/-- What is left of it. -/
def lastWait : List Event := [.client 0 (.waitDone 0 true), .client 0 (.onTimer 0 .zero)]

theorem drains_failedRead :
    ∃ s s', runs (step .w64 knownFields .little twoThreads) (initial .w64 twoThreads zeroed)
        failedRead = some s ∧
      runs (step .w64 knownFields .little twoThreads) s lastWait = some s' ∧
      s'.references 0 = 0 := by
  refine ⟨_, _, rfl, rfl, ?_⟩
  have hreach : Reachable .w64 knownFields .little twoThreads _ := ⟨zeroed, failedRead, rfl⟩
  refine (drains (c := 0) hreach rfl rfl rfl lastWait _ (by decide) rfl).2.2 ?_
  intro e he
  rw [step_client rfl (by decide), clientStep_of_idle ⟨rfl, rfl, rfl⟩ he]
  rfl

end CiaServer.Net.Server