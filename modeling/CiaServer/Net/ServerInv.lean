import CiaServer.Interleave.Program
import CiaServer.Net.Server

/-!
# The registry is consistent

A running client is in the vector once, has one read outstanding and, unless
the timeout is off, one wait; a client that does not run is not in the vector.
Inside a handler none of this holds: the read or the wait it belongs to is
gone, and whether another follows is decided later, possibly after `stop()`. It
holds again when the handler is done, because every way through it ends in a
new operation or in `stop()` (`ClientStep.ok`), and because only a client that
runs is erased (`ClientStep.registry`).

`registry_consistent` is the invariant in every state the server can come to.
-/

namespace CiaServer.Net.Server

open Wire Interleave Machine Tools
open Reader (AsyncRead asyncReadHeader asyncReadBody dealRequest)

/-! ## One client -/

/-- What holds of a client between two steps; it has `n` buffers. -/
structure Client.Ok (n : Nat) (cl : Client) : Prop where
  reads_le : cl.reads.length ≤ 1
  waits_le : cl.waits.length ≤ 1
  reads : cl.started = true → cl.reads.length = 1
  waits : cl.started = true → cl.timeoutElapsed ≠ 0 → cl.waits.length = 1
  buffers : cl.writeMsgQueue + cl.sends.length = n
  threads : cl.started = true ∨ cl.closed = true → 0 < n

/-- A client that was never started. -/
structure Client.Fresh (cl : Client) : Prop where
  started : cl.started = false
  closed : cl.closed = false
  reads : cl.reads = []
  waits : cl.waits = []

variable {w : WordSize} {P : Protobuf} {o : ByteOrder} {cfg : ConfigServer} {c n : Nat}
  {r r' : Registry} {cl cl' : Client} {e : ClientEvent}

theorem length_eraseIdx_of_some {α : Type} {l : List α} {k : Nat} {a : α} (h : l[k]? = some a) :
    (l.eraseIdx k).length + 1 = l.length :=
  List.length_eraseIdx_add_one (List.getElem?_eq_some_iff.mp h).1

/-! ## What the functions do -/

theorem stop_cases (h : stop c r cl = (r', cl')) :
    cl.started = true ∧ r' = r.erase c ∧ cl' = { cl with started := false, closed := true } ∨
    cl.started = false ∧ r' = r ∧ cl' = cl := by
  unfold stop at h
  split at h
  · next hs =>
    cases h
    exact Or.inl ⟨hs, rfl, rfl⟩
  · next hs =>
    cases h
    exact Or.inr ⟨Bool.eq_false_of_not_eq_true hs, rfl, rfl⟩

theorem doWrite_spec (h : cl.doWrite = some cl') :
    ∃ q, cl.writeMsgQueue = q + 1 ∧
      cl' = { cl with writeMsgQueue := q, sends := cl.sends ++ [.pending] } := by
  unfold Client.doWrite at h
  split at h <;> cases h
  next hq => exact ⟨cl.writeMsgQueue - 1, by omega, rfl⟩

/-- What a request does to the client: it may take a buffer for one send. -/
theorem doDealRequest_cases {now : Ptime} {chMsg : ChatMessage}
    (h : cl.doDealRequest P now chMsg = some cl') :
    (∃ updateTime, cl' = { cl with updateTime }) ∨
    ∃ q, cl.writeMsgQueue = q + 1 ∧
      cl' = { cl with writeMsgQueue := q, sends := cl.sends ++ [.pending], isLogin := true } := by
  unfold Client.doDealRequest at h
  split at h
  · obtain ⟨cl₁, hwrite, hs⟩ := Option.map_eq_some_iff.mp h
    obtain ⟨q, hq, rfl⟩ := doWrite_spec hwrite
    cases hs
    exact Or.inr ⟨q, hq, rfl⟩
  · cases h
    exact Or.inl ⟨now, rfl⟩
  · cases h
    exact Or.inl ⟨cl.updateTime, rfl⟩
  · cases h
    exact Or.inl ⟨cl.updateTime, rfl⟩

/-- A buffer goes from the queue to a send. -/
theorem buffers_doWrite (h : cl.doWrite = some cl') :
    cl'.writeMsgQueue + cl'.sends.length = cl.writeMsgQueue + cl.sends.length := by
  obtain ⟨q, hq, rfl⟩ := doWrite_spec h
  dsimp only
  rw [hq, List.length_append, List.length_singleton]
  omega

theorem buffers_doDealRequest {now : Ptime} {chMsg : ChatMessage}
    (h : cl.doDealRequest P now chMsg = some cl') :
    cl'.writeMsgQueue + cl'.sends.length = cl.writeMsgQueue + cl.sends.length := by
  rcases doDealRequest_cases h with ⟨_, rfl⟩ | ⟨q, hq, rfl⟩
  · rfl
  · dsimp only
    rw [hq, List.length_append, List.length_singleton]
    omega

/-- A wait is added, and only while the client runs. -/
theorem doTimeoutCheck_cases (cl : Client) :
    cl.started = true ∧
      cl.doTimeoutCheck = { cl with waits := cl.waits.map Status.abort ++ [.pending] } ∨
    cl.started = false ∧ cl.doTimeoutCheck = cl := by
  unfold Client.doTimeoutCheck
  split
  · next hs => exact Or.inl ⟨hs, rfl⟩
  · next hs => exact Or.inr ⟨Bool.eq_false_of_not_eq_true hs, rfl⟩

theorem started_doTimeoutCheck (cl : Client) : cl.doTimeoutCheck.started = cl.started := by
  rcases doTimeoutCheck_cases cl with ⟨_, h⟩ | ⟨_, h⟩ <;> rw [h]

/-- After `stop()` the client does not run. -/
theorem started_of_stop (h : stop c r cl = (r', cl')) : cl'.started = false := by
  rcases stop_cases h with ⟨_, _, rfl⟩ | ⟨hs, _, rfl⟩
  · rfl
  · exact hs

theorem doTimeoutCheck_of_stop (h : stop c r cl = (r', cl')) : cl'.doTimeoutCheck = cl' := by
  rcases doTimeoutCheck_cases cl' with ⟨hs, _⟩ | ⟨_, he⟩
  · rw [started_of_stop h] at hs
    cases hs
  · exact he

/-- Either the client runs on as before, or it ran and was taken out. -/
theorem ClientStep.registry (h : ClientStep w P o c r cl e r' cl') :
    r' = r ∧ cl'.started = cl.started ∨
    cl.started = true ∧ cl'.started = false ∧ r' = r.erase c := by
  have hstop : ∀ {cl₁ cl₂ : Client}, stop c r cl₁ = (r', cl₂) → cl₁.started = cl.started →
      r' = r ∧ cl₂.started = cl.started ∨
      cl.started = true ∧ cl₂.started = false ∧ r' = r.erase c := by
    intro cl₁ cl₂ h hs
    rcases stop_cases h with ⟨ht, hr, rfl⟩ | ⟨_, hr, rfl⟩
    · exact Or.inr ⟨hs ▸ ht, rfl, hr⟩
    · exact Or.inl ⟨hr, hs⟩
  cases h with
  | readFailed _ _ h => exact hstop h rfl
  | sendFailed _ h => exact hstop h rfl
  | timerFailed _ h => exact hstop h rfl
  | timedOut _ h =>
    rw [doTimeoutCheck_of_stop h]
    exact hstop h rfl
  | body _ _ hdeal =>
    rcases doDealRequest_cases hdeal with ⟨_, rfl⟩ | ⟨_, _, rfl⟩ <;> exact Or.inl ⟨rfl, rfl⟩
  | quiet _ hwrite =>
    obtain ⟨_, _, rfl⟩ := doWrite_spec hwrite
    exact Or.inl ⟨rfl, started_doTimeoutCheck _⟩
  | busy => exact Or.inl ⟨rfl, started_doTimeoutCheck _⟩
  | write hwrite =>
    obtain ⟨_, _, rfl⟩ := doWrite_spec hwrite
    exact Or.inl ⟨rfl, rfl⟩
  | _ => exact Or.inl ⟨rfl, rfl⟩

/-! ## A step keeps what holds of its client -/

/-- The operations are replaced one for one. -/
theorem Client.Ok.congr (hi : cl.Ok n) (hr : cl'.reads.length = cl.reads.length)
    (hw : cl'.waits.length = cl.waits.length) (hs : cl'.started = cl.started)
    (hc : cl'.closed = cl.closed) (ht : cl'.timeoutElapsed = cl.timeoutElapsed)
    (hb : cl'.writeMsgQueue + cl'.sends.length = cl.writeMsgQueue + cl.sends.length) :
    cl'.Ok n := by
  refine ⟨hr ▸ hi.reads_le, hw ▸ hi.waits_le, ?_, ?_, hb.trans hi.buffers, ?_⟩
  · rw [hs, hr]
    exact hi.reads
  · rw [hs, hw, ht]
    exact hi.waits
  · rw [hs, hc]
    exact hi.threads

/-- The client has lost a read or a wait and does not run. -/
theorem Client.Ok.of_stopped (hi : cl.Ok n) (hs : cl'.started = false)
    (hr : cl'.reads.length ≤ cl.reads.length) (hw : cl'.waits.length ≤ cl.waits.length)
    (hc : cl'.closed = true → cl.started = true ∨ cl.closed = true)
    (hb : cl'.writeMsgQueue + cl'.sends.length = cl.writeMsgQueue + cl.sends.length) :
    cl'.Ok n := by
  refine ⟨Nat.le_trans hr hi.reads_le, Nat.le_trans hw hi.waits_le, ?_, ?_, hb.trans hi.buffers, ?_⟩
  · rw [hs]
    exact nofun
  · rw [hs]
    exact nofun
  · rw [hs]
    exact fun h => hi.threads (hc (h.resolve_left nofun))

/-- A handler of the client has called `stop()`. -/
theorem Client.Ok.stop {cl₁ : Client} (hi : cl.Ok n) (h : stop c r cl₁ = (r', cl'))
    (hs : cl₁.started = cl.started) (hc : cl₁.closed = cl.closed)
    (hr : cl₁.reads.length ≤ cl.reads.length) (hw : cl₁.waits.length ≤ cl.waits.length)
    (hb : cl₁.writeMsgQueue + cl₁.sends.length = cl.writeMsgQueue + cl.sends.length) :
    cl'.Ok n := by
  refine hi.of_stopped (started_of_stop h) ?_ ?_ ?_ ?_ <;>
    rcases stop_cases h with ⟨ht, _, rfl⟩ | ⟨_, _, rfl⟩
  · exact hr
  · exact hr
  · exact hw
  · exact hw
  · exact fun _ => Or.inl (hs ▸ ht)
  · exact fun h => Or.inr (hc ▸ h)
  · exact hb
  · exact hb

/-- The wait of a handler that has run is replaced while the client runs. -/
theorem Client.Ok.doTimeoutCheck {cl₁ : Client} (hi : cl.Ok n) (hs : cl₁.started = cl.started)
    (hc : cl₁.closed = cl.closed) (hr : cl₁.reads.length = cl.reads.length)
    (hw : cl₁.waits.length + 1 = cl.waits.length) (ht : cl₁.timeoutElapsed = cl.timeoutElapsed)
    (hb : cl₁.writeMsgQueue + cl₁.sends.length = cl.writeMsgQueue + cl.sends.length) :
    cl₁.doTimeoutCheck.Ok n := by
  rcases doTimeoutCheck_cases cl₁ with ⟨_, h⟩ | ⟨hf, h⟩ <;> rw [h]
  · refine hi.congr hr ?_ hs hc ht hb
    rw [List.length_append, List.length_map]
    exact hw
  · exact hi.of_stopped hf hr.le (by omega) (fun h => Or.inr (hc ▸ h)) hb

theorem ClientStep.ok (h : ClientStep w P o c r cl e r' cl') (hi : cl.Ok n) : cl'.Ok n := by
  cases h with
  | readDone hk => exact hi.congr (List.length_set ..) rfl rfl rfl rfl rfl
  | sendDone hk =>
    refine hi.congr rfl rfl rfl rfl rfl ?_
    rw [List.length_set]
  | waitDone hk => exact hi.congr rfl (List.length_set ..) rfl rfl rfl rfl
  | readFailed readMsg hk h =>
    exact hi.stop h rfl rfl (List.length_eraseIdx_le ..) (Nat.le_refl _) rfl
  | header readMsg hk =>
    refine hi.congr ?_ rfl rfl rfl rfl rfl
    rw [← length_eraseIdx_of_some hk]
    exact List.length_append
  | @body k _ _ _ hk hop hdeal =>
    have hb := buffers_doDealRequest hdeal
    have hr : (cl.reads.eraseIdx k ++ [(⟨asyncReadHeader, .pending⟩ : Read)]).length
        = cl.reads.length := by
      rw [← length_eraseIdx_of_some hk]
      exact List.length_append
    rcases doDealRequest_cases hdeal with ⟨_, rfl⟩ | ⟨_, _, rfl⟩ <;>
      exact hi.congr hr rfl rfl rfl rfl hb
  | sendFailed hk h =>
    refine hi.stop h rfl rfl (Nat.le_refl _) (Nat.le_refl _) ?_
    have hlen := length_eraseIdx_of_some hk
    dsimp only
    omega
  | sent hk =>
    refine hi.congr rfl rfl rfl rfl rfl ?_
    have hlen := length_eraseIdx_of_some hk
    dsimp only
    omega
  | timerFailed hk h =>
    exact hi.stop h rfl rfl (Nat.le_refl _) (List.length_eraseIdx_le ..) rfl
  | timedOut hk h =>
    rw [doTimeoutCheck_of_stop h]
    exact hi.stop h rfl rfl (Nat.le_refl _) (List.length_eraseIdx_le ..) rfl
  | quiet hk hwrite =>
    have hb := buffers_doWrite hwrite
    obtain ⟨_, _, rfl⟩ := doWrite_spec hwrite
    exact hi.doTimeoutCheck rfl rfl rfl (length_eraseIdx_of_some hk) rfl hb
  | busy hk => exact hi.doTimeoutCheck rfl rfl rfl (length_eraseIdx_of_some hk) rfl rfl
  | write hwrite =>
    have hb := buffers_doWrite hwrite
    obtain ⟨_, _, rfl⟩ := doWrite_spec hwrite
    exact hi.congr rfl rfl rfl rfl rfl hb

/-- A client that was never started is not started by its own steps. -/
theorem ClientStep.fresh (h : ClientStep w P o c r cl e r' cl') (hf : cl.Fresh) : cl'.Fresh := by
  have hreads : ∀ {k : Nat} {a : Read}, cl.reads[k]? ≠ some a := by
    intro k a hk
    rw [hf.reads] at hk
    cases hk
  have hwaits : ∀ {k : Nat} {a : Status}, cl.waits[k]? ≠ some a := by
    intro k a hk
    rw [hf.waits] at hk
    cases hk
  cases h with
  | readDone hk => exact absurd hk hreads
  | readFailed _ hk => exact absurd hk hreads
  | header _ hk => exact absurd hk hreads
  | body hk => exact absurd hk hreads
  | waitDone hk => exact absurd hk hwaits
  | timerFailed hk => exact absurd hk hwaits
  | timedOut hk => exact absurd hk hwaits
  | quiet hk => exact absurd hk hwaits
  | busy hk => exact absurd hk hwaits
  | sendDone => exact ⟨hf.started, hf.closed, hf.reads, hf.waits⟩
  | sent => exact ⟨hf.started, hf.closed, hf.reads, hf.waits⟩
  | sendFailed _ h =>
    rcases stop_cases h with ⟨hs, _⟩ | ⟨_, _, rfl⟩
    · rw [hf.started] at hs
      cases hs
    · exact ⟨hf.started, hf.closed, hf.reads, hf.waits⟩
  | write hwrite =>
    obtain ⟨_, _, rfl⟩ := doWrite_spec hwrite
    exact ⟨hf.started, hf.closed, hf.reads, hf.waits⟩

/-- `start()` arms one read, and one wait unless the timeout is off. -/
theorem start_spec (hf : cl.Fresh) (now : Ptime) : start c now r cl =
    ({ r with clients := r.clients ++ [c] },
      { cl with
        started := true
        updateTime := now
        reads := [⟨asyncReadHeader, .pending⟩]
        waits := if cl.timeoutElapsed = 0 then [] else [.pending] }) := by
  by_cases h0 : cl.timeoutElapsed = 0
  · simp only [start, Client.doReadHeader, hf.reads, hf.waits, h0, ne_eq, not_true_eq_false,
      if_false, if_true, List.nil_append]
  · simp only [start, Client.doReadHeader, Client.doTimeoutCheck, hf.reads, hf.waits, h0, ne_eq,
      not_false_eq_true, if_false, if_true, List.map_nil, List.nil_append]

theorem ok_start (hf : cl.Fresh) (now : Ptime) (hi : cl.Ok n) (hn : 0 < n) :
    (start c now r cl).2.Ok n := by
  rw [start_spec hf]
  refine ⟨Nat.le_refl _, ?_, fun _ => rfl, fun _ hne => ?_, hi.buffers, fun _ => hn⟩
  · dsimp only
    split <;> decide
  · dsimp only at hne ⊢
    rw [if_neg hne]
    rfl

/-- The constructor of a client. -/
theorem ok_new (w : WordSize) (cfg : ConfigServer) (data : Buffer) :
    (Client.new w cfg data).Ok cfg.getIocpThreadNumber :=
  ⟨Nat.zero_le _, Nat.zero_le _, nofun, nofun, rfl, fun h => by rcases h with h | h <;> cases h⟩

theorem fresh_new (w : WordSize) (cfg : ConfigServer) (data : Buffer) :
    (Client.new w cfg data).Fresh := ⟨rfl, rfl, rfl, rfl⟩

/-! ## All of them -/

/-- The object `c` is a running client. -/
def State.running (s : State) (c : Nat) : Bool := (s.objects[c]?).any Client.started

structure Inv (n : Nat) (s : State) : Prop where
  client : ∀ (c : Nat) (cl : Client), s.objects[c]? = some cl → cl.Ok n
  registered : ∀ c, s.registry.clients.count c = if s.running c then 1 else 0
  accepting : ∀ c, s.accepting = some c → ∃ cl, s.objects[c]? = some cl ∧ Client.Fresh cl
  corrupted : s.registry.corrupted = false

/-! ### The registry after one step -/

/-- One object is replaced. -/
theorem running_set {s : State} (hc : s.objects[c]? = some cl) (registry : Registry)
    (accepting : Option Nat) (d : Nat) :
    State.running { registry, objects := s.objects.set c cl', accepting } d
      = if d = c then cl'.started else s.running d := by
  unfold State.running
  dsimp only
  split
  · next hd =>
    subst hd
    rw [List.getElem?_set_self (List.getElem?_eq_some_iff.mp hc).1]
    rfl
  · next hd => rw [List.getElem?_set_ne (Ne.symm hd)]

/-- An object that does not run is added. -/
theorem running_append {new : Client} (hnew : new.started = false) (registry : Registry)
    (objects : List Client) (accepting : Option Nat) (d : Nat) :
    State.running { registry, objects := objects ++ [new], accepting } d
      = State.running { registry, objects, accepting } d := by
  unfold State.running
  dsimp only
  by_cases hd : d < objects.length
  · rw [List.getElem?_append_left hd]
  · rw [List.getElem?_append_right (Nat.le_of_not_lt hd), List.getElem?_singleton,
      List.getElem?_eq_none (Nat.le_of_not_lt hd)]
    split
    · exact hnew
    · rfl

theorem running_of_some {s : State} (hc : s.objects[c]? = some cl) : s.running c = cl.started := by
  rw [State.running, hc]
  rfl

/-- A step of client `c`. -/
theorem Inv.client_step {s : State} (hi : Inv n s) (hc : s.objects[c]? = some cl)
    (h : ClientStep w P o c s.registry cl e r' cl') :
    Inv n { s with registry := r', objects := s.objects.set c cl' } := by
  have hrun := hi.registered c
  rw [running_of_some hc] at hrun
  refine ⟨?_, ?_, ?_, ?_⟩
  · intro d dl hd
    rcases getElem?_set_cases hc hd with ⟨rfl, rfl⟩ | ⟨_, hd⟩
    · exact h.ok (hi.client _ _ hc)
    · exact hi.client d dl hd
  · intro d
    rw [running_set hc]
    dsimp only
    rcases h.registry with ⟨rfl, hs⟩ | ⟨hs, hs', rfl⟩
    · have hsame : (if d = c then cl'.started else s.running d) = s.running d := by
        split
        · next hd => rw [hd, running_of_some hc, hs]
        · rfl
      rw [hsame, hi.registered d]
    · -- it was in the vector once, and is taken out
      rw [Registry.erase]
      dsimp only
      rw [hs']
      split
      · next hd =>
        rw [hd, List.count_erase_self, hrun, hs]
        rfl
      · next hd => rw [List.count_erase_of_ne hd, hi.registered d]
  · intro d hd
    obtain ⟨dl, hdl, hf⟩ := hi.accepting d hd
    by_cases hdc : d = c
    · subst hdc
      rw [hc] at hdl
      cases hdl
      exact ⟨cl', List.getElem?_set_self (List.getElem?_eq_some_iff.mp hc).1, h.fresh hf⟩
    · exact ⟨dl, (List.getElem?_set_ne (Ne.symm hdc)).trans hdl, hf⟩
  · rcases h.registry with ⟨rfl, _⟩ | ⟨hs, _, rfl⟩
    · exact hi.corrupted
    · rw [hs] at hrun
      have hmem : c ∈ s.registry.clients := List.count_pos_iff.mp (by rw [hrun]; decide)
      show (s.registry.corrupted || !s.registry.clients.contains c) = false
      rw [hi.corrupted, List.contains_iff_mem.mpr hmem]
      rfl

/-- The acceptor's client starts, and the next one is made. -/
theorem Inv.accept {s : State} (hi : Inv cfg.getIocpThreadNumber s) (ha : s.accepting = some c)
    (hc : s.objects[c]? = some cl) (hn : 0 < cfg.getIocpThreadNumber) (now : Ptime)
    (data : Buffer) :
    Inv cfg.getIocpThreadNumber
      { registry := (start c now s.registry cl).1
        objects := s.objects.set c (start c now s.registry cl).2 ++ [Client.new w cfg data]
        accepting := some s.objects.length } := by
  obtain ⟨dl, hdl, hf⟩ := hi.accepting c ha
  rw [hc] at hdl
  cases hdl
  have hlt := (List.getElem?_eq_some_iff.mp hc).1
  have hrun := hi.registered c
  rw [running_of_some hc, hf.started] at hrun
  refine ⟨?_, ?_, ?_, ?_⟩
  · intro d dl hd
    rcases getElem?_append_cases hd with hd | ⟨_, rfl⟩
    · rcases getElem?_set_cases hc hd with ⟨rfl, rfl⟩ | ⟨_, hd⟩
      · exact ok_start hf now (hi.client _ _ hc) hn
      · exact hi.client d dl hd
    · exact ok_new w cfg data
  · intro d
    rw [running_append (fresh_new w cfg data).started, running_set hc, start_spec hf]
    dsimp only
    by_cases hd : d = c
    · rw [if_pos hd, hd, List.count_append, hrun, List.count_singleton_self]
      rfl
    · have hno : List.count d [c] = 0 :=
        List.count_eq_zero_of_not_mem fun hmem => hd (List.mem_singleton.mp hmem)
      rw [if_neg hd, List.count_append, hi.registered d, hno, Nat.add_zero]
  · intro d hd
    cases hd
    refine ⟨_, ?_, fresh_new w cfg data⟩
    rw [List.getElem?_append_right (by rw [List.length_set]), List.length_set, Nat.sub_self]
    rfl
  · rw [start_spec hf]
    exact hi.corrupted

theorem inv_initial (w : WordSize) (cfg : ConfigServer) (data : Buffer) :
    Inv cfg.getIocpThreadNumber (initial w cfg data) := by
  refine ⟨?_, ?_, ?_, rfl⟩
  · intro c cl hc
    rw [initial, List.getElem?_singleton] at hc
    split at hc <;> cases hc
    exact ok_new w cfg data
  · intro c
    have hrun : (initial w cfg data).running c = false :=
      running_append (fresh_new w cfg data).started { clients := [], corrupted := false } [] (some 0) c
    rw [hrun]
    rfl
  · intro c hc
    cases hc
    exact ⟨_, rfl, fresh_new w cfg data⟩

/-- What one step of the server can be. -/
theorem step_cases {s s' : State} {e : Event} (h : step w P o cfg s e = some s') :
    (∃ now data, e = .accept true now data ∧ s' = { s with accepting := none }) ∨
    (∃ now data c cl, e = .accept false now data ∧ s.accepting = some c ∧
      s.objects[c]? = some cl ∧ 0 < cfg.getIocpThreadNumber ∧
      s' =
        { registry := (start c now s.registry cl).1
          objects := s.objects.set c (start c now s.registry cl).2 ++ [Client.new w cfg data]
          accepting := some s.objects.length }) ∨
    (∃ c e' cl r' cl', e = .client c e' ∧ s.objects[c]? = some cl ∧
      ClientStep w P o c s.registry cl e' r' cl' ∧
      s' = { s with registry := r', objects := s.objects.set c cl' }) := by
  unfold step at h
  split at h
  · next err now data =>
    split at h
    · cases h
    · next c ha =>
      split at h
      · cases h
      · next hn =>
        unfold handleAccept at h
        split at h
        · next he =>
          cases h
          exact Or.inl ⟨now, data, by rw [he], rfl⟩
        · next he =>
          split at h
          · cases h
          · next cl hc =>
            cases h
            exact Or.inr (Or.inl ⟨now, data, c, cl, by rw [Bool.eq_false_of_not_eq_true he], ha, hc,
              Nat.pos_of_ne_zero hn, rfl⟩)
  · next c e' =>
    split at h
    · cases h
    · split at h
      · cases h
      · next cl hc =>
        obtain ⟨p, hp, hs⟩ := Option.map_eq_some_iff.mp h
        exact Or.inr (Or.inr ⟨c, e', cl, p.1, p.2, rfl, hc, clientStep_cases hp, hs.symm⟩)

theorem inv_step {s s' : State} {e : Event} (hi : Inv cfg.getIocpThreadNumber s)
    (h : step w P o cfg s e = some s') : Inv cfg.getIocpThreadNumber s' := by
  rcases step_cases h with ⟨_, _, _, rfl⟩ | ⟨now, data, c, cl, _, ha, hc, hn, rfl⟩ |
    ⟨c, e', cl, r', cl', _, hc, hstep, rfl⟩
  · exact ⟨hi.client, hi.registered, nofun, hi.corrupted⟩
  · exact hi.accept ha hc hn now data
  · exact hi.client_step hc hstep

/-- In every state the server can come to. -/
theorem inv {s : State} (h : Reachable w P o cfg s) : Inv cfg.getIocpThreadNumber s := by
  obtain ⟨data, es, hrun⟩ := h
  exact runs_rule (Inv cfg.getIocpThreadNumber) (fun _ => True) (fun _ _ _ hi _ h => inv_step hi h)
    (inv_initial w cfg data) (fun _ _ => trivial) hrun

/-- **The registry and the outstanding operations are consistent**, in every state
the server can come to: a running client is in the vector once, reads once and,
unless the timeout is off, waits once; a client that does not run is not in the
vector; nothing was erased that was not there, and no buffer is read into twice. -/
theorem registry_consistent {s : State} (h : Reachable w P o cfg s) :
    s.registry.corrupted = false ∧
    ∀ (c : Nat) (cl : Client), s.objects[c]? = some cl →
      (cl.started = true → s.registry.clients.count c = 1 ∧ cl.reads.length = 1 ∧
        (cl.timeoutElapsed ≠ 0 → cl.waits.length = 1)) ∧
      (cl.started = false → c ∉ s.registry.clients) ∧
      cl.reads.length ≤ 1 := by
  have hi := inv h
  refine ⟨hi.corrupted, fun c cl hc => ?_⟩
  have hok := hi.client c cl hc
  have hcount := hi.registered c
  rw [running_of_some hc] at hcount
  refine ⟨fun hs => ⟨?_, hok.reads hs, hok.waits hs⟩, fun hs => ?_, hok.reads_le⟩
  · rw [hcount, hs]
    rfl
  · rw [hs] at hcount
    exact List.count_eq_zero.mp hcount

/-- Two io threads and a timeout of a minute. -/
def twoThreads : ConfigServer where
  currentNodePath := ascii "/auth/127.0.0.1"
  iocpThreadNumber := 2
  serverPort := 0
  clientSocketTimeoutElapsed := 60000
  ctiTotalChannelCount := 0
  ctiTimeoutElapse := 0
  ctiWarningElapse := 0
  ctiSleepingElapse := 0
  citSetIdolChannelElpesed := 0

/-- Two clients connect; the first is gone at once, the second sends an empty header. -/
def twoClients : List Event :=
  [.accept false .zero zeroed, .accept false .zero zeroed,
   .client 0 (.readDone 0 true []), .client 1 (.readDone 0 false [0, 0, 0, 0]),
   .client 0 (.onRead 0 .zero), .client 1 (.onRead 0 .zero)]

theorem registry_consistent_twoClients :
    ∃ s, runs (step .w64 knownFields .little twoThreads) (initial .w64 twoThreads zeroed) twoClients
      = some s ∧ s.registry.clients = [1] ∧ s.registry.corrupted = false := by
  have hrun : (runs (step .w64 knownFields .little twoThreads) (initial .w64 twoThreads zeroed)
      twoClients).map (fun s => s.registry.clients) = some [1] := by decide +kernel
  obtain ⟨s, hs, hclients⟩ := Option.map_eq_some_iff.mp hrun
  exact ⟨s, hs, hclients, (registry_consistent ⟨zeroed, twoClients, hs⟩).1⟩

end CiaServer.Net.Server
