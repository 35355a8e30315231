import CiaServer.Net.Reader

/-!
# The reader follows the frame grammar

At any moment the bytes read are the frames handed out and the beginning `cur`
of one more (`Inv`). The reader is in one place at a time (`Phase`): an
`async_read` is armed, or the newest handler is on its way to arm the next one,
or it has stopped for good. All other handlers have armed the next read behind
them and only deal with their copy.

`readsFrames` puts the invariant in terms of the whole stream: what is handed
out is a prefix of its bodies, and all of them once the server has nothing left
to do.
-/

namespace CiaServer.Net.Reader

open Wire Interleave

/-! ## The invariant -/

/-- A handler that is done with `m_read_msg_`. -/
def Handler.Passive : Handler → Prop
  | .deal _ => True
  | .dealt _ _ => True
  | .done => True
  | _ => False

/-- Only somebody else has stopped the session so far. -/
def Open (s : Session) : Prop := s.started = true ∨ s.stoppedElsewhere = true

/-- No frame will follow: the session was stopped from elsewhere, the stream
ended inside a frame, or the next length is too large. -/
def Over (s : Session) (cur : Bytes) : Prop :=
  s.stoppedElsewhere = true ∨
  (s.ended = true ∧ s.unread = [] ∧ next? headerLength maxBodyLength cur = none) ∨
  Oversized headerLength maxBodyLength cur

/-- The bytes of the frame in front of the part being read. -/
def AsyncRead.before (r : AsyncRead) : Bytes :=
  match r.part with
  | .header => []
  | .body => be headerLength r.want

/-- The armed read is one of the two, and `cur` is what there is of the frame. -/
structure AtRead (s : Session) (cur : Bytes) (r : AsyncRead) : Prop where
  part : r.part = .header ∧ r.off = 0 ∧ r.want = headerLength ∨
    r.part = .body ∧ r.off = headerLength ∧ r.want = s.readMsg.bodyLength
  got_le : r.got ≤ r.want
  cur : cur = r.before ++ slice s.readMsg.data.1 r.off r.got

/-- The handler on its way to the next read, and `cur` as it knows it. -/
def AtHandler (s : Session) (cur : Bytes) : Handler → Prop
  | .onHeader false => cur = s.readMsg.header
  | .readBody => cur = be headerLength s.readMsg.bodyLength
  | .onBody false => cur = be headerLength s.readMsg.bodyLength ++ s.readMsg.body
  | .readHeader _ => cur = []
  | .onHeader true => Over s cur
  | .onBody true => Over s cur
  | .stop => Over s cur
  | _ => False

/-- Where the reader is. -/
inductive Phase (s : Session) (cur : Bytes) : List Handler → Prop where
  | reading {ts : List Handler} {r : AsyncRead} (hr : s.reading = some r) (hopen : Open s)
    (hts : ∀ t ∈ ts, t.Passive) (hat : AtRead s cur r) : Phase s cur ts
  | handling {ts : List Handler} {a : Handler} (hr : s.reading = none) (hopen : Open s)
    (hts : ∀ t ∈ ts, t.Passive) (hat : AtHandler s cur a) : Phase s cur (ts ++ [a])
  | stopped {ts : List Handler} (hr : s.reading = none) (hstop : s.started = false)
    (hts : ∀ t ∈ ts, t.Passive) (hover : Over s cur) : Phase s cur ts

/-- The bytes read are the frames handed out and the beginning of one more. -/
structure Inv (s : Session) (ts : List Handler) : Prop where
  overrun : s.overrun = false
  short : ∀ body ∈ handedOut ts, body.length ≤ maxBodyLength
  phase : ∃ cur, s.taken = frames headerLength (handedOut ts) ++ cur ∧ Phase s cur ts

/-! ## The handlers -/

theorem handedOut_append (ts : List Handler) (a : Handler) :
    handedOut (ts ++ [a]) = handedOut ts ++ a.given.toList := by
  rw [handedOut, List.filterMap_append]
  cases h : a.given <;> simp [h, handedOut]

/-- A handler that keeps the body it gives away changes nothing. -/
theorem handedOut_set (l' : Handler) :
    ∀ {ts : List Handler} {i : Nat} {l : Handler}, ts[i]? = some l → l'.given = l.given →
      handedOut (ts.set i l') = handedOut ts
  | [], _, _, h, _ => by simp at h
  | t :: ts, 0, l, h, hg => by
    simp only [List.getElem?_cons_zero, Option.some.injEq] at h
    subst h
    rw [List.set_cons_zero, handedOut, handedOut, List.filterMap_cons, List.filterMap_cons, hg]
  | t :: ts, i + 1, l, h, hg => by
    rw [List.getElem?_cons_succ] at h
    have ih := handedOut_set l' h hg
    rw [handedOut, handedOut] at ih
    rw [List.set_cons_succ, handedOut, handedOut, List.filterMap_cons, List.filterMap_cons, ih]

/-- A passive handler is no reader, wherever it goes. -/
theorem Phase.set_passive {s : Session} {cur : Bytes} {ts : List Handler} {i : Nat} {l l' : Handler}
    (hp : Phase s cur ts) (hl : ts[i]? = some l) (hpl : l.Passive) (hpl' : l'.Passive) :
    Phase s cur (ts.set i l') := by
  have hset : ∀ {us : List Handler}, (∀ t ∈ us, t.Passive) → ∀ t ∈ us.set i l', t.Passive := by
    intro us hus t ht
    rcases List.mem_or_eq_of_mem_set ht with hmem | rfl
    · exact hus t hmem
    · exact hpl'
  cases hp with
  | reading hr hopen hts hat => exact .reading hr hopen (hset hts) hat
  | stopped hr hstop hts hover => exact .stopped hr hstop (hset hts) hover
  | @handling us a hr hopen hts hat =>
    by_cases hi : i < us.length
    · rw [List.set_append_left i l' hi]
      exact .handling hr hopen (hset hts) hat
    · -- the newest handler is not passive
      rw [List.getElem?_append_right (by omega)] at hl
      have hla : l = a := by
        rw [List.getElem?_singleton] at hl
        split at hl
        · exact (Option.some.inj hl).symm
        · cases hl
      subst hla
      cases l <;> first | exact absurd hat id | exact absurd hpl id

theorem passive_append {us : List Handler} (hus : ∀ t ∈ us, t.Passive) {a : Handler}
    (ha : a.Passive) : ∀ t ∈ us ++ [a], t.Passive := by
  intro t ht
  rcases List.mem_append.mp ht with ht | ht
  · exact hus t ht
  · rw [List.mem_singleton.mp ht]
    exact ha

/-- A handler that is not passive is the newest, and no read is armed. -/
theorem Phase.active {s : Session} {cur : Bytes} {ts : List Handler} {i : Nat} {l : Handler}
    (hp : Phase s cur ts) (hl : ts[i]? = some l) (hnl : ¬l.Passive) :
    ∃ us, ts = us ++ [l] ∧ i = us.length ∧ s.reading = none ∧ Open s ∧
      (∀ t ∈ us, t.Passive) ∧ AtHandler s cur l := by
  cases hp with
  | reading hr hopen hts hat => exact absurd (hts l (List.mem_of_getElem? hl)) hnl
  | stopped hr hstop hts hover => exact absurd (hts l (List.mem_of_getElem? hl)) hnl
  | @handling us a hr hopen hts hat =>
    by_cases hi : i < us.length
    · rw [List.getElem?_append_left hi] at hl
      exact absurd (hts l (List.mem_of_getElem? hl)) hnl
    · rw [List.getElem?_append_right (by omega), List.getElem?_singleton] at hl
      split at hl
      · cases hl
        exact ⟨us, rfl, by omega, hr, hopen, hts, hat⟩
      · cases hl

/-! ## The environment -/

variable {s s' : Session} {ts : List Handler}

/-- A move that leaves the reader's own fields alone. -/
theorem Inv.frame (hi : Inv s ts) (hm : s'.readMsg = s.readMsg) (hr : s'.reading = s.reading)
    (ht : s'.taken = s.taken) (ho : s'.overrun = s.overrun) (hopen : Open s → Open s')
    (hstop : s.started = false → s'.started = false) (hover : ∀ cur, Over s cur → Over s' cur) :
    Inv s' ts := by
  obtain ⟨cur, htaken, hp⟩ := hi.phase
  refine ⟨ho.trans hi.overrun, hi.short, cur, ht.trans htaken, ?_⟩
  cases hp with
  | reading hr' hopen' hts hat =>
    refine .reading (hr.trans hr') (hopen hopen') hts ⟨?_, hat.got_le, ?_⟩
    · rw [hm]
      exact hat.part
    · rw [hm]
      exact hat.cur
  | stopped hr' hstop' hts hover' =>
    exact .stopped (hr.trans hr') (hstop hstop') hts (hover cur hover')
  | @handling us a hr' hopen' hts hat =>
    refine .handling (hr.trans hr') (hopen hopen') hts ?_
    cases a with
    | onHeader ec =>
      cases ec with
      | true => exact hover cur hat
      | false => rw [AtHandler, hm]; exact hat
    | onBody ec =>
      cases ec with
      | true => exact hover cur hat
      | false => rw [AtHandler, hm]; exact hat
    | readBody => rw [AtHandler, hm]; exact hat
    | readHeader chMsg => exact hat
    | stop => exact hover cur hat
    | deal chMsg => exact hat
    | dealt body request => exact hat
    | done => exact hat

/-- A read stays inside `m_data`. -/
theorem AtRead.fits {cur : Bytes} {r : AsyncRead} (hat : AtRead s cur r) :
    r.off + r.want ≤ headerLength + maxBodyLength := by
  have := s.readMsg.bodyLength_le
  rcases hat.part with ⟨_, ho, hw⟩ | ⟨_, ho, hw⟩ <;> omega

/-- A piece of a read goes behind the pieces before it. -/
theorem AtRead.deliver {cur : Bytes} {r : AsyncRead} {k : Nat} (hat : AtRead s cur r)
    (hk : r.got + k ≤ r.want) (hu : k ≤ s.unread.length) :
    ∃ data : Buffer, s.deliver r k =
        { s with
          readMsg := { s.readMsg with data }
          reading := some { r with got := r.got + k }
          taken := s.taken ++ s.unread.take k
          unread := s.unread.drop k } ∧
      AtRead (s.deliver r k) (cur ++ s.unread.take k) { r with got := r.got + k } := by
  have hfits := hat.fits
  have hlen : (s.unread.take k).length = k := by rw [List.length_take]; omega
  cases hw : s.readMsg.data.write (r.off + r.got) (s.unread.take k) with
  | none =>
    rw [ChatMessage.write_eq_none_iff, hlen] at hw
    omega
  | some data =>
    obtain ⟨hle, hdata⟩ := ChatMessage.write_eq_some hw
    have hs : s.deliver r k =
        { s with
          readMsg := { s.readMsg with data }
          reading := some { r with got := r.got + k }
          taken := s.taken ++ s.unread.take k
          unread := s.unread.drop k } := by
      rw [Session.deliver, hw]
    refine ⟨data, hs, ?_⟩
    rw [hs]
    refine ⟨hat.part, hk, ?_⟩
    have happ := slice_overwrite_append hle
    rw [hlen, ← hdata] at happ
    show cur ++ s.unread.take k = r.before ++ slice data.1 r.off (r.got + k)
    rw [happ, hat.cur, List.append_assoc]

/-- A complete read leaves its part of the frame in the buffer. -/
theorem AtRead.complete {cur : Bytes} {r : AsyncRead} (hat : AtRead s cur r)
    (hg : r.got = r.want) : AtHandler { s with reading := none } cur (r.handler false) := by
  have hcur := hat.cur
  rcases hat.part with ⟨hp, ho, hw⟩ | ⟨hp, ho, hw⟩
  · rw [AsyncRead.handler, hp]
    rw [AsyncRead.before, hp, ho, hg, hw] at hcur
    exact hcur
  · rw [AsyncRead.handler, hp]
    rw [AsyncRead.before, hp, ho, hg, hw] at hcur
    exact hcur

theorem bodyLength_lt (m : ChatMessage) : m.bodyLength < 256 ^ headerLength := by
  have h := m.bodyLength_le
  unfold maxBodyLength at h
  unfold headerLength
  omega

/-- An incomplete read leaves no frame. -/
theorem AtRead.next?_none {cur : Bytes} {r : AsyncRead} (hat : AtRead s cur r)
    (hg : r.got < r.want) : next? headerLength maxBodyLength cur = none ∧
      ¬Oversized headerLength maxBodyLength cur := by
  have hcur := hat.cur
  have hlen : (slice s.readMsg.data.1 r.off r.got).length ≤ r.got := List.length_take_le _ _
  rcases hat.part with ⟨hp, ho, hw⟩ | ⟨hp, ho, hw⟩
  -- part of a header; or a header that was accepted and part of its body
  · rw [AsyncRead.before, hp] at hcur
    have hshort : cur.length < headerLength := by
      rw [hcur, List.nil_append]
      omega
    exact ⟨next?_of_short_header hshort, not_oversized_of_short hshort⟩
  · rw [AsyncRead.before, hp] at hcur
    have hlt : r.want < 256 ^ headerLength := hw ▸ bodyLength_lt s.readMsg
    rw [hcur]
    exact ⟨next?_of_short_body hlt (by omega),
      not_oversized_of_le hlt (hw ▸ s.readMsg.bodyLength_le)⟩

theorem AtRead.fail {cur : Bytes} {r : AsyncRead} (hat : AtRead s cur r) (hopen : Open s)
    (hb : s.Broken r) : Over s cur := by
  rcases hb with hstop | ⟨he, hu, hg⟩
  · rcases hopen with hstart | helse
    · rw [hstart] at hstop
      cases hstop
    · exact Or.inl helse
  · exact Or.inr (Or.inl ⟨he, hu, (hat.next?_none hg).1⟩)

/-- Only an armed read can be in the way of a handler. -/
theorem Phase.of_reading {cur : Bytes} {r : AsyncRead} (hp : Phase s cur ts)
    (hr : s.reading = some r) : Open s ∧ (∀ t ∈ ts, t.Passive) ∧ AtRead s cur r := by
  cases hp with
  | reading hr' hopen hts hat =>
    cases hr.symm.trans hr'
    exact ⟨hopen, hts, hat⟩
  | handling hr' => exact absurd (hr.symm.trans hr') nofun
  | stopped hr' => exact absurd (hr.symm.trans hr') nofun

theorem given_handler (r : AsyncRead) (ec : Bool) : (r.handler ec).given = none := by
  unfold AsyncRead.handler
  split <;> rfl

/-- A new handler has nothing to give away yet. -/
theorem Inv.start_handler {r : AsyncRead} {ec : Bool} (hi : Inv s ts) (hr : s.reading = some r)
    (hat : ∀ cur, AtRead s cur r → Open s → AtHandler { s with reading := none } cur
      (r.handler ec)) :
    Inv { s with reading := none } (ts ++ [r.handler ec]) := by
  obtain ⟨cur, htaken, hp⟩ := hi.phase
  obtain ⟨hopen, hts, hread⟩ := hp.of_reading hr
  have hh : handedOut (ts ++ [r.handler ec]) = handedOut ts := by
    rw [handedOut_append, given_handler]
    exact List.append_nil _
  refine ⟨hi.overrun, by rw [hh]; exact hi.short, cur, by rw [hh]; exact htaken, ?_⟩
  exact .handling rfl hopen hts (hat cur hread hopen)

/-- Every move of the environment keeps the invariant. -/
theorem Inv.env (hi : Inv s ts) {n : Nat} {e : Event} {new : List Handler}
    (he : env s n e = some (s', new)) : Inv s' (ts ++ new) := by
  cases env_step he with
  | arrive hend =>
    rw [List.append_nil]
    refine hi.frame rfl rfl rfl rfl id id ?_
    -- the stream has not ended, so it was not over for that reason
    rintro cur (h | ⟨h, _⟩ | h)
    · exact Or.inl h
    · exact absurd h hend
    · exact Or.inr (Or.inr h)
  | finish hend =>
    rw [List.append_nil]
    refine hi.frame rfl rfl rfl rfl id id ?_
    rintro cur (h | ⟨h, _⟩ | h)
    · exact Or.inl h
    · exact absurd h hend
    · exact Or.inr (Or.inr h)
  | @deliver r k hr _ hk hu =>
    obtain ⟨cur, htaken, hp⟩ := hi.phase
    obtain ⟨hopen, hts, hat⟩ := hp.of_reading hr
    obtain ⟨data, hs, hat'⟩ := hat.deliver hk hu
    rw [hs] at hat' ⊢
    rw [List.append_nil]
    -- the bytes of the piece join the beginning of the frame
    refine ⟨hi.overrun, hi.short, cur ++ s.unread.take k, ?_, .reading rfl hopen hts hat'⟩
    show s.taken ++ _ = _
    rw [htaken, List.append_assoc]
  | complete hr hg => exact hi.start_handler hr fun cur hat _ => hat.complete hg
  | @fail r hr hb =>
    refine hi.start_handler hr fun cur hat hopen => ?_
    have hover := hat.fail hopen hb
    cases hp : r.part <;> simp only [AsyncRead.handler, hp] <;> exact hover
  | stopElsewhere =>
    rw [List.append_nil]
    refine hi.frame rfl rfl rfl rfl ?_ (fun _ => rfl) ?_
    · rintro (h | h)
      · exact Or.inr (by simp [h])
      · exact Or.inr (by simp [h])
    · rintro cur (h | h | h)
      · exact Or.inl (by simp [h])
      · exact Or.inr (Or.inl h)
      · exact Or.inr (Or.inr h)

/-! ## The steps of a handler -/

/-- What the newest handler needs of its next place, when it hands nothing out. -/
theorem Inv.set_newest {us : List Handler} {l a : Handler} {cur cur' : Bytes}
    (hi : Inv s (us ++ [l])) (hover : s'.overrun = s.overrun)
    (hcur : s.taken = frames headerLength (handedOut (us ++ [l])) ++ cur)
    (hgiven : handedOut (us ++ [a]) = handedOut (us ++ [l]) ∧ cur' = cur ∨
      ∃ body : Bytes, handedOut (us ++ [a]) = handedOut (us ++ [l]) ++ [body] ∧ cur' = [] ∧
        cur = Wire.frame headerLength body ∧ body.length ≤ maxBodyLength)
    (htaken : s'.taken = s.taken) (hp : Phase s' cur' (us ++ [a])) : Inv s' (us ++ [a]) := by
  rcases hgiven with ⟨hh, rfl⟩ | ⟨body, hh, rfl, rfl, hlen⟩
  · exact ⟨hover.trans hi.overrun, by rw [hh]; exact hi.short, cur', by rw [hh, htaken, hcur], hp⟩
  · refine ⟨hover.trans hi.overrun, ?_, [], ?_, hp⟩
    · intro b hb
      rw [hh, List.mem_append, List.mem_singleton] at hb
      rcases hb with hb | rfl
      · exact hi.short b hb
      · exact hlen
    · rw [hh, htaken, hcur, frames_concat, List.append_nil]

/-- `decode_header` takes the next body length off a complete header, or ends
the session at one that is too large. -/
theorem atHandler_decodeHeader (o : ByteOrder) {cur : Bytes} (hat : cur = s.readMsg.header) :
    AtHandler { s with readMsg := (s.readMsg.decodeHeader o).2 } cur
      (if (s.readMsg.decodeHeader o).1 then .readBody else .stop) := by
  have hn := ChatMessage.decodeHeader_eq o s.readMsg
  have hlen := ChatMessage.length_header s.readMsg
  unfold ChatMessage.decodeHeader
  by_cases hle : networkToHost o (load o s.readMsg.header) ≤ maxBodyLength
  · simp only [hle, ↓reduceDIte, ↓reduceIte, AtHandler]
    have hbe := be_readBE s.readMsg.header
    rw [hlen] at hbe
    rw [hn, hbe, hat]
  · simp only [hle, ↓reduceDIte, Bool.false_eq_true, ↓reduceIte, AtHandler]
    refine Or.inr (Or.inr ⟨?_, ?_⟩)
    · rw [hat, hlen]
    · rw [hat, List.take_of_length_le (by rw [hlen]), ← hn]
      omega

theorem set_concat_length (us : List Handler) (l a : Handler) :
    (us ++ [l]).set us.length a = us ++ [a] := by
  rw [List.set_append_right _ _ (Nat.le_refl _), Nat.sub_self, List.set_cons_zero]

/-- Every step of a handler keeps the invariant. -/
theorem Inv.exec {P : Protobuf} {o : ByteOrder} {i n : Nat} {l l' : Handler} {r : Unit}
    (hi : Inv s ts) (hl : ts[i]? = some l) (he : exec P o s n l r = some (s', l')) :
    Inv s' (ts.set i l') := by
  obtain ⟨cur, htaken, hp⟩ := hi.phase
  have hnone : ∀ us : List Handler, ∀ a b : Handler, a.given = none → b.given = none →
      handedOut (us ++ [a]) = handedOut (us ++ [b]) := by
    intro us a b ha hb
    rw [handedOut_append, handedOut_append, ha, hb]
  cases l with
  | deal chMsg =>
    cases he
    have hh := handedOut_set (.dealt chMsg.body (dealRequest P chMsg.body)) hl rfl
    exact ⟨hi.overrun, by rw [hh]; exact hi.short, cur, by rw [hh]; exact htaken,
      hp.set_passive hl trivial trivial⟩
  | dealt body request => cases he
  | done => cases he
  | onHeader ec =>
    obtain ⟨us, rfl, rfl, hr, hopen, hts, hat⟩ := hp.active hl id
    rw [set_concat_length]
    cases ec with
    | true =>
      cases he
      exact hi.set_newest rfl htaken (Or.inl ⟨hnone us _ _ rfl rfl, rfl⟩) rfl
        (.handling hr hopen hts hat)
    | false =>
      simp only [Reader.exec, Option.some.injEq, Prod.mk.injEq] at he
      obtain ⟨rfl, rfl⟩ := he
      refine hi.set_newest rfl htaken (Or.inl ⟨hnone us _ _ ?_ rfl, rfl⟩) rfl
        (.handling hr hopen hts (atHandler_decodeHeader o hat))
      split <;> rfl
  | readBody =>
    obtain ⟨us, rfl, rfl, hr, hopen, hts, hat⟩ := hp.active hl id
    rw [set_concat_length]
    cases he
    refine hi.set_newest rfl htaken (Or.inl ⟨hnone us _ _ rfl rfl, rfl⟩) rfl
      (.reading rfl hopen (passive_append hts trivial) ⟨Or.inr ⟨rfl, rfl, rfl⟩, Nat.zero_le _, ?_⟩)
    exact hat.trans (List.append_nil _).symm
  | onBody ec =>
    obtain ⟨us, rfl, rfl, hr, hopen, hts, hat⟩ := hp.active hl id
    rw [set_concat_length]
    cases ec with
    | true =>
      cases he
      exact hi.set_newest rfl htaken (Or.inl ⟨hnone us _ _ rfl rfl, rfl⟩) rfl
        (.handling hr hopen hts hat)
    | false =>
      cases he
      -- the copy is the frame that `cur` has become
      refine hi.set_newest rfl htaken (Or.inr ⟨s.readMsg.body, ?_, rfl, ?_, ?_⟩) rfl
        (.handling hr hopen hts rfl)
      · rw [handedOut_append, handedOut_append]
        simp [Handler.given]
      · rw [Wire.frame, ChatMessage.length_body]
        exact hat
      · rw [ChatMessage.length_body]
        exact s.readMsg.bodyLength_le
  | readHeader chMsg =>
    obtain ⟨us, rfl, rfl, hr, hopen, hts, hat⟩ := hp.active hl id
    rw [set_concat_length]
    cases he
    refine hi.set_newest rfl htaken (Or.inl ⟨?_, rfl⟩) rfl
      (.reading rfl hopen (passive_append hts trivial) ⟨Or.inl ⟨rfl, rfl, rfl⟩, Nat.zero_le _, hat⟩)
    rw [handedOut_append, handedOut_append]
    rfl
  | stop =>
    obtain ⟨us, rfl, rfl, hr, hopen, hts, hat⟩ := hp.active hl id
    rw [set_concat_length]
    cases he
    exact hi.set_newest rfl htaken (Or.inl ⟨hnone us _ _ rfl rfl, rfl⟩) rfl
      (.stopped hr rfl (passive_append hts trivial) hat)

/-! ## Every run -/

variable {P : Protobuf} {o : ByteOrder}

/-- What a session can come to. -/
def Reachable (P : Protobuf) (o : ByteOrder) (data : Buffer) (s : Conf Session Handler) : Prop :=
  (reader P o).Reach (fun _ _ => True) (start data) s

theorem inv_start (data : Buffer) : Inv (start data).shared (start data).threads :=
  ⟨rfl, nofun, [], rfl, .reading rfl (Or.inl rfl) nofun
    ⟨Or.inl ⟨rfl, rfl, rfl⟩, Nat.zero_le _, rfl⟩⟩

theorem inv_step {s s' : Conf Session Handler} {m : Move Event Unit}
    (hi : Inv s.shared s.threads) (hst : (reader P o).step s m = some s') :
    Inv s'.shared s'.threads := by
  rcases Program.step_cases hst with ⟨e, sh, new, _, he, rfl⟩ | ⟨i, r, l, sh, l', _, hl, he, rfl⟩
  · exact Inv.env (n := s.threads.length) hi he
  · exact Inv.exec (n := i) hi hl he

theorem inv_of_reachable {data : Buffer} {s : Conf Session Handler} (h : Reachable P o data s) :
    Inv s.shared s.threads :=
  Program.Reach.rule (I := Inv) (inv_start data)
    (fun _ ts _ _ _ _ hi _ he => Inv.env (n := ts.length) hi he)
    (fun _ _ i _ _ _ _ _ hi _ hl he => Inv.exec (n := i) hi hl he) h

/-! ## The server comes to rest -/

/-- What is left to do for an armed read. -/
def AsyncRead.work (r : AsyncRead) : Nat :=
  match r.part with
  | .header => 3 + 2 * r.got
  | .body => 8

/-- What is left to do for a handler. -/
def Handler.work : Handler → Nat
  | .onHeader false => 10
  | .readBody => 9
  | .onBody false => 7
  | .readHeader _ => 6
  | .onHeader true => 2
  | .onBody true => 2
  | .stop => 1
  | .deal _ => 1
  | .dealt _ _ => 0
  | .done => 0

/-- A bound on the moves the server can make without the peer. -/
def work (s : Session) (ts : List Handler) : Nat :=
  8 * s.unread.length + (s.reading.elim 0 AsyncRead.work + (ts.map Handler.work).sum)

/-- A step of a handler leaves less to do: what it arms is less than what it
had before it. -/
theorem work_exec {i n : Nat} {l l' : Handler} {r : Unit} (hi : Inv s ts) (hl : ts[i]? = some l)
    (he : exec P o s n l r = some (s', l')) : work s' (ts.set i l') < work s ts := by
  obtain ⟨cur, _, hp⟩ := hi.phase
  have hset := sum_map_set Handler.work hl l'
  unfold work
  cases l with
  | deal chMsg =>
    cases he
    simp only [Handler.work] at hset
    omega
  | dealt body request => cases he
  | done => cases he
  | onHeader ec =>
    cases ec with
    | true =>
      cases he
      simp only [Handler.work] at hset
      omega
    | false =>
      simp only [Reader.exec, Option.some.injEq, Prod.mk.injEq] at he
      obtain ⟨rfl, rfl⟩ := he
      have hnext : ∀ b : Bool, (if b then Handler.readBody else .stop).work ≤ 9 := by decide
      have := hnext (s.readMsg.decodeHeader o).1
      rw [show Handler.work (.onHeader false) = 10 from rfl] at hset
      show 8 * s.unread.length + (s.reading.elim 0 AsyncRead.work + _) < _
      omega
  | readBody =>
    obtain ⟨_, _, _, hr, _⟩ := hp.active hl id
    cases he
    simp only [Handler.work] at hset
    simp only [hr, Option.elim, AsyncRead.work, asyncReadBody]
    omega
  | onBody ec =>
    cases ec <;> cases he <;> simp only [Handler.work] at hset <;> omega
  | readHeader chMsg =>
    obtain ⟨_, _, _, hr, _⟩ := hp.active hl id
    cases he
    simp only [Handler.work] at hset
    simp only [hr, Option.elim, AsyncRead.work, asyncReadHeader]
    omega
  | stop =>
    cases he
    simp only [Handler.work] at hset
    show 8 * s.unread.length + (s.reading.elim 0 AsyncRead.work + _) < _
    omega

/-- The handler of a complete or broken read has less to do than the read. -/
theorem work_handler {cur : Bytes} {r : AsyncRead} {ec : Bool} (hat : AtRead s cur r)
    (hg : ec = false → r.got = r.want) : (r.handler ec).work < r.work := by
  rcases hat.part with ⟨hp, _, hw⟩ | ⟨hp, _, hw⟩
  · cases ec with
    | true =>
      simp only [AsyncRead.handler, AsyncRead.work, hp, Handler.work]
      omega
    | false =>
      have := hg rfl
      simp only [AsyncRead.handler, AsyncRead.work, hp, Handler.work]
      unfold headerLength at hw
      omega
  · cases ec <;> simp only [AsyncRead.handler, AsyncRead.work, hp, Handler.work] <;> omega

theorem work_env {n : Nat} {e : Event} {new : List Handler} (hi : Inv s ts)
    (he : env s n e = some (s', new)) (hint : internal (.env e) = true) :
    work s' (ts ++ new) < work s ts := by
  obtain ⟨cur, _, hp⟩ := hi.phase
  have hnew : ∀ {r : AsyncRead} {ec : Bool}, s.reading = some r → (ec = false → r.got = r.want) →
      work { s with reading := none } (ts ++ [r.handler ec]) < work s ts := by
    intro r ec hr hg
    have hlt := work_handler (hp.of_reading hr).2.2 hg
    simp only [work, hr, Option.elim, List.map_append, List.sum_append, List.map_cons, List.map_nil,
      List.sum_cons, List.sum_nil]
    omega
  cases env_step he with
  | arrive => cases hint
  | finish => cases hint
  | stopElsewhere => cases hint
  | @deliver r k hr hk₀ hk hu =>
    obtain ⟨data, hs, _⟩ := (hp.of_reading hr).2.2.deliver hk hu
    rw [hs, List.append_nil]
    -- a byte that is read was worth more among the unread ones
    simp only [work, hr, Option.elim, List.length_drop, AsyncRead.work]
    cases r.part <;> simp only <;> omega
  | complete hr hg => exact hnew hr fun _ => hg
  | fail hr _ => exact hnew hr nofun

/-- A move of the server itself leaves less to do. -/
theorem work_step {s s' : Conf Session Handler} {m : Move Event Unit}
    (hi : Inv s.shared s.threads) (hm : internal m = true)
    (hst : (reader P o).step s m = some s') :
    work s'.shared s'.threads < work s.shared s.threads := by
  rcases Program.step_cases hst with
    ⟨e, sh, new, rfl, he, rfl⟩ | ⟨i, r, l, sh, l', rfl, hl, he, rfl⟩
  · exact work_env (n := s.threads.length) hi he hm
  · exact work_exec (n := i) hi hl he

/-- The server cannot go on for ever without the peer. -/
theorem length_le_work {ms : List (Move Event Unit)} {s s' : Conf Session Handler}
    (hi : Inv s.shared s.threads) (hint : ∀ m ∈ ms, internal m = true)
    (hrun : (reader P o).run (fun _ _ => true) s ms = some s') :
    ms.length ≤ work s.shared s.threads := by
  rw [Program.run_true] at hrun
  have hle := countP_add_le_of_runs (fun s => Inv s.shared s.threads) (internal · = true)
    (fun _ => true) (fun s => work s.shared s.threads) (fun _ _ _ hi _ hst => inv_step hi hst)
    (fun s m s' hi hm hst => by
      have hlt := work_step hi hm hst
      rw [if_pos rfl]
      omega) hi hint hrun
  rw [List.countP_true] at hle
  omega

/-- The server comes to rest by itself. -/
theorem exists_quiet {s : Conf Session Handler} (hi : Inv s.shared s.threads) :
    ∃ s', (reader P o).Reach (fun _ m => internal m = true) s s' ∧ Quiet P o s' := by
  -- the induction is on what is left to do
  induction hn : work s.shared s.threads using Nat.strong_induction_on generalizing s with
  | _ n ih =>
    by_cases hq : Quiet P o s
    · exact ⟨s, Relation.ReflTransGen.refl, hq⟩
    · simp only [Quiet, not_forall] at hq
      obtain ⟨m, hm, hst⟩ := hq
      obtain ⟨s₁, hs₁⟩ := Option.ne_none_iff_exists'.mp hst
      obtain ⟨s', hreach, hq'⟩ := ih _ (hn ▸ work_step hi hm hs₁) (inv_step hi hs₁) rfl
      exact ⟨s', hreach.head ⟨m, hm, hs₁⟩, hq'⟩

/-! ## The whole stream -/

/-- A read with nothing left to do is waiting for bytes that have not come. -/
theorem quiet_read {s : Conf Session Handler} {r : AsyncRead} (hq : Quiet P o s)
    (hr : s.shared.reading = some r) (hstart : s.shared.started = true) (hle : r.got ≤ r.want) :
    r.got < r.want ∧ s.shared.unread = [] ∧ ¬s.shared.ended = true := by
  have henv : ∀ e, internal (.env e) = true → env s.shared s.threads.length e = none := by
    intro e hint
    exact Option.map_eq_none_iff.mp (hq (.env e) hint)
  -- it is not complete, its bytes are used up, and it is not broken
  have hg : r.got < r.want := by
    have h := henv .complete rfl
    simp only [env, hr] at h
    split at h
    · cases h
    · omega
  have hu : s.shared.unread = [] := by
    have h := henv (.deliver 1) rfl
    simp only [env, hr] at h
    split at h
    · cases h
    · next hc =>
      refine List.eq_nil_of_length_eq_zero ?_
      by_contra hne
      exact hc ⟨hstart, Nat.one_pos, hg, by omega⟩
  refine ⟨hg, hu, ?_⟩
  intro hend
  have h := henv .fail rfl
  simp only [env, hr] at h
  split at h
  · cases h
  · next hb => exact hb (Or.inr ⟨hend, hu, hg⟩)

/-- The newest handler could take its next step. -/
theorem not_quiet_handling {sh s : Session} {us : List Handler} {a : Handler} {cur : Bytes}
    (hat : AtHandler s cur a) : ¬Quiet P o ⟨sh, us ++ [a]⟩ := by
  intro hq
  have h := hq (.run us.length ()) rfl
  have hl : (us ++ [a])[us.length]? = some a := by
    rw [List.getElem?_append_right (Nat.le_refl _), Nat.sub_self]
    rfl
  simp only [Program.step, hl, reader] at h
  rw [Option.map_eq_none_iff] at h
  cases a with
  | onHeader ec => cases ec <;> cases h
  | onBody ec => cases ec <;> cases h
  | readBody => cases h
  | readHeader chMsg => cases h
  | stop => cases h
  | deal chMsg => exact hat
  | dealt body request => exact hat
  | done => exact hat

/-- With nothing left to do, what follows the frames handed out is no frame. -/
theorem quiet_rest {s : Conf Session Handler} {cur : Bytes} (hq : Quiet P o s)
    (hp : Phase s.shared cur s.threads) (helse : s.shared.stoppedElsewhere = false) :
    next? headerLength maxBodyLength (cur ++ s.shared.unread) = none ∧
    (s.shared.started = false ↔ s.shared.ended = true ∨
      Oversized headerLength maxBodyLength (cur ++ s.shared.unread)) := by
  obtain ⟨sh, ts⟩ := s
  change Phase sh cur ts at hp
  change sh.stoppedElsewhere = false at helse
  show next? headerLength maxBodyLength (cur ++ sh.unread) = none ∧
    (sh.started = false ↔ sh.ended = true ∨ Oversized headerLength maxBodyLength (cur ++ sh.unread))
  cases hp with
  | reading hr hopen hts hat =>
    have hstart : sh.started = true := hopen.resolve_right (by rw [helse]; nofun)
    obtain ⟨hg, hu, hend⟩ := quiet_read hq hr hstart hat.got_le
    change sh.unread = [] at hu
    obtain ⟨hnone, hsize⟩ := hat.next?_none hg
    rw [hu, List.append_nil, hstart]
    exact ⟨hnone, nofun, fun h => absurd h (not_or.mpr ⟨hend, hsize⟩)⟩
  | handling hr hopen hts hat => exact absurd hq (not_quiet_handling hat)
  | stopped hr hstop hts hover =>
    rcases hover with h | ⟨hend, hu, hnone⟩ | hsize
    · rw [helse] at h
      cases h
    · rw [hu, List.append_nil]
      exact ⟨hnone, fun _ => Or.inl hend, fun _ => hstop⟩
    · have hsize' := hsize.append sh.unread
      exact ⟨next?_of_oversized hsize', fun _ => Or.inr hsize', fun _ => hstop⟩

/-- What the reader is for. -/
structure ReadsFrames (P : Protobuf) (o : ByteOrder) (s : Conf Session Handler) : Prop where
  /-- Every read stays inside `m_data`. -/
  inside : s.shared.overrun = false
  /-- Frames are handed out whole and in order, and nothing else is. -/
  inOrder : handedOut s.threads <+: bodies headerLength maxBodyLength s.shared.stream
  /-- The server comes to rest. -/
  rests : ∃ n, ∀ ms s', (∀ m ∈ ms, internal m = true) →
    (reader P o).run (fun _ _ => true) s ms = some s' → ms.length ≤ n
  /-- At rest, every frame has been handed out. -/
  all : s.shared.stoppedElsewhere = false → Quiet P o s →
    handedOut s.threads = bodies headerLength maxBodyLength s.shared.stream
  /-- At rest, the session is stopped exactly if the stream has ended or goes on
  with a length that is too large. -/
  stops : s.shared.stoppedElsewhere = false → Quiet P o s →
    (s.shared.started = false ↔ s.shared.ended = true ∨
      Oversized headerLength maxBodyLength (rest headerLength maxBodyLength s.shared.stream))

/-- What is handed out are bodies of the stream, from the first on. -/
theorem handedOut_prefix {data : Buffer} {s : Conf Session Handler} (h : Reachable P o data s) :
    handedOut s.threads <+: bodies headerLength maxBodyLength s.shared.stream := by
  have hi := inv_of_reachable h
  obtain ⟨cur, htaken, _⟩ := hi.phase
  rw [Session.stream, htaken, List.append_assoc,
    bodies_frames (by decide) (by decide) (cur ++ s.shared.unread) hi.short]
  exact List.prefix_append _ _

/-- At rest, all of them are. -/
theorem handedOut_of_quiet {data : Buffer} {s : Conf Session Handler} (h : Reachable P o data s)
    (helse : s.shared.stoppedElsewhere = false) (hq : Quiet P o s) :
    handedOut s.threads = bodies headerLength maxBodyLength s.shared.stream := by
  have hi := inv_of_reachable h
  obtain ⟨cur, htaken, hp⟩ := hi.phase
  rw [Session.stream, htaken, List.append_assoc,
    bodies_frames (by decide) (by decide) (cur ++ s.shared.unread) hi.short,
    bodies_of_next?_none (quiet_rest hq hp helse).1, List.append_nil]

/-- **The reader accepts exactly the frame grammar**, in every reachable state. -/
theorem readsFrames {data : Buffer} {s : Conf Session Handler} (h : Reachable P o data s) :
    ReadsFrames P o s := by
  have hi := inv_of_reachable h
  obtain ⟨cur, htaken, hp⟩ := hi.phase
  have hh : 0 < headerLength := by decide
  have hm : maxBodyLength < 256 ^ headerLength := by decide
  have hstream : s.shared.stream
      = frames headerLength (handedOut s.threads) ++ (cur ++ s.shared.unread) := by
    rw [Session.stream, htaken, List.append_assoc]
  have hbodies := bodies_frames hh hm (cur ++ s.shared.unread) hi.short
  have hrest := rest_frames hh hm (cur ++ s.shared.unread) hi.short
  rw [← hstream] at hbodies hrest
  refine ⟨hi.overrun, ?_, ⟨work s.shared s.threads, fun ms s' => length_le_work hi⟩, ?_, ?_⟩
  · rw [hbodies]
    exact List.prefix_append _ _
  · intro helse hq
    rw [hbodies, bodies_of_next?_none (quiet_rest hq hp helse).1, List.append_nil]
  · intro helse hq
    obtain ⟨hnone, hiff⟩ := quiet_rest hq hp helse
    rw [hrest, rest_of_next?_none hnone]
    exact hiff

/-- A frame without a body is handed out while the next header is on its way. -/
theorem readsFrames_emptyBody :
    ReadsFrames knownFields .little
      ((reader knownFields .little).after (fun _ _ => true) (start zeroed)
        [.env (.arrive [0, 0, 0, 0, 0xff]), .env (.deliver 1), .env (.deliver 3), .env .complete,
         .run 0 (), .run 0 (), .env .complete, .run 1 (), .run 1 (), .env (.deliver 1),
         .run 1 ()]) :=
  readsFrames (Interleave.Program.Reach.mono (fun _ _ _ => trivial)
    (Program.reach_after (by decide +kernel)))

end CiaServer.Net.Reader
