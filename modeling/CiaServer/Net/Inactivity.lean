import CiaServer.Net.Session

/-!
# Is a silent peer dropped?

The inactivity check compares the clock with `m_update_time`. A message from
the peer sets it, and so does every completed send of the server's own, of
which the heartbeat that the check itself starts is one. A peer that is gone
while its window still takes bytes is sent a heartbeat every half timeout and
never dropped (`silentPeerDropped_fails`).

`silentPeerDropped_iff`: in any run, the checks drop the silent peer exactly if
at each of them `m_update_time` was not set for another reason than a reception
within the timeout.
-/

namespace CiaServer.Net.Session

open Wire Interleave

/-- An inactivity check of a running client from which nothing was received for
more than `m_timeout_elapsed` milliseconds. -/
def SilentCheck (s : Conf Shared Pc) : Move Event Unit → Prop
  | .env _ => False
  | .run i _ => s.threads[i]? = some (.onTimer false) ∧ s.shared.reader.started = true ∧
    s.shared.Overdue s.shared.heard

/-- The check stops the client. -/
def Drops (P : Protobuf) (o : ByteOrder) (s : Conf Shared Pc) (m : Move Event Unit) : Prop :=
  SilentCheck s m → ∀ s', (session P o).step s m = some s' → s'.shared.reader.started = false

/-- The check comes more than the timeout after every completed send and every
heartbeat response dealt with. -/
def Undisturbed (s : Conf Shared Pc) (m : Move Event Unit) : Prop :=
  SilentCheck s m → ∀ t ∈ s.shared.refreshed, s.shared.Overdue t

/-! ## The clock -/

/-- What `m_update_time` can be. -/
structure TimeInv (s : Shared) : Prop where
  update_le : s.updateTime ≤ s.now
  heard_le : s.heard ≤ s.now
  refreshed_le : ∀ t ∈ s.refreshed, t ≤ s.updateTime
  update : s.updateTime ≤ s.heard ∨ s.updateTime ∈ s.refreshed

variable {P : Protobuf} {o : ByteOrder} {s s' : Shared} {i : Nat} {l l' : Pc}

/-- A move that leaves the times alone, or lets the clock go on. -/
theorem TimeInv.congr (hi : TimeInv s) (hu : s'.updateTime = s.updateTime)
    (hn : s.now ≤ s'.now) (hh : s'.heard = s.heard) (hr : s'.refreshed = s.refreshed) :
    TimeInv s' := by
  refine ⟨?_, ?_, ?_, ?_⟩
  · rw [hu]
    exact Nat.le_trans hi.update_le hn
  · rw [hh]
    exact Nat.le_trans hi.heard_le hn
  · rw [hr, hu]
    exact hi.refreshed_le
  · rw [hu, hh, hr]
    exact hi.update

theorem TimeInv.refresh (hi : TimeInv s) : TimeInv s.refresh := by
  refine ⟨Nat.le_refl _, hi.heard_le, ?_, Or.inr (List.mem_cons_self ..)⟩
  intro t ht
  rcases List.mem_cons.mp ht with rfl | ht
  · exact Nat.le_refl _
  · exact Nat.le_trans (hi.refreshed_le t ht) hi.update_le

/-- A reception brings `heard`, and with a body `m_update_time`, up to now. -/
theorem TimeInv.afterRead (hi : TimeInv s) (h : Reader.Handler) (reader : Reader.Session) :
    TimeInv (s.afterRead h reader) := by
  unfold Shared.afterRead
  split
  · exact ⟨hi.update_le, Nat.le_refl _, hi.refreshed_le, Or.inl hi.update_le⟩
  · refine ⟨Nat.le_refl _, Nat.le_refl _, ?_, Or.inl (Nat.le_refl _)⟩
    intro t ht
    exact Nat.le_trans (hi.refreshed_le t ht) hi.update_le
  · exact hi.congr rfl (Nat.le_refl _) rfl rfl

theorem Step.timeInv (h : Step P o s i l s' l') (hi : TimeInv s) : TimeInv s' := by
  cases h with
  | read => exact hi.afterRead _ _
  | heartResponse => exact hi.refresh
  | sendDone => exact hi.refresh
  | check =>
    unfold Shared.doTimeoutCheck
    split
    · exact hi.congr rfl (Nat.le_refl _) rfl rfl
    · exact hi
  | _ => exact hi.congr rfl (Nat.le_refl _) rfl rfl

theorem timeInv_env {n : Nat} {e : Event} {new : List Pc} (h : env s n e = some (s', new))
    (hi : TimeInv s) : TimeInv s' := by
  cases env_step h with
  | tick => exact hi.congr rfl (Nat.le_add_right _ _) rfl rfl
  | _ => exact hi.congr rfl (Nat.le_refl _) rfl rfl

theorem timeInv_start (data : Buffer) (timeoutElapsed now : Nat) :
    TimeInv (start data timeoutElapsed now).shared := by
  unfold start
  dsimp only
  split
  · exact ⟨Nat.le_refl _, Nat.le_refl _, nofun, Or.inl (Nat.le_refl _)⟩
  · exact ⟨Nat.le_refl _, Nat.le_refl _, nofun, Or.inl (Nat.le_refl _)⟩

/-- In every run, `m_update_time` is the moment of a reception or of a refresh,
and no refresh is later. -/
theorem timeInv {data : Buffer} {timeoutElapsed now : Nat} {s : Conf Shared Pc}
    (h : (session P o).Reach (fun _ _ => True) (start data timeoutElapsed now) s) :
    TimeInv s.shared :=
  Program.Reach.rule (I := fun sh _ => TimeInv sh) (timeInv_start data timeoutElapsed now)
    (fun _ ts _ _ _ _ hi _ he => timeInv_env (n := ts.length) he hi)
    (fun _ _ _ _ _ _ _ _ hi _ _ he => (exec_step he).timeInv hi) h

/-! ## The check -/

/-- The longer ago, the more overdue. -/
theorem Shared.Overdue.mono {t u : Nat} (h : s.Overdue t) (hu : u ≤ t) : s.Overdue u := by
  refine Nat.lt_of_lt_of_le h ?_
  exact Nat.div_le_div_right (by omega)

/-- The check stops a running client exactly if `m_update_time` is overdue. -/
theorem check_stops_iff {r : Unit} (hstart : s.reader.started = true)
    (h : exec P o s i (.onTimer false) r = some (s', l')) :
    s'.reader.started = false ↔ s.Overdue s.updateTime := by
  cases exec_step h with
  | timedOut ho => exact ⟨fun _ => ho, fun _ => rfl⟩
  | quiet ho _ =>
    rw [hstart]
    exact ⟨nofun, fun h => absurd h ho⟩
  | busy ho _ =>
    rw [hstart]
    exact ⟨nofun, fun h => absurd h ho⟩

/-- For a silent peer that is so exactly if all refreshes are overdue. -/
theorem overdue_update_iff (hi : TimeInv s) (ho : s.Overdue s.heard) :
    s.Overdue s.updateTime ↔ ∀ t ∈ s.refreshed, s.Overdue t := by
  constructor
  · intro h t ht
    exact h.mono (hi.refreshed_le t ht)
  · intro h
    rcases hi.update with hle | hmem
    · exact ho.mono hle
    · exact h _ hmem

/-- **A silent peer is dropped exactly if nothing else refreshed
`m_update_time`**, in every run. -/
theorem silentPeerDropped_iff (P : Protobuf) (o : ByteOrder) (data : Buffer)
    (timeoutElapsed now : Nat) (ms : List (Move Event Unit)) :
    (session P o).Throughout (start data timeoutElapsed now) ms (Drops P o) ↔
      (session P o).Throughout (start data timeoutElapsed now) ms Undisturbed := by
  refine Program.throughout_congr (fun s m hreach => ?_) ms
  have hi := timeInv hreach
  cases m with
  | env e => exact ⟨fun _ h => h.elim, fun _ h => h.elim⟩
  | run i r =>
    constructor
    · intro hdrops hcheck
      have hl := hcheck.1
      cases hex : exec P o s.shared i (.onTimer false) r with
      | none =>
        -- a check can always be made
        simp only [exec] at hex
        split at hex
        · cases hex
        · split at hex <;> cases hex
      | some p =>
        have hex' : (session P o).exec s.shared i (.onTimer false) r = some p := hex
        have hstep : (session P o).step s (.run i r) = some ⟨p.1, s.threads.set i p.2⟩ := by
          simp only [Program.step, hl, hex', Option.map_some]
        have hstop := hdrops hcheck _ hstep
        rw [← overdue_update_iff hi hcheck.2.2]
        exact (check_stops_iff hcheck.2.1 hex).mp hstop
    · intro hund hcheck s' hstep
      rcases Program.step_cases hstep with ⟨_, _, _, hm, _⟩ | ⟨j, r', l, sh, l', hm, hl, hex, rfl⟩
      · cases hm
      · cases hm
        cases hcheck.1.symm.trans hl
        have hex' : exec P o s.shared i (.onTimer false) r = some (sh, l') := hex
        exact (check_stops_iff hcheck.2.1 hex').mpr
          ((overdue_update_iff hi hcheck.2.2).mpr (hund hcheck))

/-- A timeout of 5 s and a peer that never sends a byte: the check after 3 s sends
a heartbeat, which goes through. -/
def deafPeer : List (Move Event Unit) :=
  [.env (.tick 3000000), .env (.timer false), .run 0 (), .run 0 (), .run 0 (), .env (.sent false),
   .run 1 (), .env (.tick 3000000), .env (.timer false)]

/-- Where a run of this session leads. -/
def deafAfter (ms : List (Move Event Unit)) : Conf Shared Pc :=
  (session knownFields .little).after (fun _ _ => true) (start zeroed 5000 0) ms

/-- **The code does not drop every silent peer**: the check after 6 s leaves the
client of `deafPeer` running. -/
theorem silentPeerDropped_fails : ¬∀ (P : Protobuf) (o : ByteOrder) (data : Buffer)
    (timeoutElapsed now : Nat) (ms : List (Move Event Unit)), 0 < timeoutElapsed →
    (session P o).Throughout (start data timeoutElapsed now) ms (Drops P o) := by
  intro h
  have hrun : (session knownFields .little).run (fun _ _ => true) (start zeroed 5000 0) deafPeer
      = some (deafAfter deafPeer) := Program.run_eq_some_after (by decide +kernel)
  have hdrops := h knownFields .little zeroed 5000 0 (deafPeer ++ [.run 2 ()]) (by decide)
    deafPeer (.run 2 ()) [] _ rfl hrun
  have hstep : (session knownFields .little).step (deafAfter deafPeer) (.run 2 ())
      = some (deafAfter (deafPeer ++ [.run 2 ()])) := by decide +kernel
  have hcheck : SilentCheck (deafAfter deafPeer) (.run 2 ()) :=
    ⟨by decide +kernel, by decide +kernel, by decide +kernel⟩
  exact absurd (hdrops hcheck _ hstep) (by decide +kernel)

end CiaServer.Net.Session
