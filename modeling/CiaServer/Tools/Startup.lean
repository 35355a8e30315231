import CiaServer.Machine.Answers
import CiaServer.Machine.ToString
import CiaServer.Tools.ConfigServer

/-!
# Starting, and saying so (`config_server`)

The constructor refreshes the eight settings one after the other. `init_reads`: it
gets through exactly if each of the eight strings is empty or begins with a
number, and then each getter returns what its own string says, whatever was in
the fields before; otherwise the first of them that does not ends it with its
exception, which `main` does not catch.

Under its own node a server says how many channels are idle and whether it is
started (`Node`), through `cia_zookeeper.h` (`Zookeeper`), of which no more is taken for
granted than that a write stores the value or nothing, and that a read gets what is stored
or nothing (`Zookeeper.Lawful`).

Mirroring notes:
- What `init_zookeeper` and `zk_set_data` return only reaches the log.
-/

namespace CiaServer.Tools

open Interleave Machine

/-! ## The constructor -/

namespace ConfigServer

/-- The constructor, from fields that hold anything. -/
def init (w : WordSize) (z : Store) : Routine ConfigServer StoiError PUnit := do
  discard (flushIocpThreadNumber w z)
  discard (flushServerPort w z)
  discard (flushClientSocketTimeoutElapsed w z)
  discard (flushCtiTotalChannelCount w z)
  discard (flushCtiSetIdolChannelNumElapsed w z)
  discard (flushCtiTimeoutElapsed w z)
  discard (flushCtiWarningElapsed w z)
  discard (flushCtiSleepingElapsed w z)

end ConfigServer

namespace Setting

open ConfigServer

/-- The settings in the order of the constructor. -/
def order : List Setting :=
  [.iocpThreadNumber, .serverPort, .clientSocketTimeoutElapsed, .ctiTotalChannelCount,
    .ctiSetIdolChannelNumElapsed, .ctiTimeoutElapsed, .ctiWarningElapsed, .ctiSleepingElapsed]

/-- What the string of a setting means, as its getter returns it: nothing is zero, and where the
getter returns a `size_t` a negative number is a large one. -/
def means (w : WordSize) (z : Store) (c : ConfigServer) (k : Setting) : Except StoiError Int :=
  if zkGetData z (k.path c) = [] then .ok 0
  else
    match stoi (zkGetData z (k.path c)) with
    | .ok n => .ok (if k.unsigned then (toUnsigned w.bits n : Int) else n)
    | .error e => .error e

variable {w : WordSize} {z : Store} {c : ConfigServer}

theorem mem_order (k : Setting) : k ∈ order := by
  cases k <;> simp [order]

theorem path_put (j k : Setting) (n : Nat) : k.path (j.put c n) = k.path c := by
  cases j <;> rfl

theorem means_put (j k : Setting) (n : Nat) : k.means w z (j.put c n) = k.means w z c := by
  rw [means, means, path_put]

/-- No refresh writes the field of another setting. -/
theorem get_put_of_ne {j k : Setting} (h : k ≠ j) (n : Nat) : k.get (j.put c n) = k.get c := by
  cases j <;> cases k <;> first | exact absurd rfl h | rfl

/-- What one refresh of the constructor does. -/
theorem exec_discard_flush (k : Setting) :
    (∃ n, (discard (k.flush w z)).exec c = (.ok ⟨⟩, k.put c n) ∧
      k.means w z c = .ok (k.get (k.put c n))) ∨
    ∃ e, (discard (k.flush w z)).exec c = (.error e, c) ∧ k.means w z c = .error e := by
  by_cases hnil : zkGetData z (k.path c) = []
  · refine Or.inl ⟨0, Routine.exec_discard_ok (exec_flush_nil k hnil), ?_⟩
    rw [means, if_pos hnil, get_put_zero]
  · cases hs : stoi (zkGetData z (k.path c)) with
    | ok n =>
      refine Or.inl ⟨_, Routine.exec_discard_ok (exec_flush_ok k hnil hs), ?_⟩
      rw [means, if_neg hnil, hs, get_put_int k (fits_of_stoi hs)]
    | error e =>
      refine Or.inr ⟨e, Routine.exec_discard_error (exec_flush_error k hnil hs), ?_⟩
      rw [means, if_neg hnil, hs]

/-- What a row of refreshes comes to. -/
structure Reads (w : WordSize) (z : Store) (c : ConfigServer) (ks : List Setting)
    (r : Except StoiError PUnit × ConfigServer) : Prop where
  outcome : r.1 = ks.forM fun k => discard (k.means w z c)
  told : r.1 = .ok ⟨⟩ → ∀ k ∈ ks, k.means w z c = .ok (k.get r.2)
  untouched : ∀ k ∉ ks, k.get r.2 = k.get c

theorem exec_flushes : ∀ (ks : List Setting) (c : ConfigServer), ks.Nodup →
    Reads w z c ks ((ks.forM fun k => discard (k.flush w z)).exec c)
  | [], c, _ => ⟨rfl, fun _ _ hk => absurd hk List.not_mem_nil, fun _ _ => rfl⟩
  | k :: ks, c, hnd => by
    obtain ⟨hk, hnd⟩ := List.nodup_cons.mp hnd
    show Reads w z c (k :: ks)
      ((discard (k.flush w z) >>= fun _ => ks.forM fun k => discard (k.flush w z)).exec c)
    rcases exec_discard_flush (w := w) (z := z) (c := c) k with ⟨n, hex, hmeans⟩ | ⟨e, hex, hmeans⟩
    · rw [Routine.exec_bind_ok hex]
      obtain ⟨houtcome, htold, huntouched⟩ := exec_flushes ks (k.put c n) hnd
      simp only [means_put] at houtcome htold
      refine ⟨?_, ?_, ?_⟩
      · rw [houtcome]
        show _ = (discard (k.means w z c) >>= fun _ => ks.forM fun k => discard (k.means w z c))
        rw [hmeans]
        rfl
      · intro hok j hj
        rcases List.mem_cons.mp hj with rfl | hj
        · rw [huntouched j hk]
          exact hmeans
        · exact htold hok j hj
      · intro j hj
        rw [List.mem_cons, not_or] at hj
        rw [huntouched j hj.2, get_put_of_ne hj.1]
    · rw [Routine.exec_bind_error hex]
      refine ⟨?_, nofun, fun _ _ => rfl⟩
      show _ = (discard (k.means w z c) >>= fun _ => ks.forM fun k => discard (k.means w z c))
      rw [hmeans]
      rfl

/-- The constructor is a row of refreshes. -/
theorem exec_init (w : WordSize) (z : Store) (c : ConfigServer) :
    (ConfigServer.init w z).exec c = (order.forM fun k => discard (k.flush w z)).exec c := by
  simp only [order, List.forM_eq_forM, List.forM_cons, List.forM_nil, bind_pure_unit]
  rfl

/-- What the constructor comes to. -/
structure Init (w : WordSize) (z : Store) (c : ConfigServer) : Prop where
  /-- It returns, or throws what the first string that is no number throws. -/
  outcome : ((ConfigServer.init w z).exec c).1 = order.forM fun k => discard (k.means w z c)
  /-- If it returns, each getter returns what its own string means. -/
  getters : ((ConfigServer.init w z).exec c).1 = .ok ⟨⟩ →
    ∀ k : Setting, k.means w z c = .ok (k.get ((ConfigServer.init w z).exec c).2)

/-- **The constructor reads all eight settings**, each from its own string. -/
theorem init_reads (w : WordSize) (z : Store) (c : ConfigServer) : Init w z c := by
  have hnd : order.Nodup := by decide
  obtain ⟨houtcome, htold, _⟩ := exec_flushes (w := w) (z := z) order c hnd
  refine ⟨?_, ?_⟩
  · rw [exec_init]
    exact houtcome
  · rw [exec_init]
    exact fun hok k => htold hok k (mem_order k)

end Setting

/-! ## What a server announces -/

def zooPathFreeChannelNum : Bytes := ascii "/freeNum"
def zooPathStatus : Bytes := ascii "/status"

/-- The calls of `cia_zookeeper.h`; how one comes out is up to an `ω`. -/
structure Zookeeper (ω : Type) where
  /-- What is stored after `zk_set_data(path, value)`. -/
  zkSetData : ω → Store → Bytes → Bytes → Store
  /-- What `zk_get_data(path)` returns. -/
  zkGetData : ω → Store → Bytes → Bytes

/-- What `config_server` takes them to do. -/
structure Zookeeper.Lawful {ω : Type} (zk : Zookeeper ω) : Prop where
  /-- The value is stored under its path, or the call fails and nothing is. -/
  set : ∀ w z path value, zk.zkSetData w z path value = Function.update z path (some value) ∨
    zk.zkSetData w z path value = z
  /-- What is stored is returned, or the call fails and the string is empty. -/
  get : ∀ w z path, z path = some (zk.zkGetData w z path) ∨ zk.zkGetData w z path = []

/-- A `config_server` and the store it writes to. -/
structure Node where
  store : Store
  currentNodePath : Bytes
  started : Bytes

namespace Node

variable {ω : Type} (zk : Zookeeper ω) (w : ω) (s : Node)

/-- `set_idol_channel_number`. -/
def setIdolChannelNumber (idolChannelNumber : Nat) : Node :=
  { s with
    store := zk.zkSetData w s.store (s.currentNodePath ++ zooPathFreeChannelNum)
      (toDecimal idolChannelNumber) }

/-- `set_started`. -/
def setStarted (status : Bool) : Node :=
  let started := if status = true then ascii "1" else ascii "2"
  { s with started, store := zk.zkSetData w s.store (s.currentNodePath ++ zooPathStatus) started }

/-- `get_started`. -/
def getStarted : Except StoiError Int :=
  let tempVal := zk.zkGetData w s.store (s.currentNodePath ++ zooPathStatus)
  if tempVal = [] then .ok (-1) else stoi tempVal

/-- Somebody else stores a value under a path, or deletes it. -/
def storeElsewhere (path : Bytes) (value : Option Bytes) : Node :=
  { s with store := Function.update s.store path value }

/-- What is stored where the number of idle channels is. -/
def freeNum : Option Bytes := s.store (s.currentNodePath ++ zooPathFreeChannelNum)

/-- What is stored where `get_started` looks. -/
def status : Option Bytes := s.store (s.currentNodePath ++ zooPathStatus)

/-- A stored value that `get_started` does not throw at. -/
def Readable (value : Option Bytes) : Prop :=
  ∀ bs, value = some bs → bs = [] ∨ ∃ n, stoi bs = .ok n

variable {zk w s}

/-- The two paths differ. -/
theorem statusPath_ne (path : Bytes) : path ++ zooPathStatus ≠ path ++ zooPathFreeChannelNum := by
  intro h
  exact absurd (List.append_cancel_left h) (by decide)

theorem freeNum_setIdolChannelNumber (hzk : zk.Lawful) (n : Nat) :
    (s.setIdolChannelNumber zk w n).freeNum = some (toDecimal n) ∨
      (s.setIdolChannelNumber zk w n).freeNum = s.freeNum := by
  unfold freeNum setIdolChannelNumber
  dsimp only
  rcases hzk.set w s.store (s.currentNodePath ++ zooPathFreeChannelNum) (toDecimal n) with h | h
  · rw [h, Function.update_self]
    exact Or.inl rfl
  · rw [h]
    exact Or.inr rfl

theorem status_setIdolChannelNumber (hzk : zk.Lawful) (n : Nat) :
    (s.setIdolChannelNumber zk w n).status = s.status := by
  unfold status setIdolChannelNumber
  dsimp only
  rcases hzk.set w s.store (s.currentNodePath ++ zooPathFreeChannelNum) (toDecimal n) with h | h
  · rw [h, Function.update_of_ne (statusPath_ne _)]
  · rw [h]

theorem freeNum_setStarted (hzk : zk.Lawful) (status : Bool) :
    (s.setStarted zk w status).freeNum = s.freeNum := by
  unfold freeNum setStarted
  dsimp only
  rcases hzk.set w s.store (s.currentNodePath ++ zooPathStatus)
    (if status = true then ascii "1" else ascii "2") with h | h
  · rw [h, Function.update_of_ne (statusPath_ne _).symm]
  · rw [h]

/-- What `set_started` stores, `get_started` reads. -/
theorem readable_setStarted (hzk : zk.Lawful) (h : Readable s.status) (status : Bool) :
    Readable (s.setStarted zk w status).status := by
  unfold Node.status setStarted
  dsimp only
  rcases hzk.set w s.store (s.currentNodePath ++ zooPathStatus)
    (if status = true then ascii "1" else ascii "2") with hset | hset
  · rw [hset, Function.update_self]
    rintro bs ⟨⟩
    cases status with
    | true => exact Or.inr ⟨1, by decide⟩
    | false => exact Or.inr ⟨2, by decide⟩
  · rw [hset]
    exact h

theorem store_storeElsewhere (path : Bytes) (value : Option Bytes) (p : Bytes) :
    (s.storeElsewhere path value).store p = if path = p then value else s.store p := by
  rw [storeElsewhere]
  dsimp only
  split
  · next h => rw [h, Function.update_self]
  · next h => exact Function.update_of_ne (Ne.symm h) ..

/-- `get_started` does not throw at what it can read. -/
theorem getStarted_of_readable (hzk : zk.Lawful) (h : Readable s.status) :
    ∃ v, s.getStarted zk w = .ok v := by
  unfold getStarted
  dsimp only
  split
  · exact ⟨-1, rfl⟩
  · next hne =>
    rcases hzk.get w s.store (s.currentNodePath ++ zooPathStatus) with hget | hget
    · exact (h _ hget).resolve_left hne
    · exact absurd hget hne

end Node

end CiaServer.Tools
