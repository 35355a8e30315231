import CiaServer.CiaDef
import CiaServer.Interleave.Routine
import CiaServer.Machine.Decimal

/-!
# The configuration (`config_server.hpp`)

Eight settings are fetched from the store as strings, kept as `size_t` and
handed out by a getter as `size_t` or as `int`. `flush` is what the refresh
functions have in common; that of the client timeout returns `false` even when
it has set the value (`flushClientSocketTimeoutElapsed`).

A refresh should tell the truth: `true` and the number that is stored, or
`false` and the value the getter documents for a failure. It does not
(`tellsTruth_fails`): a string that only begins with a number is taken for that
number, a string that does not is an exception nobody catches, a negative
number comes out of a `size_t` getter as a large one, and where the getter
documents `-1` a failure is stored as `0`. `tellsTruth_iff` says exactly for
which strings each of the eight does.

Mirroring notes:
- `zk_get_data` returns the stored string, and the empty string on failure.
- A field of a `ConfigServer` is a value of `size_t`.
- `m_zookeeper_server_ip_port`, `m_idol_channel_number` and `m_started` are no
  settings; `areaCode`, `codePool` and `m_log_config_file` are never used.
-/

namespace CiaServer.Tools

open Interleave Machine

/-- The bytes of a string literal. -/
def ascii (s : String) : Bytes := s.toList.map fun c => UInt8.ofNat c.toNat

/-- What is stored under each path. -/
abbrev Store := Bytes → Option Bytes

/-- `zk_get_data`. -/
def zkGetData (z : Store) (path : Bytes) : Bytes := (z path).getD []

/-- One string is stored, and nothing else. -/
def Store.only (path s : Bytes) : Store := fun p => if p = path then some s else none

theorem zkGetData_only (path s : Bytes) : zkGetData (Store.only path s) path = s := by
  rw [zkGetData, Store.only, if_pos rfl]
  rfl

/-- `config_server`. -/
structure ConfigServer where
  currentNodePath : Bytes
  iocpThreadNumber : Nat
  serverPort : Nat
  clientSocketTimeoutElapsed : Nat
  ctiTotalChannelCount : Nat
  ctiTimeoutElapse : Nat
  ctiWarningElapse : Nat
  ctiSleepingElapse : Nat
  citSetIdolChannelElpesed : Nat
  deriving DecidableEq, Repr

def zooPathBasePath : Bytes := ascii "/cs"
def zooPathIocpThreadNum : Bytes := ascii "/iocpThreadNumber"
def zooPathServerPort : Bytes := ascii "/serverPort"
def zooPathClientSocketTimeoutElapsed : Bytes := ascii "/clientSocketTimeoutElapsed"
def zooPathTotalChannelNumber : Bytes := ascii "/channelTotalNum"
def zooPathCitTimeoutElapsed : Bytes := ascii "/CTITimeOutElapsed"
def zooPathCtiWarningElapsed : Bytes := ascii "/CTIWarningElapsed"
def zooPathCtiSleepingElapsed : Bytes := ascii "/CTISleepingElapsed"
def zooPathCtiSetIdolChannelNumElapsed : Bytes := ascii "/CTISetIdolChannelElapsed"

namespace ConfigServer

/-! ## The refresh functions -/

/-- What the refresh functions have in common: fetch, convert, keep. -/
def flush (w : WordSize) (z : Store) (path : Bytes) (set : ConfigServer → Nat → ConfigServer) :
    Routine ConfigServer StoiError Bool := do
  let s := zkGetData z path
  if s = [] then
    modify fun c => set c 0
    return false
  else
    let n ← Routine.ofExcept (stoi s)
    modify fun c => set c (toUnsigned w.bits n)
    return true

def flushIocpThreadNumber (w : WordSize) (z : Store) : Routine ConfigServer StoiError Bool :=
  flush w z (zooPathBasePath ++ zooPathIocpThreadNum) fun c n => { c with iocpThreadNumber := n }

def flushServerPort (w : WordSize) (z : Store) : Routine ConfigServer StoiError Bool :=
  flush w z (zooPathBasePath ++ zooPathServerPort) fun c n => { c with serverPort := n }

/-- Both branches return `false`. -/
def flushClientSocketTimeoutElapsed (w : WordSize) (z : Store) :
    Routine ConfigServer StoiError Bool := do
  let s := zkGetData z (zooPathBasePath ++ zooPathClientSocketTimeoutElapsed)
  if s = [] then
    modify fun c => { c with clientSocketTimeoutElapsed := 0 }
    return false
  else
    let n ← Routine.ofExcept (stoi s)
    modify fun c => { c with clientSocketTimeoutElapsed := toUnsigned w.bits n }
    return false

/-- The only one that is read from the server's own node. -/
def flushCtiTotalChannelCount (w : WordSize) (z : Store) :
    Routine ConfigServer StoiError Bool := do
  let c ← get
  flush w z (c.currentNodePath ++ zooPathTotalChannelNumber) fun c n =>
    { c with ctiTotalChannelCount := n }

def flushCtiTimeoutElapsed (w : WordSize) (z : Store) : Routine ConfigServer StoiError Bool :=
  flush w z (zooPathBasePath ++ zooPathCitTimeoutElapsed) fun c n => { c with ctiTimeoutElapse := n }

def flushCtiWarningElapsed (w : WordSize) (z : Store) : Routine ConfigServer StoiError Bool :=
  flush w z (zooPathBasePath ++ zooPathCtiWarningElapsed) fun c n => { c with ctiWarningElapse := n }

def flushCtiSleepingElapsed (w : WordSize) (z : Store) : Routine ConfigServer StoiError Bool :=
  flush w z (zooPathBasePath ++ zooPathCtiSleepingElapsed) fun c n =>
    { c with ctiSleepingElapse := n }

def flushCtiSetIdolChannelNumElapsed (w : WordSize) (z : Store) :
    Routine ConfigServer StoiError Bool :=
  flush w z (zooPathBasePath ++ zooPathCtiSetIdolChannelNumElapsed) fun c n =>
    { c with citSetIdolChannelElpesed := n }

/-! ## The getters -/

def getIocpThreadNumber (c : ConfigServer) : Nat := c.iocpThreadNumber
def getServerPort (c : ConfigServer) : Nat := c.serverPort
def getClientSocketTimeoutElapsed (c : ConfigServer) : Int :=
  toSigned 32 c.clientSocketTimeoutElapsed
def getCtiTotalChannelCount (c : ConfigServer) : Nat := c.ctiTotalChannelCount
def getCtiTimeoutElapsed (c : ConfigServer) : Int := toSigned 32 c.ctiTimeoutElapse
def getCtiWarningElapsed (c : ConfigServer) : Int := toSigned 32 c.ctiWarningElapse
def getCtiSleepingElapsed (c : ConfigServer) : Int := toSigned 32 c.ctiSleepingElapse
def getCtiSetIdolChannelNumElapsed (c : ConfigServer) : Int :=
  toSigned 32 c.citSetIdolChannelElpesed

end ConfigServer

/-- The settings with a refresh function and a getter. -/
inductive Setting where
  | iocpThreadNumber
  | serverPort
  | clientSocketTimeoutElapsed
  | ctiTotalChannelCount
  | ctiSetIdolChannelNumElapsed
  | ctiTimeoutElapsed
  | ctiWarningElapsed
  | ctiSleepingElapsed
  deriving DecidableEq, Repr

namespace Setting

open ConfigServer

/-- Where the string of the setting is stored. -/
def path (c : ConfigServer) : Setting → Bytes
  | .iocpThreadNumber => zooPathBasePath ++ zooPathIocpThreadNum
  | .serverPort => zooPathBasePath ++ zooPathServerPort
  | .clientSocketTimeoutElapsed => zooPathBasePath ++ zooPathClientSocketTimeoutElapsed
  | .ctiTotalChannelCount => c.currentNodePath ++ zooPathTotalChannelNumber
  | .ctiSetIdolChannelNumElapsed => zooPathBasePath ++ zooPathCtiSetIdolChannelNumElapsed
  | .ctiTimeoutElapsed => zooPathBasePath ++ zooPathCitTimeoutElapsed
  | .ctiWarningElapsed => zooPathBasePath ++ zooPathCtiWarningElapsed
  | .ctiSleepingElapsed => zooPathBasePath ++ zooPathCtiSleepingElapsed

def flush (w : WordSize) (z : Store) : Setting → Routine ConfigServer StoiError Bool
  | .iocpThreadNumber => flushIocpThreadNumber w z
  | .serverPort => flushServerPort w z
  | .clientSocketTimeoutElapsed => flushClientSocketTimeoutElapsed w z
  | .ctiTotalChannelCount => flushCtiTotalChannelCount w z
  | .ctiSetIdolChannelNumElapsed => flushCtiSetIdolChannelNumElapsed w z
  | .ctiTimeoutElapsed => flushCtiTimeoutElapsed w z
  | .ctiWarningElapsed => flushCtiWarningElapsed w z
  | .ctiSleepingElapsed => flushCtiSleepingElapsed w z

/-- What the getter returns, as an integer. -/
def get (c : ConfigServer) : Setting → Int
  | .iocpThreadNumber => c.getIocpThreadNumber
  | .serverPort => c.getServerPort
  | .clientSocketTimeoutElapsed => c.getClientSocketTimeoutElapsed
  | .ctiTotalChannelCount => c.getCtiTotalChannelCount
  | .ctiSetIdolChannelNumElapsed => c.getCtiSetIdolChannelNumElapsed
  | .ctiTimeoutElapsed => c.getCtiTimeoutElapsed
  | .ctiWarningElapsed => c.getCtiWarningElapsed
  | .ctiSleepingElapsed => c.getCtiSleepingElapsed

/-- What the documentation of the getter says it returns on failure. -/
def failureValue : Setting → Option Int
  | .iocpThreadNumber => some 0
  | .serverPort => some 0
  | .clientSocketTimeoutElapsed => some (-1)
  | .ctiTotalChannelCount => some 0
  | .ctiSetIdolChannelNumElapsed => none
  | .ctiTimeoutElapsed => some (-1)
  | .ctiWarningElapsed => some (-1)
  | .ctiSleepingElapsed => some (-1)

/-- The field of the setting is set to `n`. -/
def put (c : ConfigServer) (n : Nat) : Setting → ConfigServer
  | .iocpThreadNumber => { c with iocpThreadNumber := n }
  | .serverPort => { c with serverPort := n }
  | .clientSocketTimeoutElapsed => { c with clientSocketTimeoutElapsed := n }
  | .ctiTotalChannelCount => { c with ctiTotalChannelCount := n }
  | .ctiSetIdolChannelNumElapsed => { c with citSetIdolChannelElpesed := n }
  | .ctiTimeoutElapsed => { c with ctiTimeoutElapse := n }
  | .ctiWarningElapsed => { c with ctiWarningElapse := n }
  | .ctiSleepingElapsed => { c with ctiSleepingElapse := n }

end Setting

/-! ## What a refresh does -/

variable {w : WordSize} {z : Store} {c : ConfigServer}

theorem exec_stoi {s : Bytes} {r : Except StoiError Int} (h : stoi s = r) :
    (Routine.ofExcept (stoi s) : Routine ConfigServer StoiError Int).exec c = (r, c) := by
  rw [Routine.exec_ofExcept, h]

section
variable {path : Bytes} {set : ConfigServer → Nat → ConfigServer}

theorem ConfigServer.exec_flush_nil (h : zkGetData z path = []) :
    (ConfigServer.flush w z path set).exec c = (.ok false, set c 0) := by
  rw [ConfigServer.flush, if_pos h]
  rfl

theorem ConfigServer.exec_flush_ok (hne : zkGetData z path ≠ []) {n : Int}
    (h : stoi (zkGetData z path) = .ok n) :
    (ConfigServer.flush w z path set).exec c = (.ok true, set c (toUnsigned w.bits n)) := by
  rw [ConfigServer.flush, if_neg hne, Routine.exec_bind_ok (exec_stoi h)]
  rfl

theorem ConfigServer.exec_flush_error (hne : zkGetData z path ≠ []) {e : StoiError}
    (h : stoi (zkGetData z path) = .error e) :
    (ConfigServer.flush w z path set).exec c = (.error e, c) := by
  rw [ConfigServer.flush, if_neg hne, Routine.exec_bind_error (exec_stoi h)]

end

namespace Setting

open ConfigServer

/-- Every refresh is `flush` for its own path and field; that of the client
timeout says `false` where `flush` says `true`. -/
theorem exec_flush (k : Setting) : (k.flush w z).exec c
    = match (ConfigServer.flush w z (k.path c) fun c n => k.put c n).exec c with
      | (.ok b, c') => (.ok (b && k != .clientSocketTimeoutElapsed), c')
      | (.error e, c') => (.error e, c') := by
  have hsame : ∀ m : Routine ConfigServer StoiError Bool, m.exec c = match m.exec c with
      | (.ok b, c') => (.ok (b && true), c')
      | (.error e, c') => (.error e, c') := by
    intro m
    rcases m.exec c with ⟨_ | b, c'⟩
    · rfl
    · simp only [Bool.and_true]
  cases k with
  | clientSocketTimeoutElapsed =>
    rw [path, Setting.flush, flushClientSocketTimeoutElapsed]
    by_cases hnil : zkGetData z (zooPathBasePath ++ zooPathClientSocketTimeoutElapsed) = []
    · rw [ConfigServer.exec_flush_nil hnil, if_pos hnil]
      rfl
    · rw [if_neg hnil]
      cases hs : stoi (zkGetData z (zooPathBasePath ++ zooPathClientSocketTimeoutElapsed)) with
      | error e =>
        rw [ConfigServer.exec_flush_error hnil hs, Routine.exec_bind_error (Routine.exec_ofExcept _ c)]
      | ok n =>
        rw [ConfigServer.exec_flush_ok hnil hs, Routine.exec_bind_ok (Routine.exec_ofExcept _ c)]
        rfl
  | ctiTotalChannelCount =>
    rw [Setting.flush, flushCtiTotalChannelCount, Routine.exec_bind_ok (Routine.exec_get c)]
    exact hsame _
  | _ => exact hsame _

/-- Nothing is fetched: a zero is kept. -/
theorem exec_flush_nil (k : Setting) (h : zkGetData z (k.path c) = []) :
    (k.flush w z).exec c = (.ok false, k.put c 0) := by
  rw [exec_flush, ConfigServer.exec_flush_nil h]
  rfl

/-- A number is read: it is kept, and only the client timeout does not say so. -/
theorem exec_flush_ok (k : Setting) (hne : zkGetData z (k.path c) ≠ []) {n : Int}
    (h : stoi (zkGetData z (k.path c)) = .ok n) :
    (k.flush w z).exec c
      = (.ok (k != .clientSocketTimeoutElapsed), k.put c (toUnsigned w.bits n)) := by
  rw [exec_flush, ConfigServer.exec_flush_ok hne h]
  rfl

/-- No number is read: the exception leaves the refresh. -/
theorem exec_flush_error (k : Setting) (hne : zkGetData z (k.path c) ≠ []) {e : StoiError}
    (h : stoi (zkGetData z (k.path c)) = .error e) : (k.flush w z).exec c = (.error e, c) := by
  rw [exec_flush, ConfigServer.exec_flush_error hne h]

/-- Whether the getter returns a `size_t`. -/
def unsigned : Setting → Bool
  | .iocpThreadNumber => true
  | .serverPort => true
  | .ctiTotalChannelCount => true
  | _ => false

theorem get_put (k : Setting) (n : Nat) :
    k.get (k.put c n) = if k.unsigned then (n : Int) else toSigned 32 n := by
  cases k <;> simp only [get, put, unsigned, getIocpThreadNumber, getServerPort,
    getClientSocketTimeoutElapsed, getCtiTotalChannelCount, getCtiSetIdolChannelNumElapsed,
    getCtiTimeoutElapsed, getCtiWarningElapsed, getCtiSleepingElapsed, if_true, if_false,
    Bool.false_eq_true]

/-! ## Does it tell the truth? -/

/-- The refresh of setting `k` lets no exception escape; it returns `true`
exactly if a decimal integer that fits an `int` was fetched, and then the getter
returns it; otherwise the getter returns the value documented for a failure. -/
def TellsTruth (w : WordSize) (z : Store) (c : ConfigServer) (k : Setting) : Prop :=
  ∃ b c', (k.flush w z).exec c = (.ok b, c') ∧
    (b = true ↔ ∃ n, decimalInt (zkGetData z (k.path c)) = some n) ∧
    (∀ n, decimalInt (zkGetData z (k.path c)) = some n → k.get c' = n) ∧
    (decimalInt (zkGetData z (k.path c)) = none → ∀ v, k.failureValue = some v → k.get c' = v)

/-- The strings for which the refresh of setting `k` tells the truth. -/
def Truthful (s : Bytes) : Setting → Prop
  | .iocpThreadNumber => s = [] ∨ ∃ n, decimalInt s = some n ∧ 0 ≤ n
  | .serverPort => s = [] ∨ ∃ n, decimalInt s = some n ∧ 0 ≤ n
  | .ctiTotalChannelCount => s = [] ∨ ∃ n, decimalInt s = some n ∧ 0 ≤ n
  | .ctiSetIdolChannelNumElapsed => s = [] ∨ ∃ n, decimalInt s = some n
  | .ctiTimeoutElapsed => ∃ n, decimalInt s = some n
  | .ctiWarningElapsed => ∃ n, decimalInt s = some n
  | .ctiSleepingElapsed => ∃ n, decimalInt s = some n
  -- it says `false`, and `-1` is what it happens to read
  | .clientSocketTimeoutElapsed => decimalInt s = none ∧ stoi s = .ok (-1)

/-- What the getter returns once the number `n` has been kept. -/
theorem get_put_int (k : Setting) {n : Int} (hf : Fits 32 n) :
    k.get (k.put c (toUnsigned w.bits n))
      = if k.unsigned then (toUnsigned w.bits n : Int) else n := by
  rw [get_put, toSigned_toUnsigned_of_fits w.int_le_bits hf]

/-- A `size_t` getter returns a number that is not negative, and no other. -/
theorem get_put_int_eq (k : Setting) {n : Int} (hf : Fits 32 n) :
    k.get (k.put c (toUnsigned w.bits n)) = n ↔ (k.unsigned = true → 0 ≤ n) := by
  rw [get_put_int k hf]
  cases hu : k.unsigned with
  | false => simp only [Bool.false_eq_true, if_false, false_implies]
  | true =>
    simp only [if_true, true_implies]
    refine ⟨fun h => by omega, fun h => toUnsigned_of_lt h ?_⟩
    have hw := w.int_le_two_pow
    unfold Fits at hf
    omega

/-- What is kept for a failure reads as zero. -/
theorem get_put_zero (k : Setting) : k.get (k.put c 0) = 0 := by
  rw [get_put]
  split <;> rfl

/-! ## When it does -/

theorem tellsTruth_nil (k : Setting) (h : zkGetData z (k.path c) = []) :
    k.TellsTruth w z c ↔ ∀ v, k.failureValue = some v → v = 0 := by
  have hd : decimalInt (zkGetData z (k.path c)) = none := by rw [h, decimalInt_nil]
  constructor
  · rintro ⟨b, c', he, -, -, hv⟩ v hk
    rw [exec_flush_nil k h] at he
    cases he
    rw [← hv hd v hk, get_put_zero]
  · intro hv
    refine ⟨false, k.put c 0, exec_flush_nil k h, ?_, ?_, ?_⟩
    · rw [hd]
      exact ⟨fun hf => (Bool.false_ne_true hf).elim, fun ⟨n, hn⟩ => nomatch hn⟩
    · rw [hd]
      exact fun n hn => nomatch hn
    · intro _ v hk
      rw [get_put_zero, hv v hk]

theorem not_tellsTruth_of_error (k : Setting) (hne : zkGetData z (k.path c) ≠ []) {e : StoiError}
    (h : stoi (zkGetData z (k.path c)) = .error e) : ¬k.TellsTruth w z c := by
  rintro ⟨b, c', he, -⟩
  rw [exec_flush_error k hne h] at he
  cases he

/-- A decimal integer is fetched. -/
theorem tellsTruth_decimal (k : Setting) {n : Int}
    (h : decimalInt (zkGetData z (k.path c)) = some n) :
    k.TellsTruth w z c ↔ k ≠ .clientSocketTimeoutElapsed ∧ (k.unsigned = true → 0 ≤ n) := by
  have hs := stoi_of_decimalInt h
  have hne : zkGetData z (k.path c) ≠ [] := by
    intro hnil
    rw [hnil, decimalInt_nil] at h
    cases h
  have hget := get_put_int_eq (c := c) (w := w) k (fits_of_stoi hs)
  constructor
  · rintro ⟨b, c', he, hb, hv, -⟩
    rw [exec_flush_ok k hne hs] at he
    cases he
    exact ⟨bne_iff_ne.mp (hb.mpr ⟨n, h⟩), hget.mp (hv n h)⟩
  · rintro ⟨hk, hu⟩
    refine ⟨_, _, exec_flush_ok k hne hs, ?_, ?_, ?_⟩
    · exact ⟨fun _ => ⟨n, h⟩, fun _ => bne_iff_ne.mpr hk⟩
    · intro m hm
      rw [h] at hm
      cases hm
      exact hget.mpr hu
    · rw [h]
      exact fun hn => nomatch hn

/-- A string is fetched that is no decimal integer, and yet a number is read. -/
theorem tellsTruth_number (k : Setting) (hne : zkGetData z (k.path c) ≠ [])
    (h : decimalInt (zkGetData z (k.path c)) = none) {n : Int}
    (hs : stoi (zkGetData z (k.path c)) = .ok n) :
    k.TellsTruth w z c ↔ k = .clientSocketTimeoutElapsed ∧ n = -1 := by
  constructor
  · rintro ⟨b, c', he, hb, -, hv⟩
    rw [exec_flush_ok k hne hs] at he
    cases he
    have hk : k = .clientSocketTimeoutElapsed := by
      by_contra hk
      obtain ⟨m, hm⟩ := hb.mp (bne_iff_ne.mpr hk)
      rw [h] at hm
      cases hm
    subst hk
    refine ⟨rfl, ?_⟩
    rw [← hv h (-1) rfl, get_put_int _ (fits_of_stoi hs)]
    rfl
  · rintro ⟨rfl, rfl⟩
    refine ⟨_, _, exec_flush_ok _ hne hs, ?_, ?_, ?_⟩
    · rw [h]
      exact ⟨fun hf => (Bool.false_ne_true hf).elim, fun ⟨n, hn⟩ => nomatch hn⟩
    · rw [h]
      exact fun n hn => nomatch hn
    · intro _ v hv
      cases hv
      rw [get_put_int _ (fits_of_stoi hs)]
      rfl

/-- **A refresh tells the truth for exactly these strings**: a decimal integer,
which must not be negative where the getter returns a `size_t`; nothing at all,
where the failure is documented as zero or not at all; and for the client timeout
only a string that is no decimal integer and begins with one that is `-1`. -/
theorem tellsTruth_iff (w : WordSize) (z : Store) (c : ConfigServer) (k : Setting) :
    k.TellsTruth w z c ↔ k.Truthful (zkGetData z (k.path c)) := by
  by_cases hnil : zkGetData z (k.path c) = []
  · rw [tellsTruth_nil k hnil, hnil]
    cases k <;> simp [failureValue, Truthful, decimalInt_nil, stoi_nil]
  · cases hd : decimalInt (zkGetData z (k.path c)) with
    | some n =>
      rw [tellsTruth_decimal k hd]
      cases k <;> simp [unsigned, Truthful, hd, hnil]
    | none =>
      cases hs : stoi (zkGetData z (k.path c)) with
      | error e =>
        refine iff_of_false (not_tellsTruth_of_error k hnil hs) ?_
        cases k <;> simp [Truthful, hd, hs, hnil]
      | ok n =>
        rw [tellsTruth_number k hnil hd hs]
        cases k <;> simp [Truthful, hd, hs, hnil]

/-- A timeout of thirty seconds is stored, and the refresh says it got none. -/
theorem tellsTruth_fails :
    ∃ (z : Store) (c : ConfigServer),
      decimalInt (zkGetData z (path c .clientSocketTimeoutElapsed)) = some 30000 ∧
      (∃ c', (flush .w64 z .clientSocketTimeoutElapsed).exec c = (.ok false, c')) ∧
      ¬TellsTruth .w64 z c .clientSocketTimeoutElapsed := by
  have hd : decimalInt (ascii "30000") = some 30000 := by decide
  let c : ConfigServer := ⟨ascii "/auth/127.0.0.1", 0, 0, 0, 0, 0, 0, 0, 0⟩
  have hz := zkGetData_only (path c .clientSocketTimeoutElapsed) (ascii "30000")
  have hne : ascii "30000" ≠ [] := by decide
  refine ⟨Store.only (path c .clientSocketTimeoutElapsed) (ascii "30000"), c, by rw [hz, hd],
    ⟨_, exec_flush_ok _ (by rw [hz]; exact hne) (stoi_of_decimalInt (by rw [hz, hd]))⟩, ?_⟩
  rw [tellsTruth_decimal _ (by rw [hz, hd])]
  exact fun h => h.1 rfl

end Setting

end CiaServer.Tools
