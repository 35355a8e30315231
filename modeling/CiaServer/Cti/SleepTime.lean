import CiaServer.Cti.Steps
import CiaServer.Tools.ConfigServer

/-!
# How long a delayed hang-up sleeps

The setting is read as an `int`, kept as a `size_t`, handed out as an `int` and
kept as a `size_t` again. `deal_hungup_strategy` subtracts the age of the call
from it, which wraps around for every call older than the setting, and narrows
the difference to `int`, which undoes that: what is left is the difference of
the two integers as long as it is an `int` (`sleepingTime_eq`).

Mirroring notes:
- `wall` is `m_callTime.elapsed().wall`, nanoseconds in a signed 64-bit integer.
- `sleepingElapse` in the thread's step takes the milliseconds of the model's
  clock; `sleepingTime_eq_sleepingElapse` is the connection.
-/

namespace CiaServer.Cti

open Machine Tools

/-- `elpased`. -/
def elpased (wall : Int) : Int := toSigned 32 (wall.tdiv 1000000)

/-- The settings as the constructor of `voice_card_control` reads them. -/
def Config.ofConfigServer (w : WordSize) (c : ConfigServer) (useStrategy : Bool) : Config :=
  { numChannelCount := c.getCtiTotalChannelCount
    timeoutElapse := toUnsigned w.bits c.getCtiTimeoutElapsed
    useStrategy
    ctiWarningElapse := toUnsigned w.bits c.getCtiWarningElapsed
    ctiSleepingElapse := toUnsigned w.bits c.getCtiSleepingElapsed }

/-- `int sleeping_elapse = m_cti_sleeping_elapse - t->elpased()`. -/
def sleepingTime (w : WordSize) (cfg : Config) (wall : Int) : Int :=
  toSigned 32 (toUnsigned w.bits (cfg.ctiSleepingElapse - toUnsigned w.bits (elpased wall)))

/-- The milliseconds the thread sleeps for such a `sleeping_elapse`. -/
def sleepFor (sleeping : Int) : Nat := if 0 < sleeping then sleeping.toNat else 0

/-! ## The setting -/

variable {w : WordSize}

/-- The setting comes out of `config_server` as it was read, and the constructor
makes a `size_t` of it. -/
theorem ctiSleepingElapse_ofConfigServer {z : Store} {c : ConfigServer} {S : Int}
    (h : stoi (zkGetData z (Setting.path c .ctiSleepingElapsed)) = .ok S) (useStrategy : Bool) :
    (Config.ofConfigServer w ((ConfigServer.flushCtiSleepingElapsed w z).exec c).2
      useStrategy).ctiSleepingElapse = toUnsigned w.bits S := by
  have hne : zkGetData z (Setting.path c .ctiSleepingElapsed) ≠ [] := by
    intro hnil
    rw [hnil, stoi_nil] at h
    cases h
  have hexec := Setting.exec_flush_ok (w := w) (c := c) .ctiSleepingElapsed hne h
  have hget := Setting.get_put_int (w := w) (c := c) .ctiSleepingElapsed (fits_of_stoi h)
  have hu : Setting.unsigned .ctiSleepingElapsed = false := rfl
  rw [Setting.get, hu, if_neg Bool.false_ne_true] at hget
  rw [Setting.flush] at hexec
  rw [hexec, Config.ofConfigServer, hget]

/-! ## The difference -/

/-- The age of a call is an `int` for 24 days. -/
theorem elpased_eq {wall : Int} (h₀ : 0 ≤ wall) (h : wall / 1000000 < 2 ^ 31) :
    elpased wall = wall / 1000000 := by
  rw [elpased, Int.tdiv_eq_ediv_of_nonneg h₀]
  have h₁ : 0 ≤ wall / 1000000 := by omega
  exact toSigned_of_fits ⟨by omega, by omega⟩

/-- What the thread's step computes from the model's clock. -/
theorem sleepingTime_eq_sleepingElapse (cfg : Config) (wall : Nat) :
    sleepingTime w cfg wall = sleepingElapse w.bits cfg.ctiSleepingElapse (wall / 1000000) := by
  have hpos : (0 : Int) < 2 ^ w.bits := Int.pow_pos (by decide)
  rw [sleepingTime, toUnsigned_sub_toUnsigned, toUnsigned,
    Int.toNat_of_nonneg (Int.emod_nonneg _ (by omega))]
  rfl

/-- Two integers of 31 bits are subtracted without loss. -/
theorem sleepingTime_of_lt {cfg : Config} {S wall : Int}
    (hcfg : cfg.ctiSleepingElapse = toUnsigned w.bits S) (hS : 0 ≤ S) (hS' : S < 2 ^ 31)
    (h₀ : 0 ≤ wall) (h : wall / 1000000 < 2 ^ 31) :
    sleepingTime w cfg wall = S - wall / 1000000 := by
  have hw := w.int_le_two_pow
  have he : 0 ≤ wall / 1000000 := by omega
  rw [sleepingTime, toSigned_toUnsigned w.int_le_bits, hcfg, elpased_eq h₀ h,
    toUnsigned_of_lt hS (by omega), toUnsigned_of_lt he (by omega)]
  exact toSigned_of_fits ⟨by omega, by omega⟩

theorem sleepingElapse_of_lt (w : WordSize) {cfg : Config} {S : Int} {e : Nat}
    (hcfg : cfg.ctiSleepingElapse = toUnsigned w.bits S) (hS : 0 ≤ S) (hS' : S < 2 ^ 31)
    (he : e < 2 ^ 31) : sleepingElapse w.bits cfg.ctiSleepingElapse e = S - e := by
  have hwall : e * 1000000 / 1000000 = e := Nat.mul_div_cancel e (by decide)
  have hsub : sleepingTime w cfg ((e * 1000000 : Nat) : Int)
      = S - ((e * 1000000 : Nat) : Int) / 1000000 :=
    sleepingTime_of_lt hcfg hS hS' (by omega) (by omega)
  rw [sleepingTime_eq_sleepingElapse, hwall] at hsub
  rw [hsub]
  omega

theorem sleepFor_eq (sleeping : Int) : (sleepFor sleeping : Int) = max 0 sleeping := by
  rw [sleepFor]
  split <;> omega

/-- **A delayed hang-up sleeps what is left of the setting.** -/
theorem sleepingTime_eq (w : WordSize) (z : Store) (c : ConfigServer) (useStrategy : Bool)
    (S wall : Int) (h : stoi (zkGetData z (Setting.path c .ctiSleepingElapsed)) = .ok S)
    (hS : 0 ≤ S) (h₀ : 0 ≤ wall) (he : wall / 1000000 < 2 ^ 31) :
    let cfg := Config.ofConfigServer w ((ConfigServer.flushCtiSleepingElapsed w z).exec c).2
      useStrategy
    sleepingTime w cfg wall = S - wall / 1000000 ∧
      (sleepFor (sleepingTime w cfg wall) : Int) = max 0 (S - wall / 1000000) ∧
      (sleepFor (sleepingTime w cfg wall) : Int) ≤ S := by
  intro cfg
  have hfits := fits_of_stoi h
  have hsub : sleepingTime w cfg wall = S - wall / 1000000 :=
    sleepingTime_of_lt (ctiSleepingElapse_ofConfigServer h useStrategy) hS
      (by unfold Fits at hfits; omega) h₀ he
  refine ⟨hsub, ?_, ?_⟩
  · rw [sleepFor_eq, hsub]
  · rw [sleepFor_eq, hsub]
    omega

/-- Five seconds are stored, and the call is four seconds old, or seven, where the unsigned
difference wraps around. -/
theorem sleepingTime_fiveSeconds :
    let path := Setting.path ⟨[], 0, 0, 0, 0, 0, 0, 0, 0⟩ .ctiSleepingElapsed
    let cfg := Config.ofConfigServer .w64 ((ConfigServer.flushCtiSleepingElapsed .w64
      (Store.only path (ascii "5000"))).exec ⟨[], 0, 0, 0, 0, 0, 0, 0, 0⟩).2 true
    sleepingTime .w64 cfg 4000000000 = 1000 ∧ sleepingTime .w64 cfg 7000000000 = -2000 ∧
      sleepFor (sleepingTime .w64 cfg 7000000000) = 0 := by
  intro path cfg
  have hstored : stoi (zkGetData (Store.only path (ascii "5000"))
      (Setting.path ⟨[], 0, 0, 0, 0, 0, 0, 0, 0⟩ .ctiSleepingElapsed)) = .ok 5000 := by
    rw [zkGetData_only]
    decide
  have hfour := sleepingTime_eq .w64 _ _ true 5000 4000000000 hstored (by decide) (by decide)
    (by decide)
  have hseven := sleepingTime_eq .w64 _ _ true 5000 7000000000 hstored (by decide) (by decide)
    (by decide)
  refine ⟨hfour.1, hseven.1, ?_⟩
  have hsleep : (sleepFor (sleepingTime .w64 cfg 7000000000) : Int)
      = max 0 (5000 - 7000000000 / 1000000) := hseven.2.1
  omega

/-! ## The thread -/

/-- The thread of a call that is `e` milliseconds old wakes when what is left of
the setting has passed, and at once when nothing is. -/
theorem StrategyStep.wakes {cfg : Config} {sh sh' : Shared} {c : Nat} {t : Trunk} {pc : Pc} {S : Int}
    (hcfg : cfg.ctiSleepingElapse = toUnsigned 64 S) (hS : 0 ≤ S) (hS' : S < 2 ^ 31)
    (ht : sh.trunkVector[c]? = some t) (he : t.elapsed sh.now < 2 ^ 31)
    (h : StrategyStep cfg sh (.sleep c) sh' pc) :
    ∃ till, pc = .strategy (.wake c till) ∧
      (till : Int) = sh.now + max 0 (S - t.elapsed sh.now) := by
  cases h with
  | slept ht' =>
    rw [ht] at ht'
    cases ht'
    refine ⟨_, rfl, ?_⟩
    have hleft := sleepingElapse_of_lt .w64 hcfg hS hS' he
    change sleepingElapse 64 _ _ = _ at hleft
    rw [hleft]
    omega

end CiaServer.Cti
