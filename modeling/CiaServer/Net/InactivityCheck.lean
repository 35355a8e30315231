import CiaServer.Machine.Integers
import CiaServer.Net.Session

/-!
# What the inactivity check compares (`cia_client::do_timeout_check`)

`(now - m_update_time).total_milliseconds()` is a signed number of 64 bits, and
`m_timeout_elapsed` a `size_t`. Where `size_t` has 64 bits, both are compared
as unsigned numbers: a clock that has been set back by a millisecond makes the
difference larger than every timeout, and every client is stopped
(`comparesIntegers_fails`).

`comparesIntegers_iff`: the check compares the integers exactly if `size_t` has
32 bits or the clock was not set back so far. On a clock that is never set back
it is the check of `Session` (`exec_onTimer`).

Mirroring notes:
- A `ptime` is the count of microseconds it is stored as, from the beginning of
  the Julian days to the end of the year 9999; special values do not come out of
  `local_time()`.
- `total_milliseconds` divides towards zero.
-/

namespace CiaServer.Net

open Machine

/-- A point in time, in microseconds. -/
abbrev Ptime := {t : Nat // t < 5373485 * 86400000000}

/-- Where the count begins. -/
def Ptime.zero : Ptime := ⟨0, by decide⟩

/-- `(now - updateTime).total_milliseconds()`. -/
def Ptime.totalMilliseconds (now updateTime : Ptime) : Int :=
  ((now.1 : Int) - updateTime.1).tdiv 1000

/-- What the check does to the client. -/
inductive CheckResult where
  | stop
  | heartRequest
  | nothing
  deriving DecidableEq, Repr

/-- The two comparisons of `do_timeout_check`. -/
def inactivityCheck (w : WordSize) (now updateTime : Ptime) (timeoutElapsed : Nat) : CheckResult :=
  if exceeds w (now.totalMilliseconds updateTime) timeoutElapsed then .stop
  else if exceeds w (now.totalMilliseconds updateTime) (timeoutElapsed / 2) then .heartRequest
  else .nothing

/-- With the timeout `E` that `config_server` delivers, the check does what the
signed difference in milliseconds says. -/
def ComparesIntegers (w : WordSize) (now updateTime : Ptime) (E : Int) : Prop :=
  (inactivityCheck w now updateTime (toUnsigned w.bits E) = .stop
    ↔ E < now.totalMilliseconds updateTime) ∧
  (inactivityCheck w now updateTime (toUnsigned w.bits E) = .heartRequest
    ↔ E / 2 < now.totalMilliseconds updateTime ∧ now.totalMilliseconds updateTime ≤ E)

/-! ## The difference -/

/-- No difference of two points in time leaves the 64 bits. -/
theorem Ptime.fits_totalMilliseconds (now updateTime : Ptime) :
    Fits 64 (now.totalMilliseconds updateTime) := by
  have h₁ := now.2
  have h₂ := updateTime.2
  have hone : Int.sign 1000 = 1 := rfl
  rw [Fits, Ptime.totalMilliseconds, Int.tdiv_eq_ediv, hone]
  split <;> omega

theorem Ptime.totalMilliseconds_of_le {now updateTime : Ptime} (h : updateTime.1 ≤ now.1) :
    now.totalMilliseconds updateTime = ((now.1 - updateTime.1) / 1000 : Nat) := by
  have hsub : (now.1 : Int) - updateTime.1 = (now.1 - updateTime.1 : Nat) := by omega
  rw [Ptime.totalMilliseconds, hsub, Int.tdiv_eq_ediv_of_nonneg (Int.natCast_nonneg _)]
  rfl

/-- An `int` that is positive is the `size_t` it is converted to. -/
theorem toUnsigned_timeout (w : WordSize) {E : Int} (h₀ : 0 < E) (hE : Fits 32 E) :
    (toUnsigned w.bits E : Int) = E ∧ toUnsigned w.bits E < 2 ^ 31 := by
  have hw := w.int_le_two_pow
  unfold Fits at hE
  have hu : (toUnsigned w.bits E : Int) = E := toUnsigned_of_lt (by omega) (by omega)
  exact ⟨hu, by omega⟩

/-! ## The check -/

/-- The check, once both comparisons are those of integers. -/
theorem inactivityCheck_of_exceeds {w : WordSize} {now updateTime : Ptime} {n : Nat}
    (h : ∀ m : Nat, exceeds w (now.totalMilliseconds updateTime) m = true
      ↔ (m : Int) < now.totalMilliseconds updateTime) :
    inactivityCheck w now updateTime n
      = if (n : Int) < now.totalMilliseconds updateTime then .stop
        else if ((n / 2 : Nat) : Int) < now.totalMilliseconds updateTime then .heartRequest
        else .nothing := by
  unfold inactivityCheck
  simp only [h]

/-- A difference that counts as negative stops the client where `size_t` has 64
bits. -/
theorem inactivityCheck_of_neg {now updateTime : Ptime} {n : Nat}
    (h : now.totalMilliseconds updateTime < 0) (hn : n < 2 ^ 63) :
    inactivityCheck .w64 now updateTime n = .stop := by
  rw [inactivityCheck, if_pos]
  exact exceeds_w64_of_neg h (now.fits_totalMilliseconds updateTime) hn

/-- **The check compares integers exactly if `size_t` has 32 bits or the
difference is not negative.** -/
theorem comparesIntegers_iff (w : WordSize) (now updateTime : Ptime) {E : Int} (h₀ : 0 < E)
    (hE : Fits 32 E) : ComparesIntegers w now updateTime E ↔
      w = .w32 ∨ 0 ≤ now.totalMilliseconds updateTime := by
  obtain ⟨hu, hlt⟩ := toUnsigned_timeout w h₀ hE
  constructor
  · intro hc
    by_contra hno
    rw [not_or, Int.not_le] at hno
    obtain ⟨hw, hneg⟩ := hno
    have hw' : w = .w64 := by
      cases w with
      | w32 => exact absurd rfl hw
      | w64 => rfl
    subst hw'
    have hstop := hc.1.mp (inactivityCheck_of_neg hneg (by omega))
    omega
  · intro h
    have hint : ∀ m : Nat, exceeds w (now.totalMilliseconds updateTime) m = true
        ↔ (m : Int) < now.totalMilliseconds updateTime := by
      intro m
      rcases h with rfl | hpos
      · exact exceeds_w32 _ m
      · exact exceeds_of_nonneg w m hpos (now.fits_totalMilliseconds updateTime)
    have hcheck := inactivityCheck_of_exceeds (n := toUnsigned w.bits E) hint
    unfold ComparesIntegers
    rw [hcheck]
    generalize toUnsigned w.bits E = n at hu
    subst hu
    constructor
    · split
      · next hs => exact ⟨fun _ => hs, fun _ => rfl⟩
      · next hs =>
        refine ⟨fun he => ?_, fun hs' => absurd hs' hs⟩
        split at he <;> cases he
    · split
      · next hs => exact ⟨nofun, fun hh => absurd hs (Int.not_lt.mpr hh.2)⟩
      · next hs =>
        split
        · next hh => exact ⟨fun _ => ⟨by omega, Int.not_lt.mp hs⟩, fun _ => rfl⟩
        · next hh => exact ⟨nofun, fun h' => absurd h'.1 (by omega)⟩

/-- A timeout of a minute, a second after the last reception. -/
theorem comparesIntegers_second :
    ComparesIntegers .w64 ⟨1000000, by decide⟩ ⟨0, by decide⟩ 60000 ↔
      WordSize.w64 = .w32 ∨ 0 ≤ Ptime.totalMilliseconds ⟨1000000, by decide⟩ ⟨0, by decide⟩ :=
  comparesIntegers_iff .w64 ⟨1000000, by decide⟩ ⟨0, by decide⟩ (by decide) (by decide)

/-- **The check does not always compare integers**: the clock is set back by an
hour, and the client is stopped. -/
theorem comparesIntegers_fails : ¬∀ (w : WordSize) (now updateTime : Ptime) (E : Int), 0 < E →
    Fits 32 E → ComparesIntegers w now updateTime E := by
  intro h
  have hstop := (h .w64 ⟨0, by decide⟩ ⟨3600000000, by decide⟩ 60000 (by decide)
    (by decide)).1.mp (by decide)
  exact absurd hstop (by decide)

/-! ## The check of a session -/

namespace Session

/-- Where the timer's handler goes on, and what it does to the client. -/
def afterCheck (s : Shared) : CheckResult → Shared × Pc
  | .stop => (s.stop, .check)
  | .heartRequest => (s, .heart)
  | .nothing => (s, .check)

/-- On a clock that is never set back, the check of a session is this one. -/
theorem exec_onTimer (P : Protobuf) (o : Wire.ByteOrder) (w : WordSize) {s : Shared} (i : Nat)
    {now updateTime : Ptime} (hnow : now.1 = s.now) (hupdate : updateTime.1 = s.updateTime)
    (hle : s.updateTime ≤ s.now) :
    exec P o s i (.onTimer false) ()
      = some (afterCheck s (inactivityCheck w now updateTime s.timeoutElapsed)) := by
  have hms : now.totalMilliseconds updateTime = ((now.1 - updateTime.1) / 1000 : Nat) :=
    Ptime.totalMilliseconds_of_le (by rw [hnow, hupdate]; exact hle)
  have hint : ∀ m : Nat, exceeds w (now.totalMilliseconds updateTime) m = true
      ↔ (m : Int) < now.totalMilliseconds updateTime := by
    intro m
    exact exceeds_of_nonneg w m (by rw [hms]; exact Int.natCast_nonneg _)
      (now.fits_totalMilliseconds updateTime)
  rw [inactivityCheck_of_exceeds hint, hms, hnow, hupdate]
  simp only [Int.ofNat_lt]
  show (if s.timeoutElapsed < (s.now - s.updateTime) / 1000 then some (s.stop, Pc.check)
    else if s.timeoutElapsed / 2 < (s.now - s.updateTime) / 1000 then some (s, Pc.heart)
    else some (s, Pc.check)) = _
  by_cases hs : s.timeoutElapsed < (s.now - s.updateTime) / 1000
  · rw [if_pos hs, if_pos hs]
    rfl
  · rw [if_neg hs, if_neg hs]
    by_cases hh : s.timeoutElapsed / 2 < (s.now - s.updateTime) / 1000
    · rw [if_pos hh, if_pos hh]
      rfl
    · rw [if_neg hh, if_neg hh]
      rfl

end Session

end CiaServer.Net
