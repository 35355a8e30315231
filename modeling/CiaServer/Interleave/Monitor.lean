import CiaServer.Interleave.Program

/-!
# Data behind one lock

Threads that work on common data only while they hold a lock. `holds` says of a
place in the code whether the thread there has the lock, and `K d l` what a
thread at `l` that has it knows of the data `d`. `MonitorInv`: the lock is held
by as many threads as it says, one or none, and what its holder knows is so.

`MonitorInv.step` is the rule for one step of a thread: taking the lock, working
under it, giving it back, or something else (`LockStep`). A step without the
lock leaves the data alone, so that nobody's knowledge is lost.
-/

namespace Interleave

variable {ℓ δ : Type} {holds : ℓ → Bool} {K : δ → ℓ → Prop} {locked locked' : Bool} {d d' : δ}
  {ts : List ℓ} {i : Nat} {l l' : ℓ}

/-- What a step has to do with the lock. -/
inductive LockStep (holds : ℓ → Bool) (locked : Bool) (l : ℓ) (locked' : Bool) (l' : ℓ) : Prop where
  | outside (hl : holds l = false) (hl' : holds l' = false) (h : locked' = locked)
  | acquire (hl : holds l = false) (hl' : holds l' = true) (h : locked = false)
    (h' : locked' = true)
  | inside (hl : holds l = true) (hl' : holds l' = true) (h : locked' = locked)
  | release (hl : holds l = true) (hl' : holds l' = false) (h' : locked' = false)

/-- The lock a thread holds. -/
def held (holds : ℓ → Bool) (l : ℓ) : Option Unit := if holds l then some () else none

theorem tok_held (holds : ℓ → Bool) (l : ℓ) : tok (held holds) () l = if holds l then 1 else 0 := by
  unfold tok held
  cases holds l <;> rfl

/-- The lock has one holder or none, and its holder knows the data. -/
structure MonitorInv (holds : ℓ → Bool) (K : δ → ℓ → Prop) (locked : Bool) (d : δ)
    (ts : List ℓ) : Prop where
  exclusive : tokens (held holds) () ts = if locked then 1 else 0
  knows : ∀ l ∈ ts, holds l = true → K d l

namespace MonitorInv

/-- A thread that has the lock has locked it. -/
theorem locked_of_holds (hi : MonitorInv holds K locked d ts) (hl : l ∈ ts)
    (hh : holds l = true) : locked = true := by
  have hone : 1 ≤ tokens (held holds) () ts := one_le_tokens hl (if_pos hh)
  rw [hi.exclusive] at hone
  cases locked with
  | true => rfl
  | false => exact absurd hone (by decide)

/-- A lock that is taken has a holder. -/
theorem exists_holder (hi : MonitorInv holds K locked d ts) (h : locked = true) :
    ∃ l ∈ ts, holds l = true := by
  have hpos : 0 < tokens (held holds) () ts := by
    rw [hi.exclusive, if_pos h]
    exact Nat.one_pos
  obtain ⟨l, hl, hh⟩ := exists_of_tokens_pos hpos
  refine ⟨l, hl, ?_⟩
  unfold held at hh
  split at hh
  · assumption
  · cases hh

/-- Nobody else has the lock. -/
theorem unique (hi : MonitorInv holds K locked d ts) {j : Nat} {m : ℓ} (hl : ts[i]? = some l)
    (hh : holds l = true) (hm : ts[j]? = some m) (hhm : holds m = true) : i = j := by
  refine holder_unique (f := held holds) (k := ()) ?_ hl (if_pos hh) hm (if_pos hhm)
  rw [hi.exclusive]
  split <;> omega

/-- Threads without the lock are started. -/
theorem append {new : List ℓ} (hi : MonitorInv holds K locked d ts)
    (hnew : ∀ l ∈ new, holds l = false) : MonitorInv holds K locked d (ts ++ new) := by
  refine ⟨?_, ?_⟩
  · have hzero : tokens (held holds) () new = 0 := tokens_eq_zero_iff.mpr fun l hl => by
      unfold held
      rw [hnew l hl]
      exact (Option.some_ne_none ()).symm
    rw [tokens_append, hzero]
    exact hi.exclusive
  · intro l hl hh
    rcases List.mem_append.mp hl with hl | hl
    · exact hi.knows l hl hh
    · rw [hnew l hl] at hh
      cases hh

/-- One step of one thread. -/
theorem step (hi : MonitorInv holds K locked d ts) (hl : ts[i]? = some l)
    (hs : LockStep holds locked l locked' l') (hd : holds l = false → d' = d)
    (hK : holds l' = true → K d' l') : MonitorInv holds K locked' d' (ts.set i l') := by
  refine ⟨?_, ?_⟩
  · have hset := tokens_set (held holds) () hl l'
    have hold := hi.exclusive
    rw [tok_held, tok_held] at hset
    cases hs with
    | outside h h' he =>
      rw [h, h'] at hset
      rw [he, ← hold]
      exact hset
    | acquire h h' he he' =>
      rw [h, h', if_pos rfl] at hset
      rw [he] at hold
      rw [he', if_pos rfl]
      change tokens (held holds) () (ts.set i l') + 0 = _ at hset
      change tokens (held holds) () ts = 0 at hold
      omega
    | inside h h' he =>
      rw [h, h'] at hset
      rw [he, ← hold]
      omega
    | release h h' he' =>
      have hone := hi.locked_of_holds (List.mem_of_getElem? hl) h
      rw [h, h', if_pos rfl] at hset
      rw [hone, if_pos rfl] at hold
      rw [he']
      change tokens (held holds) () (ts.set i l') = 0
      change _ = tokens (held holds) () ts + 0 at hset
      omega
  · intro m hm hh
    rcases mem_set_cases hl hm with rfl | ⟨j, hij, hj⟩
    · exact hK hh
    · -- the other one has the lock, so this step was made without it
      cases hhl : holds l with
      | true => exact absurd (hi.unique hl hhl hj hh) hij
      | false =>
        rw [hd hhl]
        exact hi.knows m (List.mem_of_getElem? hj) hh

end MonitorInv

end Interleave
