import CiaServer.Interleave.Linearizable

/-!
# The queue as a sequential object

`fifo` is what `put`, `take` and `size` mean one after the other. An empty queue
refuses a `take` or lets it wait, which is the difference between the two queues
of this project.

`puts_eq`: in any sequence of effects the values put are those taken, in the same
order, and then those still there: nothing is lost, taken twice or overtaken.
-/

namespace Interleave

variable {T : Type}

inductive QueueOp (T : Type) where
  | put (task : T)
  | take
  | size
  deriving DecidableEq, Repr

inductive QueueRes (T : Type) where
  | done
  | value (front : T)
  /-- The queue was empty. -/
  | refused
  | size (n : Nat)
  deriving DecidableEq, Repr

/-- A queue; `refuses` says what a `take` does when it is empty. -/
def fifo (refuses : Bool) (q : List T) : QueueOp T → Option (List T × QueueRes T)
  | .put task => some (q ++ [task], .done)
  | .take =>
    match q with
    | [] => if refuses then some ([], .refused) else none
    | front :: rest => some (rest, .value front)
  | .size => some (q, .size q.length)

/-- The value an effect puts. -/
def Effect.put? (e : Effect (QueueOp T) (QueueRes T)) : Option T :=
  match e.op with
  | .put task => some task
  | _ => none

/-- The value an effect takes. -/
def Effect.taken? (e : Effect (QueueOp T) (QueueRes T)) : Option T :=
  match e.res with
  | .value front => some front
  | _ => none

variable [DecidableEq T] {refuses : Bool}

/-- One effect: what is put comes in behind, what is taken goes out in front. -/
theorem fifo_step {q q' : List T} {e : Effect (QueueOp T) (QueueRes T)}
    (h : replayStep (fifo refuses) q e = some q') :
    q ++ e.put?.toList = e.taken?.toList ++ q' := by
  obtain ⟨i, op, res⟩ := e
  unfold replayStep at h
  cases op with
  | put task =>
    simp only [fifo] at h
    split at h
    · next hres =>
      cases h
      cases hres
      rfl
    · cases h
  | take =>
    cases q with
    | nil =>
      cases refuses with
      | true =>
        simp only [fifo, if_true] at h
        split at h
        · next hres =>
          cases h
          cases hres
          rfl
        · cases h
      | false => cases h
    | cons front rest =>
      simp only [fifo] at h
      split at h
      · next hres =>
        cases h
        cases hres
        exact List.append_nil _
      · cases h
  | size =>
    simp only [fifo] at h
    split at h
    · next hres =>
      cases h
      cases hres
      exact List.append_nil _
    · cases h

/-- **First in, first out**: what was there and what was put is what was taken and what
is there. -/
theorem puts_eq : ∀ {es : List (Effect (QueueOp T) (QueueRes T))} {q q' : List T},
    replay (fifo refuses) q es = some q' →
    q ++ es.filterMap Effect.put? = es.filterMap Effect.taken? ++ q'
  | [], q, q', h => by
    cases h
    exact List.append_nil _
  | e :: es, q, q', h => by
    obtain ⟨t, ht, hes⟩ := runs_cons.mp h
    have hput : (e :: es).filterMap Effect.put? = e.put?.toList ++ es.filterMap Effect.put? := by
      rw [List.filterMap_cons]
      cases e.put? <;> rfl
    have htaken : (e :: es).filterMap Effect.taken? =
        e.taken?.toList ++ es.filterMap Effect.taken? := by
      rw [List.filterMap_cons]
      cases e.taken? <;> rfl
    calc q ++ (e :: es).filterMap Effect.put?
        = (q ++ e.put?.toList) ++ es.filterMap Effect.put? := by rw [hput, List.append_assoc]
      _ = e.taken?.toList ++ (t ++ es.filterMap Effect.put?) := by
          rw [fifo_step ht, List.append_assoc]
      _ = e.taken?.toList ++ (es.filterMap Effect.taken? ++ q') := by rw [puts_eq hes]
      _ = (e :: es).filterMap Effect.taken? ++ q' := by rw [htaken, List.append_assoc]

end Interleave
