import Mathlib.Data.List.Basic

/-!
# Datagrams in flight

A channel for datagrams that may lose them, duplicate them, delay them and put them
in another order: the list of those in flight, and one thing that happens to one of
them at a time. A channel that only ever does `carry 0` delivers every datagram once
and in order.
-/

namespace Datagrams

variable {D : Type*}

/-- What happens to the `i`-th datagram in flight. -/
inductive Transit where
  /-- It arrives. -/
  | carry (i : ℕ)
  /-- It is lost. -/
  | lose (i : ℕ)
  /-- There are two of it. -/
  | duplicate (i : ℕ)
  deriving DecidableEq

/-- What arrives and what is then in flight, or `none` if there is no such datagram. -/
def Transit.apply (flight : List D) : Transit → Option (List D × List D)
  | .carry i => flight[i]?.map fun d => ([d], flight.eraseIdx i)
  | .lose i => flight[i]?.map fun _ => ([], flight.eraseIdx i)
  | .duplicate i => flight[i]?.map fun d => ([], flight ++ [d])

/-- A channel makes no datagrams: with none in flight nothing can happen. -/
theorem Transit.apply_nil (t : Transit) : t.apply ([] : List D) = none := by
  cases t <;> rfl

/-- The next datagram in order. -/
theorem Transit.carry_zero (d : D) (flight : List D) :
    (Transit.carry 0).apply (d :: flight) = some ([d], flight) := rfl

end Datagrams
