import Mathlib.Data.List.ReduceOption

/-!
# A queue of bounded length

A queue with room for `n` values. An offer is refused when it is full, and a poll finds nothing when it is
empty; neither waits. `accepted` is what some operations let in, and `polled` what the polls among them
find. `held` is what a reader has that keeps what it has when a poll finds nothing.

## What is proved

* `append_accepted` — what waited and what was let in is what the polls find and what waits then.
* `length_after_le` — no more than `n` values ever wait.
* `full_iff` — the queue is full when `n` more values were let in than polls have found.
-/

namespace BoundedQueue

variable {α : Type*}

/-- What is done to a queue. -/
inductive Op (α : Type*) where
  | offer (a : α)
  | poll

/-- One operation on a queue with room for `n` values. -/
def step (n : ℕ) (q : List α) : Op α → List α
  | .offer a => if q.length < n then q ++ [a] else q
  | .poll => q.tail

/-- The queue after some operations. -/
def after (n : ℕ) (q : List α) (ops : List (Op α)) : List α := ops.foldl (step n) q

/-- All values that are offered. -/
def offered : List (Op α) → List α
  | [] => []
  | .offer a :: ops => a :: offered ops
  | .poll :: ops => offered ops

/-- The values for which there is room. -/
def accepted (n : ℕ) : List α → List (Op α) → List α
  | _, [] => []
  | q, .offer a :: ops => (if q.length < n then [a] else []) ++ accepted n (step n q (.offer a)) ops
  | q, .poll :: ops => accepted n (step n q .poll) ops

/-- What the polls find. -/
def polled (n : ℕ) : List α → List (Op α) → List (Option α)
  | _, [] => []
  | q, .offer a :: ops => polled n (step n q (.offer a)) ops
  | q, .poll :: ops => q.head? :: polled n (step n q .poll) ops

/-- What a reader that had `a` has after each of some polls. -/
def held : α → List (Option α) → List α
  | _, [] => []
  | a, x :: xs => x.getD a :: held (x.getD a) xs

/-- What it has after all of them. -/
def kept (a : α) (xs : List (Option α)) : α := xs.foldl (fun a x => x.getD a) a

/-! ### One operation more -/

theorem after_append (n : ℕ) (q : List α) (ops ops' : List (Op α)) :
    after n q (ops ++ ops') = after n (after n q ops) ops' :=
  List.foldl_append

theorem offered_append (ops ops' : List (Op α)) : offered (ops ++ ops') = offered ops ++ offered ops' := by
  induction ops with
  | nil => rfl
  | cons op ops ih => cases op <;> simp [offered, ih]

theorem polled_append (n : ℕ) (q : List α) (ops ops' : List (Op α)) :
    polled n q (ops ++ ops') = polled n q ops ++ polled n (after n q ops) ops' := by
  induction ops generalizing q with
  | nil => rfl
  | cons op ops ih =>
    cases op with
    | offer a =>
      rw [List.cons_append, polled, polled, ih]
      rfl
    | poll =>
      rw [List.cons_append, polled, polled, ih]
      rfl

theorem held_concat (a : α) (xs : List (Option α)) (x : Option α) :
    held a (xs ++ [x]) = held a xs ++ [x.getD (kept a xs)] := by
  induction xs generalizing a with
  | nil => rfl
  | cons y ys ih =>
    rw [List.cons_append, held, held, ih]
    rfl

theorem kept_concat (a : α) (xs : List (Option α)) (x : Option α) : kept a (xs ++ [x]) = x.getD (kept a xs) :=
  List.foldl_concat _ _ _ _

/-! ### What goes in and what comes out -/

/-- **First in, first out**: nothing that was let in is lost, doubled or overtaken. -/
theorem append_accepted (n : ℕ) (q : List α) (ops : List (Op α)) :
    q ++ accepted n q ops = (polled n q ops).reduceOption ++ after n q ops := by
  induction ops generalizing q with
  | nil => simp [accepted, polled, after]
  | cons op ops ih =>
    have hnext := ih (step n q op)
    cases op with
    | offer a =>
      rw [accepted, polled, after, List.foldl_cons, ← List.append_assoc]
      by_cases hroom : q.length < n
      · rw [step, if_pos hroom] at hnext
        rw [if_pos hroom, step, if_pos hroom]
        exact hnext
      · rw [step, if_neg hroom] at hnext
        rw [if_neg hroom, step, if_neg hroom, List.append_nil]
        exact hnext
    | poll =>
      rw [accepted, polled, after, List.foldl_cons]
      cases q with
      | nil => exact hnext
      | cons b q =>
        rw [List.head?_cons, List.reduceOption_cons_of_some, List.cons_append, List.cons_append]
        exact congrArg _ hnext

theorem length_step_le {n : ℕ} {q : List α} (h : q.length ≤ n) (op : Op α) : (step n q op).length ≤ n := by
  cases op with
  | offer a =>
    rw [step]
    split_ifs with hroom
    · rw [List.length_append, List.length_singleton]
      exact hroom
    · exact h
  | poll =>
    rw [step, List.length_tail]
    omega

/-- **It never has more than it has room for.** -/
theorem length_after_le {n : ℕ} {q : List α} (h : q.length ≤ n) (ops : List (Op α)) : (after n q ops).length ≤ n := by
  induction ops generalizing q with
  | nil => exact h
  | cons op ops ih => exact ih (length_step_le h op)

/-- **When an offer is refused**: when polls have yet to find `n` of the values that were let in. -/
theorem full_iff (n : ℕ) (ops : List (Op α)) :
    ¬ (after n [] ops).length < n ↔
      (accepted n [] ops).length = (polled n [] ops).reduceOption.length + n := by
  have hle : (after n [] ops).length ≤ n := length_after_le (Nat.zero_le n) ops
  have hlength := congrArg List.length (append_accepted n [] ops)
  rw [List.nil_append, List.length_append] at hlength
  omega

end BoundedQueue
