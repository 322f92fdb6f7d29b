import Inferno.Lib.Runs
import Mathlib.Data.Int.Notation
import Mathlib.Data.List.Basic
import Mathlib.Tactic.SplitIfs

/-!
# The children that have ended

`handle_sigchild`, which `LoginServer::start` installs before it forks its first child. A child that has ended
stays behind as a zombie until somebody waits for it, and the parent is sent a signal. But two signals are one if
the first has not been delivered yet, and none is delivered while the handler runs. So the handler waits for as many
children as there are, and a child that ends between its last `waitpid` and its return has to call it
once more.

A run is any order of the iterations of the service loop, the ends and the stops of its children, and the steps of the
handler. The loop does nothing while the handler runs, and an `accept` that it interrupts is begun
again (`SA_RESTART`).

## What is proved

* `children_reaped` — however the signals fall together, the handler comes to an end, and when it has nothing more to
  do, every child that has ended has been waited for, and no other; the service loop finds `errno` as it has left it.

## Scope

How a child ends is left out, and so is what an iteration of the loop does but for `fork`.
-/

namespace Inferno.Login

open Machine

/-- What has become of a child. -/
inductive Life where
  | running
  /-- It has ended, and nobody has waited for it. -/
  | zombie
  | reaped
  deriving DecidableEq, Repr

/-- Where `handle_sigchild` is. -/
inductive SigchildStage where
  /-- It has not been called. -/
  | idle
  /-- In its loop; `lastError` is the local variable. -/
  | reaping (lastError : ℤ)
  /-- Behind the loop. -/
  | leaving (lastError : ℤ)
  deriving DecidableEq, Repr

/-- The parent, its children, and whether a signal waits to be delivered. -/
structure Parent where
  children : List Life
  pending : Bool
  handler : SigchildStage
  errno : ℤ

/-- The handler has been installed, and nobody has been forked. -/
def Parent.start (errno : ℤ) : Parent := ⟨[], false, .idle, errno⟩

/-- `ECHILD`, which `waitpid` leaves in `errno` if there are no children. -/
def echild : ℤ := 10

/-- What happens next. -/
inductive ReapEvent where
  /-- An iteration of the service loop: what it leaves in `errno`, and whether `fork` makes a child. -/
  | iteration (errno : ℤ) (forked : Bool)
  /-- The `i`-th child ends. -/
  | ends (i : ℕ)
  /-- A child stops, or goes on, which sends the same signal. -/
  | stops
  /-- The signal is delivered: `last_error = errno`. -/
  | deliver
  /-- `waitpid` returns the `i`-th child. -/
  | reap (i : ℕ)
  /-- It returns `0` or `-1`. -/
  | giveUp
  /-- `errno = last_error`, and the handler returns. -/
  | resume
  deriving DecidableEq, Repr

/-- One event. -/
def Parent.step (s : Parent) : ReapEvent → Option Parent
  | .iteration errno forked =>
    match s.handler with
    | .idle => some { s with errno := errno, children := if forked then s.children ++ [.running] else s.children }
    | _ => none
  | .ends i =>
    if s.children[i]? = some .running then some { s with children := s.children.set i .zombie, pending := true }
    else none
  | .stops => some { s with pending := true }
  | .deliver =>
    match s.handler with
    | .idle => if s.pending then some { s with pending := false, handler := .reaping s.errno } else none
    | _ => none
  | .reap i =>
    match s.handler with
    | .reaping _ =>
      if s.children[i]? = some .zombie then some { s with children := s.children.set i .reaped } else none
    | _ => none
  | .giveUp =>
    match s.handler with
    | .reaping lastError =>
      if .zombie ∈ s.children then none
      else some { s with handler := .leaving lastError, errno := if .running ∈ s.children then s.errno else echild }
    | _ => none
  | .resume =>
    match s.handler with
    | .leaving lastError => some { s with handler := .idle, errno := lastError }
    | _ => none

/-- It is a step of the handler, or the delivery that calls it. -/
def ReapEvent.handles : ReapEvent → Bool
  | .deliver | .reap _ | .giveUp | .resume => true
  | _ => false

def ReapEvent.isEnd : ReapEvent → Bool
  | .ends _ => true
  | _ => false

/-- What the service loop has left in `errno`. -/
def errnoLeft (errno : ℤ) (as : List ReapEvent) : ℤ :=
  as.foldl (fun errno a => match a with | .iteration errno _ => errno | _ => errno) errno

theorem errnoLeft_append (errno : ℤ) (as : List ReapEvent) (a : ReapEvent) :
    errnoLeft errno (as ++ [a]) = match a with | .iteration errno _ => errno | _ => errnoLeft errno as := by
  rw [errnoLeft, List.foldl_append]
  rfl

/-! ### The handler -/

/-- The `errno` of the service loop: what the handler will leave there. -/
def Parent.ownErrno (s : Parent) : ℤ :=
  match s.handler with
  | .idle => s.errno
  | .reaping lastError | .leaving lastError => lastError

/-- How many steps of the handler there are still to come, at most. -/
def Parent.work (s : Parent) : ℕ :=
  (if s.pending then 3 else 0) + s.children.count .zombie +
    match s.handler with
    | .idle => 0
    | .reaping _ => 2
    | .leaving _ => 1

/-- **What can happen**: an iteration of the loop, a signal for a child that ends or stops, or a step of the handler. -/
theorem Parent.step_cases {s s' : Parent} {a : ReapEvent} (h : s.step a = some s') :
    (∃ errno forked, a = .iteration errno forked ∧ s.handler = .idle ∧
      s' = { s with errno := errno, children := if forked then s.children ++ [.running] else s.children }) ∨
    (∃ i, a = .ends i ∧ s.children[i]? = some .running ∧
      s' = { s with children := s.children.set i .zombie, pending := true }) ∨
    (a = .stops ∧ s' = { s with pending := true }) ∨
    (a = .deliver ∧ s.handler = .idle ∧ s.pending = true ∧
      s' = { s with pending := false, handler := .reaping s.errno }) ∨
    (∃ i lastError, a = .reap i ∧ s.handler = .reaping lastError ∧ s.children[i]? = some .zombie ∧
      s' = { s with children := s.children.set i .reaped }) ∨
    (∃ lastError errno, a = .giveUp ∧ s.handler = .reaping lastError ∧ .zombie ∉ s.children ∧
      s' = { s with handler := .leaving lastError, errno := errno }) ∨
    ∃ lastError, a = .resume ∧ s.handler = .leaving lastError ∧
      s' = { s with handler := .idle, errno := lastError } := by
  cases a with
  | iteration errno forked =>
    cases hhandler : s.handler <;> simp only [Parent.step, hhandler, reduceCtorEq] at h
    exact Or.inl ⟨errno, forked, rfl, rfl, by rw [← Option.some.inj h]⟩
  | ends i =>
    simp only [Parent.step] at h
    split_ifs at h with hrunning
    exact Or.inr (Or.inl ⟨i, rfl, hrunning, (Option.some.inj h).symm⟩)
  | stops => exact Or.inr (Or.inr (Or.inl ⟨rfl, (Option.some.inj h).symm⟩))
  | deliver =>
    cases hhandler : s.handler <;> simp only [Parent.step, hhandler, reduceCtorEq] at h
    split_ifs at h with hpending
    exact Or.inr (Or.inr (Or.inr (Or.inl ⟨rfl, rfl, hpending, (Option.some.inj h).symm⟩)))
  | reap i =>
    cases hhandler : s.handler <;> simp only [Parent.step, hhandler, reduceCtorEq] at h
    split_ifs at h with hzombie
    exact Or.inr (Or.inr (Or.inr (Or.inr (Or.inl ⟨i, _, rfl, rfl, hzombie, by rw [← Option.some.inj h]⟩))))
  | giveUp =>
    cases hhandler : s.handler <;> simp only [Parent.step, hhandler, reduceCtorEq] at h
    split_ifs at h with hzombie hrunning
    · exact Or.inr (Or.inr (Or.inr (Or.inr (Or.inr (Or.inl ⟨_, _, rfl, rfl, hzombie, (Option.some.inj h).symm⟩)))))
    · exact Or.inr (Or.inr (Or.inr (Or.inr (Or.inr (Or.inl ⟨_, _, rfl, rfl, hzombie, (Option.some.inj h).symm⟩)))))
  | resume =>
    cases hhandler : s.handler <;> simp only [Parent.step, hhandler, reduceCtorEq] at h
    exact Or.inr (Or.inr (Or.inr (Or.inr (Or.inr (Or.inr ⟨_, rfl, rfl, (Option.some.inj h).symm⟩)))))

/-- What is true of every run: a zombie is still to be noticed, the children who have ended are those that do not run,
the steps of the handler are paid for by the signals, and the handler has the `errno` of the service loop. -/
structure Parent.Sound (errno : ℤ) (as : List ReapEvent) (s : Parent) : Prop where
  noticed : .zombie ∈ s.children → s.pending = true ∨ ∃ lastError, s.handler = .reaping lastError
  ended : ∀ i, .ends i ∈ as ↔ s.children[i]? = some .zombie ∨ s.children[i]? = some .reaped
  paid : as.countP ReapEvent.handles + s.work ≤ 4 * as.countP ReapEvent.isEnd + 3 * as.count .stops
  own : s.ownErrno = errnoLeft errno as

theorem Parent.Sound.start (errno : ℤ) : (Parent.start errno).Sound errno [] := by
  refine ⟨by simp [Parent.start], by simp [Parent.start], by simp [Parent.start, Parent.work], rfl⟩

/-- A child that has just been forked has not ended. -/
theorem getElem?_forked {children : List Life} {forked : Bool} {i : ℕ} {l : Life} (hl : l ≠ .running) :
    (if forked then children ++ [.running] else children)[i]? = some l ↔ children[i]? = some l := by
  cases forked with
  | false => rfl
  | true =>
    rw [if_pos rfl, List.getElem?_append]
    split_ifs with hi
    · rfl
    · refine iff_of_false (fun h => hl ?_) fun h => hi (List.getElem?_eq_some_iff.mp h).1
      exact List.mem_singleton.mp (List.mem_of_getElem? h)

theorem count_forked {children : List Life} {forked : Bool} :
    (if forked then children ++ [.running] else children).count .zombie = children.count .zombie := by
  cases forked with
  | false => rfl
  | true =>
    rw [if_pos rfl, List.count_append]
    rfl

/-- One child goes on, and the others are as they were. -/
theorem getElem?_set_iff {children : List Life} {i j : ℕ} {l l' : Life} (hi : children[i]? = some l) :
    (children.set i l')[j]? = if j = i then some l' else children[j]? := by
  have hlt := (List.getElem?_eq_some_iff.mp hi).1
  rw [List.getElem?_set]
  by_cases hij : i = j
  · simp [hij, hij ▸ hlt]
  · rw [if_neg hij, if_neg (Ne.symm hij)]

/-- A child that ends is a zombie. -/
theorem count_ended {children : List Life} {i : ℕ} (h : children[i]? = some .running) :
    (children.set i .zombie).count .zombie = children.count .zombie + 1 := by
  obtain ⟨hlt, hi⟩ := List.getElem?_eq_some_iff.mp h
  rw [List.count_set hlt, hi]
  rfl

/-- A child that is waited for is none any more. -/
theorem count_reaped {children : List Life} {i : ℕ} (h : children[i]? = some .zombie) :
    (children.set i .reaped).count .zombie + 1 = children.count .zombie := by
  obtain ⟨hlt, hi⟩ := List.getElem?_eq_some_iff.mp h
  have hpos : 0 < children.count .zombie := List.count_pos_iff.mpr (List.mem_of_getElem? h)
  rw [List.count_set hlt, hi, beq_self_eq_true, if_pos rfl, if_neg (by decide)]
  omega

/-- **Every step keeps it.** -/
theorem Parent.Sound.step {errno : ℤ} {as : List ReapEvent} {a : ReapEvent} {s s' : Parent} (hs : s.Sound errno as)
    (h : s.step a = some s') : s'.Sound errno (as ++ [a]) := by
  have hpaid := hs.paid
  have hown := hs.own
  have hended : ∀ i, .ends i ∈ as ++ [a] ↔ .ends i ∈ as ∨ a = .ends i := by
    intro i
    rw [List.mem_append, List.mem_singleton, eq_comm (a := ReapEvent.ends i)]
  rcases step_cases h with ⟨left, forked, rfl, hidle, rfl⟩ | ⟨i, rfl, hi, rfl⟩ | ⟨rfl, rfl⟩ |
    ⟨rfl, hidle, hpending, rfl⟩ | ⟨i, lastError, rfl, hreaping, hi, rfl⟩ |
    ⟨lastError, left, rfl, hreaping, hnone, rfl⟩ | ⟨lastError, rfl, hleaving, rfl⟩
  · refine ⟨fun hzombie => ?_, fun i => ?_, ?_, ?_⟩
    · obtain ⟨i, hi⟩ := List.mem_iff_getElem?.mp hzombie
      have hbefore := hs.noticed (List.mem_of_getElem? ((getElem?_forked (by decide)).mp hi))
      simpa [hidle] using hbefore
    · rw [hended, hs.ended, getElem?_forked (by decide), getElem?_forked (by decide)]
      simp
    · simp only [Parent.work, count_forked, hidle] at hpaid ⊢
      simpa [ReapEvent.handles, ReapEvent.isEnd] using hpaid
    · rw [errnoLeft_append]
      simp [Parent.ownErrno, hidle]
  · refine ⟨fun _ => Or.inl rfl, fun j => ?_, ?_, ?_⟩
    · rw [hended, hs.ended, getElem?_set_iff hi, ReapEvent.ends.injEq]
      by_cases hj : j = i
      · simp [hj]
      · simp [hj, Ne.symm hj]
    · simp only [Parent.work, count_ended hi] at hpaid ⊢
      simp [ReapEvent.handles, ReapEvent.isEnd]
      split_ifs at hpaid <;> omega
    · rw [errnoLeft_append]
      exact hown
  · refine ⟨fun _ => Or.inl rfl, fun i => ?_, ?_, ?_⟩
    · rw [hended, hs.ended]
      simp
    · simp only [Parent.work] at hpaid ⊢
      simp [ReapEvent.handles, ReapEvent.isEnd]
      split_ifs at hpaid <;> omega
    · rw [errnoLeft_append]
      exact hown
  · refine ⟨fun _ => Or.inr ⟨_, rfl⟩, fun i => ?_, ?_, ?_⟩
    · rw [hended, hs.ended]
      simp
    · simp only [Parent.work, hidle, hpending] at hpaid ⊢
      simp [ReapEvent.handles, ReapEvent.isEnd] at hpaid ⊢
      omega
    · rw [errnoLeft_append, ← hown]
      simp [Parent.ownErrno, hidle]
  · refine ⟨fun _ => Or.inr ⟨_, hreaping⟩, fun j => ?_, ?_, ?_⟩
    · rw [hended, hs.ended, getElem?_set_iff hi]
      by_cases hj : j = i
      · simp [hj, hi]
      · simp [hj]
    · simp only [Parent.work, hreaping] at hpaid ⊢
      have hless := count_reaped hi
      simp [ReapEvent.handles, ReapEvent.isEnd] at hpaid ⊢
      omega
    · rw [errnoLeft_append]
      exact hown
  · refine ⟨fun hzombie => absurd hzombie hnone, fun i => ?_, ?_, ?_⟩
    · rw [hended, hs.ended]
      simp
    · simp only [Parent.work, hreaping] at hpaid ⊢
      simp [ReapEvent.handles, ReapEvent.isEnd] at hpaid ⊢
      omega
    · rw [errnoLeft_append, ← hown]
      simp [Parent.ownErrno, hreaping]
  · refine ⟨fun hzombie => Or.inl ?_, fun i => ?_, ?_, ?_⟩
    · simpa [hleaving] using hs.noticed hzombie
    · rw [hended, hs.ended]
      simp
    · simp only [Parent.work, hleaving] at hpaid ⊢
      simp [ReapEvent.handles, ReapEvent.isEnd] at hpaid ⊢
      omega
    · rw [errnoLeft_append, ← hown]
      simp [Parent.ownErrno, hleaving]

theorem Parent.Sound.of_run {errno : ℤ} {as : List ReapEvent} {s : Parent}
    (h : run Parent.step (.start errno) as = some s) : s.Sound errno as :=
  run_history (P := fun as s => s.Sound errno as) (.start errno) (fun _ _ _ _ _ ih hstep => ih.step hstep) h

/-- **The handler is never stuck**: if it cannot go on, it does not run, and no signal waits for it. -/
theorem Parent.quiet_of_stuck {s : Parent} (h : ∀ a, ReapEvent.handles a → s.step a = none) :
    s.handler = .idle ∧ s.pending = false := by
  cases hhandler : s.handler with
  | idle =>
    refine ⟨rfl, ?_⟩
    by_contra hpending
    simp only [Bool.not_eq_false] at hpending
    have hdeliver := h .deliver rfl
    simp [Parent.step, hhandler, hpending] at hdeliver
  | reaping lastError =>
    by_cases hzombie : .zombie ∈ s.children
    · obtain ⟨i, hi⟩ := List.mem_iff_getElem?.mp hzombie
      have hreap := h (.reap i) rfl
      simp [Parent.step, hhandler, hi] at hreap
    · have hgiveUp := h .giveUp rfl
      simp [Parent.step, hhandler, hzombie] at hgiveUp
  | leaving lastError =>
    have hresume := h .resume rfl
    simp [Parent.step, hhandler] at hresume

/-- **Every child that ends is waited for.** The handler takes no more than four steps for each child that ends and
three for each that stops, and when it can take no more, the children who have been waited for are those who have ended, and
`errno` is what the service loop has left there. -/
theorem children_reaped {errno : ℤ} {as : List ReapEvent} {s : Parent}
    (h : run Parent.step (.start errno) as = some s) :
    as.countP ReapEvent.handles ≤ 4 * as.countP ReapEvent.isEnd + 3 * as.count .stops ∧
      ((∀ a, ReapEvent.handles a → s.step a = none) →
        (∀ i, .ends i ∈ as ↔ s.children[i]? = some .reaped) ∧ s.errno = errnoLeft errno as) := by
  have hs := Parent.Sound.of_run h
  refine ⟨Nat.le_trans (Nat.le_add_right _ _) hs.paid, fun hstuck => ?_⟩
  obtain ⟨hidle, hpending⟩ := Parent.quiet_of_stuck hstuck
  have hnone : .zombie ∉ s.children := by
    intro hzombie
    rcases hs.noticed hzombie with hsignal | ⟨lastError, hreaping⟩
    · rw [hpending] at hsignal
      cases hsignal
    · rw [hidle] at hreaping
      cases hreaping
  refine ⟨fun i => ?_, ?_⟩
  · rw [hs.ended, or_iff_right fun hi => hnone (List.mem_of_getElem? hi)]
  · have hown := hs.own
    rwa [Parent.ownErrno, hidle] at hown

/-- Two children end before the first signal is delivered, and a third when the handler has looked for the last time. -/
def threeEnd : List ReapEvent :=
  [.iteration 0 true, .iteration 0 true, .iteration 4 true, .ends 1, .ends 0, .deliver, .reap 0, .reap 1, .giveUp,
    .ends 2, .resume, .deliver, .reap 2, .giveUp, .resume]

/-- All of them are waited for, in two calls of the handler. -/
theorem children_reaped_three :
    threeEnd.countP ReapEvent.handles ≤ 4 * threeEnd.countP ReapEvent.isEnd + 3 * threeEnd.count .stops ∧
      ((∀ a, ReapEvent.handles a → Parent.step ⟨[.reaped, .reaped, .reaped], false, .idle, 4⟩ a = none) →
        (∀ i, .ends i ∈ threeEnd ↔ [Life.reaped, .reaped, .reaped][i]? = some .reaped) ∧
          (4 : ℤ) = errnoLeft 0 threeEnd) :=
  children_reaped (s := ⟨[.reaped, .reaped, .reaped], false, .idle, 4⟩) rfl

end Inferno.Login
