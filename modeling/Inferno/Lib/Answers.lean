import Mathlib.Data.List.Basic

/-!
# Machines that answer

A machine that takes one call at a time and gives an answer to each. `answers` is what it answers to some calls in
turn, and `after` its state behind them. Two machines cannot be told apart by their answers if some relation of
their states is kept by every call that still fits (`answers_eq`).
-/

namespace Answering

variable {σ τ α β : Type*}

/-- The answers to some calls. -/
def answers (call : σ → α → β × σ) : σ → List α → List β
  | _, [] => []
  | s, a :: as => (call s a).1 :: answers call (call s a).2 as

/-- The state after some calls. -/
def after (call : σ → α → β × σ) (s : σ) (as : List α) : σ := as.foldl (fun s a => (call s a).2) s

theorem answers_append (call : σ → α → β × σ) (s : σ) (as bs : List α) :
    answers call s (as ++ bs) = answers call s as ++ answers call (after call s as) bs := by
  induction as generalizing s with
  | nil => rfl
  | cons a as ih =>
    rw [List.cons_append, answers, answers, ih]
    rfl

/-- **Simulation**: if related states give the same answer to a call and stay related, all answers are the same. -/
theorem answers_eq {call : σ → α → β × σ} {call' : τ → α → β × τ} {R : σ → τ → Prop} {F : τ → List α → Prop}
    (hstep : ∀ s t a as, R s t → F t (a :: as) →
      (call s a).1 = (call' t a).1 ∧ R (call s a).2 (call' t a).2 ∧ F (call' t a).2 as)
    {s : σ} {t : τ} {as : List α} (h : R s t) (hfits : F t as) :
    answers call s as = answers call' t as ∧ R (after call s as) (after call' t as) := by
  induction as generalizing s t with
  | nil => exact ⟨rfl, h⟩
  | cons a as ih =>
    obtain ⟨hanswer, hnext, hfits⟩ := hstep s t a as h hfits
    obtain ⟨hanswers, hafter⟩ := ih hnext hfits
    refine ⟨?_, hafter⟩
    rw [answers, answers, hanswer, hanswers]

end Answering
