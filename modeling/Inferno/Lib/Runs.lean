import Mathlib.Data.List.Induction

/-!
# Runs of a partial machine

A machine that takes one input at a time and may get stuck. `run` is its state
after a list of inputs; `run_history` is the induction rule for what holds of the
state together with the inputs so far, and `run_map` the rule for a machine that follows
another. `count` is how many of a run's steps are of
some kind; `EachStep` and `EachState` say that all of them are, and all the states
between them; `EachPrefix` says it of the states with the inputs so far. `eachPrefix_iff_eachStep`
is the rule for when the one is the same as the other. `forall_split_cons` is the rule for what holds
of each member of a list with what is before it and behind it.
-/

namespace Machine

variable {σ α : Type*} {step : σ → α → Option σ}

/-- **What holds of each member of a list**, with those before it and those behind it. -/
theorem forall_split_cons {P : List α → α → List α → Prop} {a : α} {as : List α} :
    (∀ pre b post, a :: as = pre ++ b :: post → P pre b post) ↔
      P [] a as ∧ ∀ pre b post, as = pre ++ b :: post → P (a :: pre) b post := by
  constructor
  · intro h
    exact ⟨h [] a as rfl, fun pre b post has => h (a :: pre) b post (by rw [has, List.cons_append])⟩
  · intro ⟨ha, h⟩ pre b post has
    cases pre with
    | nil =>
      obtain ⟨rfl, rfl⟩ := List.cons.inj has
      exact ha
    | cons c pre =>
      obtain ⟨rfl, htail⟩ := List.cons.inj has
      exact h pre b post htail

/-- The state after the inputs, or `none` if the machine gets stuck on the way. -/
def run (step : σ → α → Option σ) : σ → List α → Option σ
  | s, [] => some s
  | s, a :: as =>
    match step s a with
    | none => none
    | some s' => run step s' as

@[simp] theorem run_nil (s : σ) : run step s [] = some s := rfl

theorem run_append (s : σ) (as bs : List α) :
    run step s (as ++ bs) = (run step s as).bind fun s' => run step s' bs := by
  induction as generalizing s with
  | nil => rfl
  | cons a as ih =>
    simp only [List.cons_append, run]
    cases step s a with
    | none => rfl
    | some s' => exact ih s'

/-- The last step of a run. -/
theorem run_concat_eq_some {s s' : σ} {as : List α} {a : α} :
    run step s (as ++ [a]) = some s' ↔ ∃ s₁, run step s as = some s₁ ∧ step s₁ a = some s' := by
  rw [run_append, Option.bind_eq_some_iff]
  refine exists_congr fun s₁ => and_congr_right fun _ => ?_
  simp only [run]
  cases step s₁ a <;> simp

/-- A run that goes through also goes through every shorter list of inputs. -/
theorem run_prefix {s s' : σ} {as bs : List α} (h : run step s (as ++ bs) = some s') :
    ∃ s₁, run step s as = some s₁ ∧ run step s₁ bs = some s' := by
  rw [run_append, Option.bind_eq_some_iff] at h
  exact h

/-- A machine gets stuck on a run at some first input that it cannot take. -/
theorem run_eq_none_iff {s : σ} {as : List α} :
    run step s as = none ↔ ∃ pre a post s', as = pre ++ a :: post ∧ run step s pre = some s' ∧ step s' a = none := by
  constructor
  · intro h
    induction as generalizing s with
    | nil => cases h
    | cons a as ih =>
      simp only [run] at h
      cases hstep : step s a with
      | none => exact ⟨[], a, as, s, rfl, rfl, hstep⟩
      | some s₁ =>
        simp only [hstep] at h
        obtain ⟨pre, b, post, s', rfl, hrun, hstuck⟩ := ih h
        exact ⟨a :: pre, b, post, s', rfl, by simp only [run, hstep, hrun], hstuck⟩
  · rintro ⟨pre, a, post, s', rfl, hrun, hstuck⟩
    rw [run_append, hrun, Option.bind_some]
    simp only [run, hstuck]

/-- **Induction over a run**: what holds at the start, of no inputs, and is kept by every
step, holds of every state reached and the inputs that led there. -/
theorem run_history {s : σ} {P : List α → σ → Prop} (init : P [] s)
    (next : ∀ as a s₁ s₂, run step s as = some s₁ → P as s₁ → step s₁ a = some s₂ → P (as ++ [a]) s₂)
    {as : List α} {s' : σ} (h : run step s as = some s') : P as s' := by
  induction as using List.reverseRecOn generalizing s' with
  | nil =>
    cases h
    exact init
  | append_singleton as a ih =>
    obtain ⟨s₁, h₁, hstep⟩ := run_concat_eq_some.mp h
    exact next as a s₁ s' h₁ (ih h₁) hstep

/-- Induction over a run all of whose inputs are of one kind. -/
theorem run_history_of_forall {Q : α → Prop} {s : σ} {P : List α → σ → Prop} (init : P [] s)
    (next : ∀ as a s₁ s₂, P as s₁ → Q a → step s₁ a = some s₂ → P (as ++ [a]) s₂) {as : List α} {s' : σ}
    (h : run step s as = some s') (hall : ∀ a ∈ as, Q a) : P as s' := by
  revert hall
  refine run_history (P := fun as s' => (∀ a ∈ as, Q a) → P as s') (fun _ => init) ?_ h
  intro as a s₁ s₂ _ ih hstep hall
  rw [List.forall_mem_append] at hall
  exact next as a s₁ s₂ (ih hall.1) (List.forall_mem_singleton.mp hall.2) hstep

/-- **A machine that follows another one**: each of its steps is one of the other, seen through `f`, and so are its
runs. -/
theorem run_map {τ : Type*} {step' : τ → α → Option τ} {f : τ → σ}
    (hstep : ∀ t a t', step' t a = some t' → step (f t) a = some (f t')) {t t' : τ} {as : List α}
    (h : run step' t as = some t') : run step (f t) as = some (f t') :=
  run_history (P := fun as t' => run step (f t) as = some (f t')) rfl
    (fun _ a t₁ t₂ _ ih h₂ => run_concat_eq_some.mpr ⟨f t₁, ih, hstep t₁ a t₂ h₂⟩) h

/-- Every input of a run is taken in a state of which `P` holds with it. -/
def EachStep (step : σ → α → Option σ) (P : σ → α → Prop) (s : σ) (as : List α) : Prop :=
  ∀ pre a post s', as = pre ++ a :: post → run step s pre = some s' → P s' a

theorem eachStep_nil {P : σ → α → Prop} {s : σ} : EachStep step P s [] := by
  intro pre a post s' has
  simp at has

/-- A run with one more input. -/
theorem eachStep_concat {P : σ → α → Prop} {s s' : σ} {as : List α} {a : α} (h : run step s as = some s') :
    EachStep step P s (as ++ [a]) ↔ EachStep step P s as ∧ P s' a := by
  constructor
  · intro hall
    refine ⟨fun pre b post s₁ has => hall pre b (post ++ [a]) s₁ ?_, hall as a [] s' rfl h⟩
    rw [has, List.append_assoc, List.cons_append]
  · rintro ⟨hall, hlast⟩ pre b post s₁ has hrun
    rcases List.eq_nil_or_concat post with rfl | ⟨post, c, rfl⟩
    · obtain ⟨rfl, hb⟩ := List.append_inj' has rfl
      obtain ⟨rfl, -⟩ := List.cons.inj hb
      obtain rfl : s' = s₁ := Option.some.inj (h.symm.trans hrun)
      exact hlast
    · rw [List.concat_eq_append, ← List.cons_append, ← List.append_assoc] at has
      obtain ⟨rfl, -⟩ := List.append_inj' has rfl
      exact hall pre b post s₁ rfl hrun

/-- `P` holds of every state of a run, the first and the last among them, with the inputs that led
there. -/
def EachPrefix (step : σ → α → Option σ) (P : List α → σ → Prop) (s : σ) (as : List α) : Prop :=
  ∀ pre post s', as = pre ++ post → run step s pre = some s' → P pre s'

theorem eachPrefix_nil {P : List α → σ → Prop} {s : σ} : EachPrefix step P s [] ↔ P [] s := by
  constructor
  · exact fun h => h [] [] s rfl rfl
  · intro h pre post s' has hrun
    obtain ⟨rfl, rfl⟩ := List.append_eq_nil_iff.mp has.symm
    cases hrun
    exact h

/-- A run with one more input. -/
theorem eachPrefix_concat {P : List α → σ → Prop} {s s₁ s' : σ} {as : List α} {a : α} (h : run step s as = some s₁)
    (hstep : step s₁ a = some s') :
    EachPrefix step P s (as ++ [a]) ↔ EachPrefix step P s as ∧ P (as ++ [a]) s' := by
  constructor
  · intro hall
    refine ⟨fun pre post s₂ has => hall pre (post ++ [a]) s₂ ?_, ?_⟩
    · rw [has, List.append_assoc]
    · exact hall (as ++ [a]) [] s' (List.append_nil _).symm (run_concat_eq_some.mpr ⟨s₁, h, hstep⟩)
  · rintro ⟨hall, hlast⟩ pre post s₂ has hrun
    rcases List.eq_nil_or_concat post with rfl | ⟨post, b, rfl⟩
    · rw [List.append_nil] at has
      subst has
      obtain rfl : s' = s₂ := Option.some.inj ((run_concat_eq_some.mpr ⟨s₁, h, hstep⟩).symm.trans hrun)
      exact hlast
    · rw [List.concat_eq_append, ← List.append_assoc] at has
      obtain ⟨rfl, -⟩ := List.append_inj' has rfl
      exact hall pre post s₂ rfl hrun

/-- **When `P` holds all through a run**: if it holds at the start, that is when every step meets the
condition `Q` under which it keeps `P`. What it takes to show this of one step may rest on an
invariant `I`. -/
theorem eachPrefix_iff_eachStep {I P : List α → σ → Prop} {Q : σ → α → Prop} {s : σ} (init : I [] s) (start : P [] s)
    (keep : ∀ as s₁ a s₂, I as s₁ → step s₁ a = some s₂ → I (as ++ [a]) s₂)
    (next : ∀ as s₁ a s₂, I as s₁ → P as s₁ → step s₁ a = some s₂ → (P (as ++ [a]) s₂ ↔ Q s₁ a))
    {as : List α} {s' : σ} (h : run step s as = some s') : EachPrefix step P s as ↔ EachStep step Q s as := by
  have hboth : I as s' ∧ (EachPrefix step P s as ↔ EachStep step Q s as) := by
    refine run_history (P := fun as s' => I as s' ∧ (EachPrefix step P s as ↔ EachStep step Q s as)) ?_ ?_ h
    · exact ⟨init, iff_of_true (eachPrefix_nil.mpr start) eachStep_nil⟩
    · intro as a s₁ s₂ hrun ih hstep
      obtain ⟨hinv, ih⟩ := ih
      refine ⟨keep as s₁ a s₂ hinv hstep, ?_⟩
      rw [eachPrefix_concat hrun hstep, eachStep_concat hrun, ← ih]
      apply and_congr_right
      intro hall
      exact next as s₁ a s₂ hinv (hall as [] s₁ (List.append_nil _).symm hrun) hstep
  exact hboth.2

/-- `P` holds of every state of a run, the first and the last among them. -/
def EachState (step : σ → α → Option σ) (P : σ → Prop) (s : σ) (as : List α) : Prop :=
  ∀ pre post s', as = pre ++ post → run step s pre = some s' → P s'

/-- The same where `P` is of the state alone. -/
theorem eachState_iff_eachStep {I P : σ → Prop} {Q : σ → α → Prop} {s : σ} (init : I s) (start : P s)
    (keep : ∀ s₁ a s₂, I s₁ → step s₁ a = some s₂ → I s₂)
    (next : ∀ s₁ a s₂, I s₁ → P s₁ → step s₁ a = some s₂ → (P s₂ ↔ Q s₁ a))
    {as : List α} {s' : σ} (h : run step s as = some s') : EachState step P s as ↔ EachStep step Q s as :=
  eachPrefix_iff_eachStep (I := fun _ => I) (P := fun _ => P) init start (fun _ => keep) (fun _ => next) h

/-- How many steps of a run, up to where it gets stuck, satisfy `p` in the state before. -/
def count (step : σ → α → Option σ) (p : σ → α → Bool) : σ → List α → ℕ
  | _, [] => 0
  | s, a :: as =>
    (if p s a then 1 else 0) +
      match step s a with
      | none => 0
      | some s' => count step p s' as

/-- The last step counts on top of the ones before. -/
theorem count_concat {p : σ → α → Bool} {s s' : σ} {as : List α} {a : α} (h : run step s as = some s') :
    count step p s (as ++ [a]) = count step p s as + if p s' a then 1 else 0 := by
  induction as generalizing s with
  | nil =>
    cases h
    cases hstep : step s' a <;> simp [count, hstep]
  | cons b as ih =>
    simp only [run] at h
    cases hstep : step s b with
    | none => simp [hstep] at h
    | some s₁ =>
      simp only [hstep] at h
      simp only [List.cons_append, count, hstep]
      rw [ih h, Nat.add_assoc]

/-- What the steps of a run, up to where it gets stuck, give off. -/
def collect {β : Type*} (step : σ → α → Option σ) (give : σ → α → List β) : σ → List α → List β
  | _, [] => []
  | s, a :: as =>
    give s a ++
      match step s a with
      | none => []
      | some s' => collect step give s' as

/-- The last step's comes behind that of the ones before. -/
theorem collect_concat {β : Type*} {give : σ → α → List β} {s s' : σ} {as : List α} {a : α}
    (h : run step s as = some s') :
    collect step give s (as ++ [a]) = collect step give s as ++ give s' a := by
  induction as generalizing s with
  | nil =>
    cases h
    cases hstep : step s' a <;> simp [collect, hstep]
  | cons b as ih =>
    simp only [run] at h
    cases hstep : step s b with
    | none => simp [hstep] at h
    | some s₁ =>
      simp only [hstep] at h
      simp only [List.cons_append, collect, hstep]
      rw [ih h, List.append_assoc]

end Machine
