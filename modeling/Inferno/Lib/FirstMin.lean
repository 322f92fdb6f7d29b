import Mathlib.Data.List.Induction
import Mathlib.Order.Lattice
import Mathlib.Order.Monotone.Basic

/-!
# First minima

A loop that goes over a list and keeps the smallest cost so far, and what it was the cost of. It
starts from a cost that is larger than all others, and it changes its mind only for a smaller one;
so it ends with the first of those whose cost is smallest (`scan_eq`).

Where the costs are rounded, by any function that keeps the order, the first minimum need not be
one of the exact costs (`FirstMin.least_iff`).
-/

namespace Minima

variable {α β γ δ : Type*}

/-- Of those in `l` whose cost is smallest, `a` is the first. -/
def FirstMin [Preorder β] (cost : α → β) (l : List α) (a : α) : Prop :=
  ∃ pre post, l = pre ++ a :: post ∧ (∀ b ∈ pre, cost a < cost b) ∧ ∀ b ∈ post, cost a ≤ cost b

theorem FirstMin.mem [Preorder β] {cost : α → β} {l : List α} {a : α} (h : FirstMin cost l a) : a ∈ l := by
  obtain ⟨pre, post, rfl, -, -⟩ := h
  simp

/-- Its cost is the smallest. -/
theorem FirstMin.le [Preorder β] {cost : α → β} {l : List α} {a : α} (h : FirstMin cost l a) :
    ∀ b ∈ l, cost a ≤ cost b := by
  obtain ⟨pre, post, rfl, hpre, hpost⟩ := h
  intro b hb
  rcases List.mem_append.mp hb with hb | hb
  · exact (hpre b hb).le
  · rcases List.mem_cons.mp hb with rfl | hb
    · exact le_rfl
    · exact hpost b hb

/-- The first minimum of a list with one more at its end. -/
theorem FirstMin.concat [LinearOrder β] {cost : α → β} {l : List α} {a : α} (h : FirstMin cost l a) (b : α) :
    FirstMin cost (l ++ [b]) (if cost b < cost a then b else a) := by
  split_ifs with hb
  · exact ⟨l, [], rfl, fun x hx => hb.trans_le (h.le x hx), by simp⟩
  · obtain ⟨pre, post, rfl, hpre, hpost⟩ := h
    refine ⟨pre, post ++ [b], by simp, hpre, fun x hx => ?_⟩
    rcases List.mem_append.mp hx with hx | hx
    · exact hpost x hx
    · rw [List.mem_singleton.mp hx]
      exact not_lt.mp hb

/-! ### The loop -/

/-- The loop, from the cost and the value in `best`; `none` if a cost cannot be worked out. -/
def scan [LT β] [DecidableLT β] (cost : α → Option β) (val : α → δ) : β × δ → List α → Option (β × δ)
  | best, [] => some best
  | best, a :: l => (cost a).bind fun c => scan cost val (if c < best.1 then (c, val a) else best) l

/-- The loop over what the members of another list stand for, with its values read in another way. -/
theorem scan_map {ε ζ : Type*} [LT β] [DecidableLT β] {cost : α → Option β} {val : α → δ} {cost' : ε → Option β}
    {val' : ε → ζ} {f : ε → α} {g : δ → ζ} {l : List ε} (hcost : ∀ a ∈ l, cost (f a) = cost' a)
    (hval : ∀ a ∈ l, g (val (f a)) = val' a) (b : β) (d : δ) :
    (scan cost val (b, d) (l.map f)).map (Prod.map id g) = scan cost' val' (b, g d) l := by
  induction l generalizing b d with
  | nil => rfl
  | cons a l ih =>
    rw [List.forall_mem_cons] at hcost hval
    rw [List.map_cons, scan, scan, hcost.1, ← hval.1]
    cases cost' a with
    | none => rfl
    | some c =>
      simp only [Option.bind_some]
      split_ifs
      · exact ih hcost.2 hval.2 _ _
      · exact ih hcost.2 hval.2 _ _

/-- If every cost can be worked out the loop is a fold. -/
theorem scan_eq_foldl [LT β] [DecidableLT β] {cost : α → Option β} {c : α → β} {l : List α}
    (hcost : ∀ a ∈ l, cost a = some (c a)) (val : α → δ) (best : β × δ) :
    scan cost val best l = some (l.foldl (fun best a => if c a < best.1 then (c a, val a) else best) best) := by
  induction l generalizing best with
  | nil => rfl
  | cons a l ih =>
    rw [scan, hcost a List.mem_cons_self, Option.bind_some, ih fun b hb => hcost b (List.mem_cons_of_mem _ hb)]
    rfl

/-- From the first minimum of what it has gone over, the loop goes to that of all. -/
theorem FirstMin.foldl [LinearOrder β] {c : α → β} {l : List α} {a : α} (h : FirstMin c l a) (val : α → δ)
    (l' : List α) : ∃ a', FirstMin c (l ++ l') a' ∧
      l'.foldl (fun best b => if c b < best.1 then (c b, val b) else best) (c a, val a) = (c a', val a') := by
  induction l' generalizing l a with
  | nil => exact ⟨a, by rwa [List.append_nil], rfl⟩
  | cons b l' ih =>
    obtain ⟨a', ha', hfold⟩ := ih (h.concat b)
    rw [List.append_assoc, List.singleton_append] at ha'
    refine ⟨a', ha', ?_⟩
    rw [List.foldl_cons, ← hfold]
    split_ifs <;> rfl

theorem firstMin_singleton [Preorder β] (c : α → β) (a : α) : FirstMin c [a] a := ⟨[], [], rfl, by simp, by simp⟩

/-- A list that is not empty has a first minimum. -/
theorem exists_firstMin [LinearOrder β] (c : α → β) {l : List α} (hne : l ≠ []) : ∃ a, FirstMin c l a := by
  obtain ⟨b, l, rfl⟩ := List.exists_cons_of_ne_nil hne
  obtain ⟨a, ha, -⟩ := (firstMin_singleton c b).foldl id l
  exact ⟨a, ha⟩

/-- **Where the loop ends**: at the first minimum. -/
theorem scan_eq [LinearOrder β] {cost : α → Option β} {c : α → β} {l : List α} {top : β}
    (hcost : ∀ a ∈ l, cost a = some (c a)) (htop : ∀ a ∈ l, c a < top) (hne : l ≠ []) (val : α → δ) (start : δ) :
    ∃ a, FirstMin c l a ∧ scan cost val (top, start) l = some (c a, val a) := by
  obtain ⟨b, l, rfl⟩ := List.exists_cons_of_ne_nil hne
  obtain ⟨a, ha, hfold⟩ := (firstMin_singleton c b).foldl val l
  refine ⟨a, ha, ?_⟩
  rw [scan_eq_foldl hcost, List.foldl_cons, if_pos (htop b List.mem_cons_self), hfold]

/-! ### Rounded costs -/

/-- **When the first minimum of the rounded costs has the smallest exact cost**: when whatever is
rounded to the same as the smallest, and is larger, comes behind one that has it. -/
theorem FirstMin.least_iff [LinearOrder β] [LinearOrder γ] {cost : α → β} {round : β → γ} (hround : Monotone round)
    {l : List α} {a : α} (h : FirstMin (fun a => round (cost a)) l a) :
    (∀ b ∈ l, cost a ≤ cost b) ↔
      ∀ pre b post, l = pre ++ b :: post → ∀ m ∈ l, (∀ x ∈ l, cost m ≤ cost x) → cost m < cost b →
        round (cost b) = round (cost m) → ∃ x ∈ pre, cost x = cost m := by
  obtain ⟨before, after, hl, hbefore, -⟩ := id h
  simp only at hbefore
  constructor
  · intro hleast pre b post hb m hm hmin hlt hsame
    have heq : cost a = cost m := le_antisymm (hleast m hm) (hmin a h.mem)
    have hne : a ≠ b := by
      rintro rfl
      exact absurd heq hlt.ne'
    rcases List.append_eq_append_iff.mp (hb.symm.trans hl) with ⟨as, has, hrest⟩ | ⟨bs, hbs, hrest⟩
    · -- `b` is not before `a`, for it is rounded to the same
      cases as with
      | nil => exact absurd (List.cons.inj hrest).1 hne.symm
      | cons x as =>
        obtain rfl := (List.cons.inj hrest).1
        have hlt' := hbefore b (by simp [has])
        rw [hsame, heq] at hlt'
        exact absurd hlt' (lt_irrefl _)
    · cases bs with
      | nil => exact absurd (List.cons.inj hrest).1 hne
      | cons x bs =>
        obtain rfl := (List.cons.inj hrest).1
        exact ⟨a, by simp [hbs], heq⟩
  · intro hcond b hb
    by_contra hlt
    obtain ⟨m, hm⟩ := exists_firstMin cost (List.ne_nil_of_mem hb)
    have hma : cost m < cost a := (hm.le b hb).trans_lt (not_le.mp hlt)
    have hsame : round (cost a) = round (cost m) := le_antisymm (h.le m hm.mem) (hround hma.le)
    obtain ⟨x, hx, heq⟩ := hcond before a after hl m hm.mem hm.le hma hsame
    have hlt' := hbefore x hx
    rw [heq, hsame] at hlt'
    exact absurd hlt' (lt_irrefl _)

end Minima
