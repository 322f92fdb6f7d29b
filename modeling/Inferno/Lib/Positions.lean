import Mathlib.Data.List.Forall2
import Mathlib.Data.List.Sort

/-!
# Subsequences by position

A list `xs` whose members each say which position of a list `l` they stand for, counted
from one. It is a subsequence of `l` by these positions (`Embeds`) if and only if the
positions increase (`embeds_iff`), as long as each member stands for what is there.
-/

namespace Positions

variable {α β : Type*} {R : β → α → Prop} {pos : β → ℕ} {xs : List β} {l : List α}

/-- Some members of `l`, in order and none of them twice, are what the members of `xs` stand
for. -/
def Embeds (R : β → α → Prop) (pos : β → ℕ) (xs : List β) (l : List α) : Prop :=
  ∃ ds, ds.Sublist (l.zipIdx 1) ∧ List.Forall₂ (fun x d => pos x = d.2 ∧ R x d.1) xs ds

/-- The positions of a list increase. -/
theorem pairwise_zipIdx (l : List α) (n : ℕ) : (l.zipIdx n).Pairwise (fun a b => a.2 < b.2) := by
  have h := List.pairwise_lt_range' (s := n) (n := l.length)
  rw [← List.zipIdx_map_snd n l, List.pairwise_map] at h
  exact h

/-- What is found at increasing positions is a subsequence. -/
theorem sublist_zipIdx {ds : List (α × ℕ)} {n : ℕ} (hds : ds.Pairwise fun a b => a.2 < b.2)
    (hmem : ∀ d ∈ ds, d ∈ l.zipIdx n) : ds.Sublist (l.zipIdx n) := by
  have : Std.Antisymm fun a b : α × ℕ => a.2 < b.2 := ⟨fun a b hab hba => absurd hab (by omega)⟩
  have hnodup : ds.Nodup := hds.imp fun {a b} hab e => by simp [e] at hab
  exact List.sublist_of_subperm_of_pairwise (List.subperm_of_subset hnodup hmem) hds (pairwise_zipIdx l n)

/-- One member for each, if there is one for each. -/
theorem exists_forall₂ {S : β → α → Prop} (h : ∀ x ∈ xs, ∃ d ∈ l, S x d) :
    ∃ ds, List.Forall₂ S xs ds ∧ ∀ d ∈ ds, d ∈ l := by
  induction xs with
  | nil => exact ⟨[], .nil, by simp⟩
  | cons x xs ih =>
    obtain ⟨d, hd, hx⟩ := h x List.mem_cons_self
    obtain ⟨ds, hxs, hds⟩ := ih fun y hy => h y (List.mem_cons_of_mem _ hy)
    refine ⟨d :: ds, .cons hx hxs, ?_⟩
    rw [List.forall_mem_cons]
    exact ⟨hd, hds⟩

/-- The positions of what is embedded are those of what it stands for. -/
theorem map_pos_eq {ds : List (α × ℕ)} (h : List.Forall₂ (fun x d => pos x = d.2 ∧ R x d.1) xs ds) :
    xs.map pos = ds.map Prod.snd := by
  induction h with
  | nil => rfl
  | cons hx _ ih => rw [List.map_cons, List.map_cons, hx.1, ih]

/-- **A list is a subsequence by its positions if they increase from one**, where no member
stands for anything else than what is at its position. -/
theorem embeds_iff (h : ∀ x ∈ xs, pos x ≠ 0 → ∃ d, l[pos x - 1]? = some d ∧ R x d) :
    Embeds R pos xs l ↔ (0 :: xs.map pos).Pairwise (· < ·) := by
  constructor
  · rintro ⟨ds, hsub, hds⟩
    rw [map_pos_eq hds, List.pairwise_cons, List.pairwise_map]
    refine ⟨fun n hn => ?_, (pairwise_zipIdx l 1).sublist hsub⟩
    obtain ⟨d, hd, rfl⟩ := List.mem_map.mp hn
    exact (List.mem_zipIdx (hsub.subset hd)).1
  · intro hpos
    rw [List.pairwise_cons] at hpos
    obtain ⟨ds, hxs, hds⟩ := exists_forall₂ (l := l.zipIdx 1)
      (S := fun x d => pos x = d.2 ∧ R x d.1) fun x hx => by
        have hone := hpos.1 (pos x) (List.mem_map_of_mem hx)
        obtain ⟨d, hget, hd⟩ := h x hx (by omega)
        refine ⟨(d, pos x), ?_, rfl, hd⟩
        rw [List.mk_mem_zipIdx_iff_le_and_getElem?_sub]
        exact ⟨hone, hget⟩
    refine ⟨ds, sublist_zipIdx ?_ hds, hxs⟩
    rw [← List.pairwise_map (f := Prod.snd), ← map_pos_eq hxs]
    exact hpos.2

end Positions
