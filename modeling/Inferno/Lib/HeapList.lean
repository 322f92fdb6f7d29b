import Mathlib.Data.List.Basic

/-!
# Lists that are freed

A linked list that a routine obtains, or does not, and frees as a whole. To read a node of a list that was
freed, or through a null pointer, and to free a list twice, or what was never obtained, is a fault, and
what comes after one is not followed.

`walk` is a loop over the nodes, which its body may break out of, or free the list in. A loop whose body leaves
the list alone is the same as one over a list of values (`walk_eq_scan`); of one whose body does not, `walk_freed`
says where it ends.
-/

namespace HeapList

/-- What must not be done with a list. -/
inductive Fault where
  | readFreed
  | readNull
  | freedTwice
  | notObtained
  deriving DecidableEq, Repr

/-- The list, if it was obtained, whether it has been freed, and the other variables. -/
structure State (α σ : Type) where
  list : Option (List α)
  freed : Bool
  vars : σ

variable {α σ : Type}

/-- The list has just been obtained, or not. -/
def State.start (list : Option (List α)) (vars : σ) : State α σ := ⟨list, false, vars⟩

/-- The list is freed. -/
def State.free (s : State α σ) : Except Fault (State α σ) :=
  match s.list with
  | none => .error .notObtained
  | some _ => if s.freed then .error .freedTwice else .ok { s with freed := true }

/-- The node at `i` is read; a pointer is the list from there, and the null pointer is the empty one. -/
def State.read (s : State α σ) : List α → Except Fault α
  | [] => .error .readNull
  | a :: _ => if s.freed then .error .readFreed else .ok a

/-- `for(i = list; i != NULL; i = i->next)`: where `i` is when the loop has ended, by itself or because the body
broke out of it. -/
def walk (body : State α σ → α → Except Fault (Bool × State α σ)) :
    State α σ → List α → Except Fault (List α × State α σ)
  | s, [] => .ok ([], s)
  | s, a :: rest => do
    let node ← s.read (a :: rest)
    let (breaks, s) ← body s node
    if breaks then return (a :: rest, s)
    let _ ← s.read (a :: rest)
    walk body s rest

/-- The same over a list of values. -/
def scan (f : σ → α → Bool × σ) : σ → List α → List α × σ
  | v, [] => ([], v)
  | v, a :: rest => if (f v a).1 then (a :: rest, (f v a).2) else scan f (f v a).2 rest

variable {body : State α σ → α → Except Fault (Bool × State α σ)} {s s' : State α σ} {a : α}

/-! ### One node -/

theorem State.read_cons (hs : s.freed = false) (rest : List α) : s.read (a :: rest) = .ok a := by
  simp [State.read, hs]

theorem State.read_freed (hs : s.freed = true) (rest : List α) : s.read (a :: rest) = .error .readFreed := by
  simp [State.read, hs]

/-- A list that was obtained and is still there can be freed. -/
theorem State.free_eq {as : List α} (hlist : s.list = some as) (hs : s.freed = false) :
    s.free = .ok { s with freed := true } := by
  simp [State.free, hlist, hs]

/-- The body breaks out of the loop. -/
theorem walk_break (hs : s.freed = false) (hbody : body s a = .ok (true, s')) (rest : List α) :
    walk body s (a :: rest) = .ok (a :: rest, s') := by
  simp only [walk, State.read_cons hs, hbody, bind, Except.bind, if_true]
  rfl

/-- It goes on to the next node. -/
theorem walk_continue (hs : s.freed = false) (hbody : body s a = .ok (false, s')) (hs' : s'.freed = false)
    (rest : List α) : walk body s (a :: rest) = walk body s' rest := by
  simp only [walk, State.read_cons hs, hbody, State.read_cons hs', bind, Except.bind]
  rfl

/-- **It frees the list and goes on**: the next node is asked of a list that is not there any more. -/
theorem walk_freed (hs : s.freed = false) (hbody : body s a = .ok (false, s')) (hs' : s'.freed = true)
    (rest : List α) : walk body s (a :: rest) = .error .readFreed := by
  simp only [walk, State.read_cons hs, hbody, State.read_freed hs', bind, Except.bind]
  rfl

/-! ### Loops that leave the list alone -/

/-- **A loop that leaves the list alone** is one over its values. -/
theorem walk_eq_scan {f : σ → α → Bool × σ}
    (hbody : ∀ s a, body s a = .ok ((f s.vars a).1, { s with vars := (f s.vars a).2 })) (hs : s.freed = false)
    (as : List α) :
    walk body s as = .ok ((scan f s.vars as).1, { s with vars := (scan f s.vars as).2 }) := by
  induction as generalizing s with
  | nil => rfl
  | cons a as ih =>
    have hnode := hbody s a
    rw [scan]
    cases hbreaks : (f s.vars a).1 with
    | true =>
      rw [hbreaks] at hnode
      rw [walk_break hs hnode, if_pos rfl]
    | false =>
      rw [hbreaks] at hnode
      rw [walk_continue hs hnode hs, if_neg Bool.false_ne_true]
      exact ih hs

/-- So is one over a list that has just been obtained. -/
theorem walk_start {f : σ → α → Bool × σ}
    (hbody : ∀ s a, body s a = .ok ((f s.vars a).1, { s with vars := (f s.vars a).2 })) (v : σ) (as : List α) :
    walk body (State.start (some as) v) as = .ok ((scan f v as).1, ⟨some as, false, (scan f v as).2⟩) :=
  walk_eq_scan hbody (s := State.start (some as) v) rfl as

/-- It ends at the first value that it breaks at, if that does not depend on the variables. -/
theorem scan_fst {f : σ → α → Bool × σ} {p : α → Bool} (hf : ∀ v a, (f v a).1 = p a) (v : σ) (as : List α) :
    (scan f v as).1 = as.dropWhile (!p ·) := by
  induction as generalizing v with
  | nil => rfl
  | cons a as ih =>
    rw [scan, hf]
    cases hp : p a with
    | true => rw [if_pos rfl, List.dropWhile_cons_of_neg (by simp [hp])]
    | false => rw [if_neg (by simp), ih, List.dropWhile_cons_of_pos (by simp [hp])]

/-- Where a loop has ended tells whether there is a value that it breaks at. -/
theorem isEmpty_dropWhile (p : α → Bool) (as : List α) : (as.dropWhile (!p ·)).isEmpty = (as.find? p).isNone := by
  induction as with
  | nil => rfl
  | cons a as ih =>
    cases hp : p a with
    | true => simp [hp]
    | false => simpa [hp] using ih

end HeapList
