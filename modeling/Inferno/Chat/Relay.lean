import Inferno.Chat.Descriptors

/-!
# What a client hears

Whole runs of the main loop, from the side of one client. In a pass the descriptors that are watched are asked for
data in their order, and `handle_recv` sends on what each says as long as it stops before `max_fd`. So a
client hears the others as long as there is a descriptor above its own, be it one that is accepted in the
middle of a pass.

## What is proved

* `hears_others` — a client that speaks in every pass hears, over any number of passes, what the others say, in
  order, once and nothing else; it misses exactly what is said while it has the largest descriptor. If the
  process ends at a `send`, as it does when one is made to a client that has gone, it has heard a
  beginning of that.

## Scope

A client stays in `client_set` if it is ready, and says something, in every pass. Descriptors are inside an
`fd_set`.
-/

namespace Inferno.Chat

/-- The descriptors that say something in a pass, but for `c`, in order. -/
def Session.talkers (s : Session) (p : Pass) (c : ℕ) : List ℕ :=
  (List.range (s.clientSet.sup id + 1)).filter fun i =>
    i ∈ s.clientSet ∧ i ≠ s.connSocket ∧ i ≠ c ∧ p.received i ≠ []

/-- When it is `i`'s turn there is a descriptor above `c`: there was one before, or it has been accepted. -/
def Session.Above (s : Session) (p : Pass) (c i : ℕ) : Prop :=
  c < s.maxFd ∨ s.connSocket ∈ s.clientSet ∧ s.connSocket < i ∧ p.accepted.any (c < ·)

instance (s : Session) (p : Pass) (c : ℕ) : DecidablePred (s.Above p c) :=
  fun _ => inferInstanceAs (Decidable (_ ∨ _))

/-- What the others say in some passes. -/
def Session.said (s : Session) (c : ℕ) : List Pass → List (List UInt8)
  | [] => []
  | p :: ps =>
    match s.iterate p with
    | none => []
    | some (s', _) => (s.talkers p c).map p.received ++ s'.said c ps

/-- What of it is said while there is a descriptor above `c`. -/
def Session.heard (s : Session) (c : ℕ) : List Pass → List (List UInt8)
  | [] => []
  | p :: ps =>
    match s.iterate p with
    | none => []
    | some (s', _) => ((s.talkers p c).filter (s.Above p c)).map p.received ++ s'.heard c ps

/-- A client is ready and says something in every pass. -/
def Speaks (c : ℕ) (ps : List Pass) : Prop := ∀ p ∈ ps, (∀ ready ∈ p.ready, c ∈ ready) ∧ p.received c ≠ []

variable {s s' : Session} {p : Pass} {c : ℕ}

theorem sentTo_append (cs cs' : List Call) (c : ℕ) : sentTo (cs ++ cs') c = sentTo cs c ++ sentTo cs' c :=
  List.filterMap_append

/-! ### One descriptor -/

/-- What a handler sends to a client that is watched. -/
theorem sentTo_handle (hc : c ∈ s.clientSet) (hconn : c ≠ s.connSocket) (i : ℕ) :
    sentTo (s.handle p i).2 c =
      if (i ≠ s.connSocket ∧ i ≠ c ∧ p.received i ≠ []) ∧ c < s.maxFd then [p.received i] else [] := by
  unfold Session.handle
  split_ifs with hi htalks htalks
  · exact absurd hi htalks.1.1
  · cases p.accepted <;> rfl
  · rw [Session.handleRecv, if_neg htalks.1.2.2]
    show sentTo (s.relay i _) c = _
    rw [sentTo_relay, if_pos ⟨htalks.2, hc, hconn, htalks.1.2.1.symm⟩]
  · unfold Session.handleRecv
    split_ifs with hbytes
    · rfl
    · show sentTo (s.relay i _) c = _
      rw [sentTo_relay, if_neg]
      rintro ⟨hlt, -, -, hne⟩
      exact htalks ⟨⟨hi, hne.symm, hbytes⟩, hlt⟩

/-- A client that says something stays in `client_set`. -/
theorem mem_clientSet_handle (hc : c ∈ s.clientSet) (hspeaks : p.received c ≠ []) (i : ℕ) :
    c ∈ (s.handle p i).1.clientSet := by
  unfold Session.handle
  split_ifs
  · cases p.accepted with
    | none => exact hc
    | some fd => exact Finset.mem_insert_of_mem hc
  · unfold Session.handleRecv
    split_ifs with hbytes
    · refine Finset.mem_erase.mpr ⟨?_, hc⟩
      rintro rfl
      exact hspeaks hbytes
    · exact hc

/-- The largest descriptor after a handler. -/
theorem lt_maxFd_handle_iff (s : Session) (p : Pass) (c i : ℕ) :
    c < (s.handle p i).1.maxFd ↔ c < s.maxFd ∨ i = s.connSocket ∧ p.accepted.any (c < ·) := by
  unfold Session.handle
  split_ifs with hi
  · cases p.accepted with
    | none => simp [Session.handleAccept]
    | some fd =>
      simp only [Session.handleAccept, Option.any_some, decide_eq_true_eq]
      split_ifs <;> omega
  · unfold Session.handleRecv
    split_ifs <;> simp [hi]

/-! ### One pass -/

/-- A candidate of a scan that says something to `c`. -/
def Session.Says (s : Session) (p : Pass) (c i : ℕ) : Prop :=
  i ∈ s.tempSet ∧ i ≠ s.connSocket ∧ i ≠ c ∧ p.received i ≠ []

instance (s : Session) (p : Pass) (c : ℕ) : DecidablePred (s.Says p c) :=
  fun _ => inferInstanceAs (Decidable (_ ∧ _))

/-- When it is `i`'s turn, of the candidates `is`, there is a descriptor above `c`. -/
def Session.AboveIn (s : Session) (p : Pass) (c : ℕ) (is : List ℕ) (i : ℕ) : Prop :=
  c < s.maxFd ∨ (s.connSocket ∈ is ∧ s.connSocket ∈ s.tempSet) ∧ s.connSocket < i ∧ p.accepted.any (c < ·)

instance (s : Session) (p : Pass) (c : ℕ) (is : List ℕ) : DecidablePred (s.AboveIn p c is) :=
  fun _ => inferInstanceAs (Decidable (_ ∨ _))

/-- Behind a candidate that has been handled. -/
theorem aboveIn_handle_iff {j i : ℕ} {is : List ℕ} (hj : j ∈ s.tempSet) (hi : j < i) :
    (s.handle p j).1.AboveIn p c is i ↔ s.AboveIn p c (j :: is) i := by
  obtain ⟨hsocket, htempSet, -, -⟩ := handle_spec s p j
  simp only [Session.AboveIn, hsocket, htempSet, lt_maxFd_handle_iff, List.mem_cons]
  constructor
  · rintro ((hlt | ⟨rfl, hacc⟩) | ⟨⟨hmem, ht⟩, hrest⟩)
    · exact Or.inl hlt
    · exact Or.inr ⟨⟨Or.inl rfl, hj⟩, hi, hacc⟩
    · exact Or.inr ⟨⟨Or.inr hmem, ht⟩, hrest⟩
  · rintro (hlt | ⟨⟨heq | hmem, ht⟩, hlt, hacc⟩)
    · exact Or.inl (Or.inl hlt)
    · exact Or.inl (Or.inr ⟨heq.symm, hacc⟩)
    · exact Or.inr ⟨⟨hmem, ht⟩, hlt, hacc⟩

/-- At a candidate that is not the listening socket nothing has been accepted yet in what is before it. -/
theorem aboveIn_head_iff {j : ℕ} {is : List ℕ} (hj : j ≠ s.connSocket) (hlt : ∀ i ∈ is, j < i) :
    s.AboveIn p c (j :: is) j ↔ c < s.maxFd := by
  apply or_iff_left
  rintro ⟨⟨hmem, -⟩, hbefore, -⟩
  rcases List.mem_cons.mp hmem with heq | hmem
  · exact hj heq.symm
  · exact absurd hbefore (hlt _ hmem).asymm

/-- **What a scan sends to a client**: what the candidates say whose turn comes while there is a descriptor above
the client's. -/
theorem sentTo_scan {is : List ℕ} (hsorted : is.Pairwise (· < ·)) (htemp : ∀ i ∈ is, i ∈ s.tempSet → i ≤ s.maxFd)
    (hc : c ∈ s.clientSet) (hconn : c ≠ s.connSocket) (hspeaks : p.received c ≠ []) :
    sentTo (s.scan p is).2 c = ((is.filter (s.Says p c)).filter (s.AboveIn p c is)).map p.received := by
  induction is generalizing s with
  | nil => rfl
  | cons j is ih =>
    obtain ⟨hlt, hsorted⟩ := List.pairwise_cons.mp hsorted
    have htail : ∀ i ∈ is, i ∈ s.tempSet → i ≤ s.maxFd := fun i hi => htemp i (List.mem_cons_of_mem _ hi)
    unfold Session.scan
    split_ifs with hmax hj
    · -- handled, and the others after it
      obtain ⟨hsocket, htempSet, hle, -⟩ := handle_spec s p j
      have hrest := ih hsorted (fun i hi ht => (htail i hi (htempSet ▸ ht)).trans hle)
        (mem_clientSet_handle hc hspeaks j)
        (hsocket ▸ hconn)
      have hfilter : (is.filter ((s.handle p j).1.Says p c)).filter ((s.handle p j).1.AboveIn p c is) =
          (is.filter (s.Says p c)).filter (s.AboveIn p c (j :: is)) := by
        have hsame : (s.handle p j).1.Says p c = s.Says p c := by
          funext i
          simp only [Session.Says, hsocket, htempSet]
        simp only [hsame]
        refine List.filter_congr fun i hi => ?_
        rw [decide_eq_decide]
        exact aboveIn_handle_iff hj (hlt i (List.mem_of_mem_filter hi))
      rw [sentTo_append, sentTo_handle hc hconn, hrest, hfilter, List.filter_cons]
      by_cases htalks : j ≠ s.connSocket ∧ j ≠ c ∧ p.received j ≠ []
      · have hsay : s.Says p c j := ⟨hj, htalks⟩
        simp only [hsay, decide_true, if_true, List.filter_cons, decide_eq_true_eq, aboveIn_head_iff htalks.1 hlt]
        by_cases habove : c < s.maxFd
        · rw [if_pos ⟨htalks, habove⟩, if_pos habove]
          rfl
        · rw [if_neg fun h => habove h.2, if_neg habove]
          rfl
      · have hsay : ¬ s.Says p c j := fun h => htalks h.2
        simp only [hsay, decide_false, Bool.false_eq_true, if_false]
        rw [if_neg fun h => htalks h.1, List.nil_append]
    · -- not in `temp_set`
      have hsay : ¬ s.Says p c j := fun h => hj h.1
      rw [ih hsorted htail hc hconn, List.filter_cons_of_neg (by simpa using hsay)]
      congr 1
      refine List.filter_congr fun i _ => ?_
      rw [decide_eq_decide, Session.AboveIn, Session.AboveIn, List.mem_cons]
      refine or_congr_right (and_congr_left' ⟨fun h => ⟨Or.inr h.1, h.2⟩, ?_⟩)
      rintro ⟨rfl | hmem, ht⟩
      · exact absurd ht hj
      · exact ⟨hmem, ht⟩
    · -- nothing from here on is in `temp_set`
      have hnone : (j :: is).filter (s.Says p c) = [] := by
        refine List.filter_eq_nil_iff.mpr fun i hi hsay => ?_
        have hle := htemp i hi (of_decide_eq_true hsay).1
        rcases List.mem_cons.mp hi with rfl | hi
        · exact hmax hle
        · exact hmax ((hlt i hi).le.trans hle)
      rw [hnone]
      rfl

/-- **What a pass sends to a client** that speaks in it, and that it is still watched. -/
theorem sentTo_iterate {cs : List Call} (hbound : s.Bounded) (hc : c ∈ s.clientSet) (hconn : c ≠ s.connSocket)
    (hready : ∀ ready ∈ p.ready, c ∈ ready) (hspeaks : p.received c ≠ []) (h : s.iterate p = some (s', cs)) :
    sentTo cs c = ((s.talkers p c).filter (s.Above p c)).map p.received ∧ c ∈ s'.clientSet := by
  obtain ⟨ready, hselect, hscan⟩ := iterate_eq_some_iff.mp h
  obtain rfl : ((s.selected ready).scan p _).1 = s' := congrArg Prod.fst hscan
  obtain rfl : ((s.selected ready).scan p _).2 = cs := congrArg Prod.snd hscan
  have hwatched : c ∈ (s.selected ready).clientSet := Finset.mem_inter.mpr ⟨hc, hready ready hselect⟩
  refine ⟨?_, scan_induction (P := fun s' => c ∈ s'.clientSet) (fun s i hs => mem_clientSet_handle hs hspeaks i)
    hwatched _⟩
  rw [sentTo_scan List.pairwise_lt_range (fun i _ => hbound i) hwatched hconn hspeaks]
  congr 1
  refine List.filter_congr fun i _ => ?_
  rw [decide_eq_decide, Session.AboveIn, Session.Above, List.mem_range, Nat.lt_succ_iff]
  exact or_congr_right (and_congr_left' (and_iff_right_of_imp fun hmem => Finset.le_sup (f := id) hmem))

/-! ### Runs -/

/-- **What a run sends to a client** that speaks in every pass. -/
theorem sentTo_mainLoop (hbound : s.Bounded) (hc : c ∈ s.clientSet) (hconn : c ≠ s.connSocket) {ps : List Pass}
    (hspeaks : Speaks c ps) : sentTo (s.mainLoop ps).2 c = s.heard c ps := by
  induction ps generalizing s with
  | nil => rfl
  | cons p ps ih =>
    obtain ⟨⟨hready, hspeaks⟩, hrest⟩ := List.forall_mem_cons.mp hspeaks
    simp only [Session.mainLoop, Session.heard]
    cases hit : s.iterate p with
    | none => rfl
    | some result =>
      obtain ⟨s', cs⟩ := result
      obtain ⟨hbound', -, hsocket⟩ := iterate_keeps hbound hit
      obtain ⟨hsent, hc'⟩ := sentTo_iterate hbound hc hconn hready hspeaks hit
      simp only [sentTo_append, hsent, ih hbound' hc' (hsocket ▸ hconn) hrest]

/-- What is heard is part of what is said. -/
theorem heard_sublist (s : Session) (c : ℕ) (ps : List Pass) : (s.heard c ps).Sublist (s.said c ps) := by
  induction ps generalizing s with
  | nil => exact List.Sublist.refl _
  | cons p ps ih =>
    simp only [Session.heard, Session.said]
    cases s.iterate p with
    | none => exact List.Sublist.refl _
    | some result => exact (List.filter_sublist.map _).append (ih _)

/-- Below a larger descriptor everything is heard. -/
theorem heard_eq_said (hbound : s.Bounded) (hlt : c < s.maxFd) (ps : List Pass) : s.heard c ps = s.said c ps := by
  induction ps generalizing s with
  | nil => rfl
  | cons p ps ih =>
    simp only [Session.heard, Session.said]
    cases hit : s.iterate p with
    | none => rfl
    | some result =>
      obtain ⟨hbound', hle, -⟩ := iterate_keeps hbound hit
      have hall : (s.talkers p c).filter (s.Above p c) = s.talkers p c :=
        List.filter_eq_self.mpr fun i _ => decide_eq_true (Or.inl hlt)
      simp only [hall, ih hbound' (hlt.trans_le hle)]

/-- What part of a run sends is part of what the run sends. -/
theorem sentTo_prefix {cs ds : List Call} (h : cs <+: ds) (c : ℕ) : sentTo cs c <+: sentTo ds c := by
  obtain ⟨es, rfl⟩ := h
  rw [sentTo_append]
  exact List.prefix_append _ _

/-- **What a client hears** that speaks in every pass: what the others say, in order, once and nothing else, but
for what is said while no descriptor is above its own; and a beginning of that, if the process ends before
the run does. -/
theorem hears_others (junk : SessionImage) (maxClients teamSize : Int32) (redClients blueClients : List ClientPtr)
    {connSocket : ℕ} (hsocket : connSocket < fdSetSize) {before ps : List Pass} (hbefore : ∀ p ∈ before, p.Fits)
    (hps : ∀ p ∈ ps, p.Fits) {c : ℕ}
    (hc : c ∈ ((junk.construct maxClients teamSize (.teams redClients blueClients)).start connSocket
      before).1.clientSet)
    (hconn : c ≠ ((junk.construct maxClients teamSize (.teams redClients blueClients)).start connSocket
      before).1.connSocket)
    (hspeaks : Speaks c ps) :
    let m := ((junk.construct maxClients teamSize (.teams redClients blueClients)).start connSocket before).1
    (∀ cs, cs <+: (m.mainLoop ps).2 → sentTo cs c <+: m.view.heard c ps) ∧
      sentTo (m.mainLoop ps).2 c = m.view.heard c ps ∧ (m.view.heard c ps).Sublist (m.view.said c ps) ∧
      (c < m.maxFd → m.view.heard c ps = m.view.said c ps) := by
  intro m
  have hstart : m.view.Bounded ∧ m.maxFd < fdSetSize := by
    have hentry := view_enterMainLoop (m := junk.construct maxClients teamSize (.teams redClients blueClients)) hsocket
    rw [view_construct] at hentry
    have hbound := bounded_enterMainLoop junk.view maxClients teamSize redClients blueClients connSocket
    rw [← hentry] at hbound
    obtain ⟨hview, hmax⟩ := mainLoop_view hsocket hbound hbefore
    refine ⟨?_, hmax⟩
    have hrun := congrArg Prod.fst hview
    rw [Prod.map_fst] at hrun
    have hm : m.view = _ := hrun
    rw [hm]
    exact bounded_mainLoop hbound before
  obtain ⟨hbound, hmax⟩ := hstart
  have hcalls := congrArg Prod.snd (mainLoop_view hmax hbound hps).1
  rw [Prod.map_snd, id_eq] at hcalls
  have hsent : sentTo (m.mainLoop ps).2 c = m.view.heard c ps := by
    rw [hcalls]
    exact sentTo_mainLoop hbound hc hconn hspeaks
  refine ⟨fun cs hcs => ?_, hsent, heard_sublist m.view c ps, fun hlt => heard_eq_said hbound hlt ps⟩
  rw [← hsent]
  exact sentTo_prefix hcs c

/-- Clients `4` and `5` connect, and both say something; `4` hears `5`. -/
theorem hears_others_two :
    let m := (sample 3 [⟨some {3}, some 4, fun _ => []⟩, ⟨some {3, 4}, some 5, fun _ => [104]⟩]).1
    let ps : List Pass := [⟨some {3, 4, 5}, none, fun i => if i = 4 then [104] else [105]⟩]
    (∀ cs, cs <+: (m.mainLoop ps).2 → sentTo cs 4 <+: m.view.heard 4 ps) ∧
      sentTo (m.mainLoop ps).2 4 = m.view.heard 4 ps ∧ (m.view.heard 4 ps).Sublist (m.view.said 4 ps) ∧
      (4 < m.maxFd → m.view.heard 4 ps = m.view.said 4 ps) := by
  apply hears_others ⟨0, 0, 0, 0, ∅, [], []⟩ 6 3 [] [] (show 3 < fdSetSize by decide)
  · intro p hp
    simp only [List.mem_cons, List.not_mem_nil, or_false] at hp
    rcases hp with rfl | rfl <;> rintro _ ⟨⟩ <;> decide
  · intro p hp
    rw [List.mem_singleton.mp hp]
    rintro _ ⟨⟩
  · decide
  · decide
  · intro p hp
    rw [List.mem_singleton.mp hp]
    simp

end Inferno.Chat
