import Inferno.Lib.Datagrams
import Inferno.Login.ServerAuth
import Inferno.Tokens.Store

/-!
# The hand-over to the chat server

`LoginServer::chat_server_auth` composed with the loop of `ChatServer::update`, over
a channel for datagrams in each direction. A datagram that arrives waits in the
socket's queue until `recvfrom` takes it. Datagrams of earlier calls may be in flight
or in the queues at the start.

An iteration of `chat_server_auth`'s loop is one step, and so is one of
`receive_new`'s: what the other side and the channels do in the middle of one they
could as well do before it or after it.

The chat server has no `sendto`. What `chat_server_auth` takes for an ACK is any
datagram that is not empty, and there is none that the chat server could have sent.

## What is proved

* `handshakes_iff` — a run is a correct handshake exactly if no poll finds a left-over
  datagram before the chat server has processed the new one, and, where nothing goes
  wrong on the way, at most ten polls time out.
* `never_acked` — a call that begins with no datagram left over never returns `true`.
* `unacked` — every login is refused in some run in which nothing goes wrong.
-/

namespace Inferno.Handshake

open Machine CStr Datagrams Inferno.Login Inferno.Tokens

/-- The chat server: its members, the locals of the call of `receive_new` it is in, with
`buffer` as the loop has left it, the datagrams its socket holds, and those the loop has
taken from there. -/
structure ChatServer where
  store : Store
  locals : Locals
  buffer : Bytes
  inbox : List Bytes
  processed : List Bytes

/-- The two servers and the channels between them. -/
structure System (A : Type*) where
  login : Peers A
  /-- The queue of `chat_sock`: senders and datagrams. -/
  socket : List (A × Bytes)
  toChat : List Bytes
  toLogin : List (A × Bytes)
  chat : ChatServer

/-- What happens in the system. -/
inductive Event where
  /-- `chat_server_auth` is called, and `sendto` returns `sent`. -/
  | call (contents : Contents) (sent : ℤ) (t0 : Timeval)
  /-- It goes through its loop once. -/
  | poll (t1 : Timeval) (sent : ℤ) (t0 : Timeval)
  /-- Something happens to a datagram on its way to the chat server. -/
  | toChat (t : Transit)
  /-- Something happens to a datagram on its way to the login server. -/
  | toLogin (t : Transit)
  /-- `receive_new` goes through its loop once. -/
  | receive (tv : Timeval)
  /-- `receive_new` returns, `scrub_list` runs, and `update` calls `receive_new` again. -/
  | turn (locals : Locals) (tv : Timeval)

/-- One iteration of `receive_new`'s loop. It sends nothing. -/
def ChatServer.receive (c : ChatServer) (tv : Timeval) : Option ChatServer :=
  match c.inbox with
  | [] => none
  | d :: inbox =>
    some
      { c with
        store := (receiveLoop c.locals.afterToken c.locals.afterUname c.buffer [(d, tv)]).foldl record c.store
        buffer := recvfrom c.buffer (strlen c.buffer) d
        inbox := inbox
        processed := c.processed ++ [d] }

/-- The iterations of one call of `receive_new` are its loop over the datagrams they take. -/
theorem run_receive (c : ChatServer) (ds : List (Bytes × Timeval)) (rest : List Bytes)
    (h : c.inbox = ds.map Prod.fst ++ rest) :
    ∃ c', run ChatServer.receive c (ds.map Prod.snd) = some c' ∧ c'.inbox = rest ∧
      c'.processed = c.processed ++ ds.map Prod.fst ∧
      c'.store = (receiveLoop c.locals.afterToken c.locals.afterUname c.buffer ds).foldl record c.store := by
  induction ds generalizing c with
  | nil => exact ⟨c, rfl, h, (List.append_nil _).symm, rfl⟩
  | cons d ds ih =>
    obtain ⟨datagram, tv⟩ := d
    rw [List.map_cons, List.cons_append] at h
    obtain ⟨c', hrun, hinbox, hprocessed, hstore⟩ := ih
      { c with
        store := (receiveLoop c.locals.afterToken c.locals.afterUname c.buffer [(datagram, tv)]).foldl record c.store
        buffer := recvfrom c.buffer (strlen c.buffer) datagram
        inbox := ds.map Prod.fst ++ rest
        processed := c.processed ++ [datagram] } rfl
    refine ⟨c', ?_, hinbox, ?_, hstore⟩
    · simp only [List.map_cons, run, ChatServer.receive, h]
      exact hrun
    · rw [hprocessed, List.append_assoc, List.singleton_append, List.map_cons]

/-- From the end of one call of `receive_new` into the next. This sends nothing either. -/
def ChatServer.turn (c : ChatServer) (locals : Locals) (tv : Timeval) : Option ChatServer :=
  (scrubList c.store tv).map fun store =>
    { c with store := store, locals := locals, buffer := clear locals.buffer }

variable {A : Type*} [DecidableEq A] (chatAddr : A) (a : Auth)

/-- The poll that `chat_server_auth` makes of its socket. -/
def System.pollOf (s : System A) (t1 : Timeval) (sent : ℤ) (t0 : Timeval) : Poll A :=
  ⟨s.socket.head?, t1, sent, t0⟩

/-- The datagrams of an event that go to the chat server, if `sendto` returns `sent`. -/
def System.outgoing (s : System A) (e : AuthEvent A) (sent : ℤ) : List Bytes :=
  if 0 < sent then ((s.login.sends e).filter (·.dst = chatAddr)).map (·.contents) else []

/-- The login server takes a step. -/
def System.auth (s : System A) (e : AuthEvent A) (sent : ℤ) : Option (System A) :=
  (authStep s.login e).map fun login => { s with login := login, toChat := s.toChat ++ s.outgoing chatAddr e sent }

/-- One event, while `chat_server_auth(a.token, a.username)` is called once. -/
def step (s : System A) : Event → Option (System A)
  | .call contents sent t0 =>
    match s.login.status with
    | .idle => s.auth chatAddr (.chatServerAuth contents a.token a.username sent t0) sent
    | _ => none
  | .poll t1 sent t0 =>
    (s.auth chatAddr (.poll .chatSock (s.pollOf t1 sent t0)) sent).map fun s' => { s' with socket := s.socket.tail }
  | .toChat t =>
    (t.apply s.toChat).map fun (arrived, toChat) =>
      { s with toChat := toChat, chat.inbox := s.chat.inbox ++ arrived }
  | .toLogin t =>
    (t.apply s.toLogin).map fun (arrived, toLogin) =>
      { s with toLogin := toLogin, socket := s.socket ++ arrived }
  | .receive tv => (s.chat.receive tv).map fun chat => { s with chat := chat }
  | .turn locals tv => (s.chat.turn locals tv).map fun chat => { s with chat := chat }

/-- The system before the call: the addresses, and what is left over from earlier ones. -/
def System.start (addr : Sock → A) (socket : List (A × Bytes)) (toChat : List Bytes)
    (toLogin : List (A × Bytes)) (chat : ChatServer) : System A :=
  ⟨⟨addr, .idle⟩, socket, toChat, toLogin, { chat with processed := [] }⟩

/-! ### What the hand-over promises -/

/-- A poll has been made. -/
def Polled (es : List Event) : Prop := ∃ t1 sent t0, .poll t1 sent t0 ∈ es

/-- Everything sent has arrived and the chat server has processed what was sent to it. -/
def System.Drained (s : System A) : Prop := s.toChat = [] ∧ s.chat.inbox = [] ∧ s.toLogin = []

/-- An event, after the events `es`, at which nothing goes wrong: sending succeeds, the
channels deliver in order, and a poll that is not the first finds everything drained. -/
def ReliableStep (es : List Event) (s : System A) : Event → Prop
  | .call _ sent _ => 0 < sent
  | .poll t1 sent t0 =>
    (s.login.sends (.poll .chatSock (s.pollOf t1 sent t0)) ≠ [] → 0 < sent) ∧ (Polled es → s.Drained)
  | .toChat t => t = .carry 0
  | .toLogin t => t = .carry 0
  | _ => True

/-- A run in which nothing goes wrong. -/
def Reliable (s₀ : System A) (es : List Event) : Prop :=
  ∀ pre e post s, es = pre ++ e :: post → run (step chatAddr a) s₀ pre = some s → ReliableStep pre s e

/-- The hand-over is a correct handshake: at every point of the run, if the call has returned
`true` the chat server has processed the datagram, and if nothing has gone wrong the call
has not returned `false`. -/
def Handshakes (s₀ : System A) (es : List Event) : Prop :=
  ∀ pre post s, es = pre ++ post → run (step chatAddr a) s₀ pre = some s →
    (s.login.status = .returned true → a.token ++ a.username ∈ s.chat.processed) ∧
      (Reliable chatAddr a s₀ pre → s.login.status ≠ .returned false)

/-- A poll that finds no ACK more than half a second after the last datagram was sent. -/
def System.timesOut (s : System A) : Event → Bool
  | .poll t1 sent t0 =>
    match s.login.status with
    | .waiting _ w => (s.pollOf t1 sent t0).retries w.t0
    | _ => false
  | _ => false

/-- How many polls of a run time out. -/
def timeouts (s₀ : System A) (es : List Event) : ℕ := count (step chatAddr a) System.timesOut s₀ es

/-- What a run must be like for the hand-over to be a correct handshake. -/
structure Suits (s₀ : System A) (es : List Event) : Prop where
  /-- A poll finds a datagram that is not empty only after the chat server has processed
  the one for this login. -/
  noneLeft : ∀ pre t1 sent t0 post s w, es = pre ++ .poll t1 sent t0 :: post →
    run (step chatAddr a) s₀ pre = some s → s.login.status = .waiting .chatSock w →
    ∀ x ∈ s.socket.head?, x.2 ≠ [] → a.token ++ a.username ∈ s.chat.processed
  /-- If nothing goes wrong, at most ten polls time out. -/
  inTime : ∀ pre post s, es = pre ++ post → run (step chatAddr a) s₀ pre = some s →
    Reliable chatAddr a s₀ pre → timeouts chatAddr a s₀ pre ≤ 10

variable {chatAddr a} {s₀ s s' : System A} {es : List Event}

/-! ### What one step does -/

/-- A step of the login server takes its own step, and changes nothing else but the channel. -/
theorem auth_eq_some {e : AuthEvent A} {sent : ℤ} (h : s.auth chatAddr e sent = some s') :
    authStep s.login e = some s'.login ∧ s'.socket = s.socket ∧ s'.toLogin = s.toLogin ∧ s'.chat = s.chat := by
  obtain ⟨login, hlogin, rfl⟩ := Option.map_eq_some_iff.mp h
  exact ⟨hlogin, rfl, rfl, rfl⟩

/-- A poll is made of a call that waits, and takes it once through its loop. -/
theorem step_poll {t1 t0 : Timeval} {sent : ℤ} (h : step chatAddr a s (.poll t1 sent t0) = some s') :
    ∃ w, s.login.status = .waiting .chatSock w ∧
      s'.login.status = w.iterate .chatSock (s.pollOf t1 sent t0) ∧ s'.chat = s.chat := by
  obtain ⟨s₁, h₁, rfl⟩ := Option.map_eq_some_iff.mp h
  obtain ⟨hstep, -, -, hchat⟩ := auth_eq_some h₁
  simp only [authStep, Peers.stepWith] at hstep
  split at hstep
  · next sock w hw =>
    split_ifs at hstep with hsock
    subst hsock
    rw [Option.some.injEq] at hstep
    exact ⟨w, hw, by rw [← hstep], hchat⟩
  · cases hstep

/-- **What a step does to the call**: it is made, it goes through its loop, or it stays where
it is, and the chat server keeps what it has processed. -/
theorem step_status {e : Event} (h : step chatAddr a s e = some s') :
    (∃ contents sent t0, e = .call contents sent t0 ∧ s.login.status = .idle ∧
      s'.login.status = chatServerAuth contents a.token a.username sent t0) ∨
    (∃ t1 sent t0 w, e = .poll t1 sent t0 ∧ s.login.status = .waiting .chatSock w ∧
      s'.login.status = w.iterate .chatSock (s.pollOf t1 sent t0) ∧ s'.chat = s.chat) ∨
    (s'.login.status = s.login.status ∧ s.timesOut e = false ∧ s.chat.processed ⊆ s'.chat.processed) := by
  cases e with
  | call contents sent t0 =>
    simp only [step] at h
    split at h
    · next hidle =>
      obtain ⟨hstep, -, -, -⟩ := auth_eq_some h
      simp only [authStep, Peers.stepWith, Peers.enter, hidle, Option.some.injEq] at hstep
      exact Or.inl ⟨contents, sent, t0, rfl, hidle, by rw [← hstep]⟩
    · cases h
  | poll t1 sent t0 =>
    obtain ⟨w, hw⟩ := step_poll h
    exact Or.inr (Or.inl ⟨t1, sent, t0, w, rfl, hw⟩)
  | toChat t =>
    obtain ⟨x, -, rfl⟩ := Option.map_eq_some_iff.mp h
    exact Or.inr (Or.inr ⟨rfl, rfl, List.Subset.refl _⟩)
  | toLogin t =>
    obtain ⟨x, -, rfl⟩ := Option.map_eq_some_iff.mp h
    exact Or.inr (Or.inr ⟨rfl, rfl, List.Subset.refl _⟩)
  | receive tv =>
    obtain ⟨c, hc, rfl⟩ := Option.map_eq_some_iff.mp h
    refine Or.inr (Or.inr ⟨rfl, rfl, ?_⟩)
    simp only [ChatServer.receive] at hc
    split at hc
    · cases hc
    · cases hc
      exact List.subset_append_left _ _
  | turn locals tv =>
    obtain ⟨c, hc, rfl⟩ := Option.map_eq_some_iff.mp h
    refine Or.inr (Or.inr ⟨rfl, rfl, ?_⟩)
    obtain ⟨store, -, rfl⟩ := Option.map_eq_some_iff.mp hc
    exact List.Subset.refl _

/-- A poll can be made of every call that waits. -/
theorem isSome_step_poll {w : Waiting} (h : s.login.status = .waiting .chatSock w) (t1 : Timeval) (sent : ℤ)
    (t0 : Timeval) : (step chatAddr a s (.poll t1 sent t0)).isSome := by
  simp [step, System.auth, authStep, Peers.stepWith, h]

/-! ### The timeouts of a run -/

theorem Reliable.prefix {es₁ es₂ : List Event} (h : Reliable chatAddr a s₀ (es₁ ++ es₂)) :
    Reliable chatAddr a s₀ es₁ := by
  intro pre e post s hes
  exact h pre e (post ++ es₂) s (by rw [hes, List.append_assoc, List.cons_append])

/-- The last step of a run in which nothing goes wrong. -/
theorem Reliable.last {e : Event} (h : Reliable chatAddr a s₀ (es ++ [e]))
    (hrun : run (step chatAddr a) s₀ es = some s) : ReliableStep es s e := h es e [] s rfl hrun

/-- **Every run keeps count of its timeouts.** -/
theorem counts_of_run (hidle : s₀.login.status = .idle) (h : run (step chatAddr a) s₀ es = some s) :
    Counts (timeouts chatAddr a s₀ es) (Reliable chatAddr a s₀ es) s.login.status := by
  refine run_history
    (P := fun es s => Counts (timeouts chatAddr a s₀ es) (Reliable chatAddr a s₀ es) s.login.status)
    (by rw [hidle]; rfl) ?_ h
  intro es e s s' hrun ih hstep
  have hcount : timeouts chatAddr a s₀ (es ++ [e]) = timeouts chatAddr a s₀ es + if s.timesOut e then 1 else 0 :=
    count_concat hrun
  rcases step_status hstep with ⟨contents, sent, t0, rfl, hs, hs'⟩ | ⟨t1, sent, t0, w, rfl, hs, hs', -⟩ | ⟨hs', hno, -⟩
  · have hn : timeouts chatAddr a s₀ es = 0 := by
      rw [hs] at ih
      exact ih
    have hno : s.timesOut (.call contents sent t0) = false := rfl
    rw [hcount, hn, hno, hs', chatServerAuth, serverAuth]
    by_cases hsent : sent ≤ 0
    · rw [if_pos hsent]
      exact fun hrel => absurd (hrel.last hrun) (not_lt.mpr hsent)
    · rw [if_neg hsent]
      exact ⟨rfl, Nat.zero_le _⟩
  · have hout : s.timesOut (.poll t1 sent t0) = (s.pollOf t1 sent t0).retries w.t0 := by
      simp only [System.timesOut, hs]
    rw [hcount, hout, hs']
    rw [hs] at ih
    refine counts_iterate ih fun hrel hretries => (hrel.last hrun).1 ?_
    simp [Peers.sends, Peers.sendsWith, hs, hretries]
  · rw [hcount, hno, hs']
    cases hst : s.login.status with
    | idle => rw [hst] at ih; exact ih
    | waiting sock w => rw [hst] at ih; exact ih
    | returned result =>
      rw [hst] at ih
      cases result with
      | true => exact ih
      | false => exact fun hrel => ih hrel.prefix

/-! ### When the hand-over is a correct handshake -/

/-- A call that has returned `true` took a datagram that is not empty. -/
theorem processed_of_returned (hidle : s₀.login.status = .idle)
    (hleft : ∀ pre t1 sent t0 post s w, es = pre ++ .poll t1 sent t0 :: post →
      run (step chatAddr a) s₀ pre = some s → s.login.status = .waiting .chatSock w →
      ∀ x ∈ s.socket.head?, x.2 ≠ [] → a.token ++ a.username ∈ s.chat.processed)
    (hrun : run (step chatAddr a) s₀ es = some s) (hret : s.login.status = .returned true) :
    a.token ++ a.username ∈ s.chat.processed := by
  refine run_history (P := fun pre s => (∃ post, es = pre ++ post) → s.login.status = .returned true →
    a.token ++ a.username ∈ s.chat.processed) ?_ ?_ hrun ⟨[], (List.append_nil es).symm⟩ hret
  · intro _ hret
    rw [hidle] at hret
    cases hret
  · rintro pre e s s' hrun ih hstep ⟨post, hes⟩ hret
    rw [List.append_assoc, List.singleton_append] at hes
    rcases step_status hstep with ⟨_, _, _, rfl, -, hs'⟩ | ⟨t1, sent, t0, w, rfl, hs, hs', hchat⟩ | ⟨hs', -, hsub⟩
    · rw [hret, chatServerAuth, serverAuth] at hs'
      split_ifs at hs' with hsent
      cases hs'
    · obtain ⟨x, hx, hne⟩ := iterate_eq_true_iff.mp (hs'.symm.trans hret)
      rw [hchat]
      exact hleft pre t1 sent t0 post s w hes hrun hs x hx hne
    · exact hsub (ih ⟨e :: post, hes⟩ (hs'.symm.trans hret))

/-- **When the hand-over is a correct handshake.** -/
theorem handshakes_iff (chatAddr : A) (a : Auth) (addr : Sock → A) (socket : List (A × Bytes)) (toChat : List Bytes)
    (toLogin : List (A × Bytes)) (chat : ChatServer) (es : List Event) :
    Handshakes chatAddr a (.start addr socket toChat toLogin chat) es ↔
      Suits chatAddr a (.start addr socket toChat toLogin chat) es := by
  generalize hs₀ : System.start addr socket toChat toLogin chat = s₀
  have hidle : s₀.login.status = .idle := by
    rw [← hs₀]
    rfl
  constructor
  · intro h
    refine ⟨?_, ?_⟩
    · intro pre t1 sent t0 post s w hes hrun hs x hx hne
      obtain ⟨s', hstep⟩ : ∃ s', step chatAddr a s (.poll t1 sent t0) = some s' :=
        Option.isSome_iff_exists.mp (isSome_step_poll hs t1 sent t0)
      obtain ⟨hret, -⟩ := h (pre ++ [.poll t1 sent t0]) post s' (by simp [hes])
        (run_concat_eq_some.mpr ⟨s, hrun, hstep⟩)
      obtain ⟨w', -, hstatus, hchat⟩ := step_poll hstep
      rw [← hchat]
      exact hret (hstatus.trans (iterate_eq_true_iff.mpr ⟨x, hx, hne⟩))
    · intro pre post s hes hrun hrel
      have hcounts := counts_of_run hidle hrun
      have hstatus := (h pre post s hes hrun).2 hrel
      cases hst : s.login.status with
      | idle => rw [hst] at hcounts; exact hcounts.trans_le (by omega)
      | waiting sock w => rw [hst] at hcounts; exact hcounts.2
      | returned result =>
        cases result with
        | true => rw [hst] at hcounts; exact hcounts
        | false => exact absurd hst hstatus
  · rintro ⟨hleft, htime⟩ pre post s hes hrun
    refine ⟨?_, fun hrel hst => ?_⟩
    · refine processed_of_returned hidle ?_ hrun
      intro pre' t1 sent t0 post' s' w hpre
      exact hleft pre' t1 sent t0 (post' ++ post) s' w (by rw [hes, hpre, List.append_assoc, List.cons_append])
    · have hcounts := counts_of_run hidle hrun
      rw [hst] at hcounts
      have := htime pre post s hes hrun hrel
      have := hcounts hrel
      omega

/-! ### The chat server does not answer -/

/-- With nothing on its way to the login server, nothing ever is. -/
theorem nothing_arrives {e : Event} (hsocket : s.socket = []) (htoLogin : s.toLogin = [])
    (h : step chatAddr a s e = some s') : s'.socket = [] ∧ s'.toLogin = [] := by
  cases e with
  | call contents sent t0 =>
    simp only [step] at h
    split at h
    · obtain ⟨-, h₁, h₂, -⟩ := auth_eq_some h
      exact ⟨h₁.trans hsocket, h₂.trans htoLogin⟩
    · cases h
  | poll t1 sent t0 =>
    obtain ⟨s₁, h₁, rfl⟩ := Option.map_eq_some_iff.mp h
    obtain ⟨-, -, h₂, -⟩ := auth_eq_some h₁
    exact ⟨by rw [hsocket]; rfl, h₂.trans htoLogin⟩
  | toChat t =>
    obtain ⟨x, -, rfl⟩ := Option.map_eq_some_iff.mp h
    exact ⟨hsocket, htoLogin⟩
  | toLogin t =>
    rw [step, htoLogin, Transit.apply_nil] at h
    cases h
  | receive tv =>
    obtain ⟨c, -, rfl⟩ := Option.map_eq_some_iff.mp h
    exact ⟨hsocket, htoLogin⟩
  | turn locals tv =>
    obtain ⟨c, -, rfl⟩ := Option.map_eq_some_iff.mp h
    exact ⟨hsocket, htoLogin⟩

/-- **No login is acknowledged**: a call that begins with no datagram left over never returns
`true`. -/
theorem never_acked (addr : Sock → A) (toChat : List Bytes) (chat : ChatServer)
    (hrun : run (step chatAddr a) (.start addr [] toChat [] chat) es = some s) :
    s.login.status ≠ .returned true := by
  refine (run_history (P := fun _ s => (s.socket = [] ∧ s.toLogin = []) ∧ s.login.status ≠ .returned true)
    ⟨⟨rfl, rfl⟩, by simp [System.start]⟩ ?_ hrun).2
  rintro es e s s' - ⟨⟨hsocket, htoLogin⟩, hne⟩ hstep
  refine ⟨nothing_arrives hsocket htoLogin hstep, fun hret => ?_⟩
  rcases step_status hstep with ⟨_, _, _, -, -, hs'⟩ | ⟨t1, sent, t0, w, -, -, hs', -⟩ | ⟨hs', -, -⟩
  · rw [hret, chatServerAuth, serverAuth] at hs'
    split_ifs at hs'
    cases hs'
  · obtain ⟨x, hx, -⟩ := iterate_eq_true_iff.mp (hs'.symm.trans hret)
    rw [System.pollOf, hsocket] at hx
    cases hx
  · exact hne (hs'.symm.trans hret)

/-- `sendto` takes the whole datagram. -/
def whole (a : Auth) : ℤ := (a.token ++ a.username).length

/-- The datagram arrives, the chat server processes it, and a second later the login server
sends it again. -/
def round (a : Auth) (n : ℕ) : List Event :=
  [.toChat (.carry 0), .receive ⟨n, 0⟩, .poll ⟨n + 1, 0⟩ (whole a) ⟨n + 1, 0⟩]

/-- A call and `n` rounds of waiting for its ACK. -/
def rounds (a : Auth) : ℕ → List Event
  | 0 => [.call .zeroed (whole a) ⟨0, 0⟩]
  | n + 1 => rounds a n ++ round a n

/-- The call after `n` rounds. -/
def tried (a : Auth) (n : ℕ) : Status :=
  if 10 < n then .returned false else .waiting .chatSock ⟨a.token ++ a.username, n, ⟨n, 0⟩⟩

/-- A system with nothing on its way to the login server. -/
def silent (addr : Sock → A) (status : Status) (toChat : List Bytes) (chat : ChatServer) : System A :=
  ⟨⟨addr, status⟩, [], toChat, [], chat⟩

theorem whole_pos (a : Auth) : 0 < whole a := by
  have := a.length_pos
  rw [whole, List.length_append]
  omega

/-- A second is more than half a second. -/
theorem elapsedTime_succ (n : ℕ) : elapsedTime ⟨n, 0⟩ ⟨n + 1, 0⟩ = 1000000 := by
  rw [elapsedTime, Timeval.elapsed, show ((n + 1 : ℤ) - n) * 1000000 + (0 - 0) = 1000000 by omega]
  rfl

theorem Reliable.nil : Reliable chatAddr a s₀ [] := by
  intro pre e post s hes
  simp at hes

theorem Reliable.concat {e : Event} (h : Reliable chatAddr a s₀ es) (hrun : run (step chatAddr a) s₀ es = some s)
    (he : ReliableStep es s e) : Reliable chatAddr a s₀ (es ++ [e]) := by
  intro pre e' post s' hes hrun'
  rcases List.eq_nil_or_concat post with rfl | ⟨post, x, rfl⟩
  · obtain ⟨rfl, hx⟩ := List.append_inj' hes rfl
    obtain ⟨rfl, -⟩ := List.cons.inj hx
    obtain rfl : s = s' := Option.some.inj (hrun.symm.trans hrun')
    exact he
  · rw [List.concat_eq_append, ← List.cons_append, ← List.append_assoc] at hes
    obtain ⟨rfl, -⟩ := List.append_inj' hes rfl
    exact h pre e' post s' rfl hrun'

/-- A poll that finds nothing sends the datagram once more; the eleventh gives up. -/
theorem step_silent_poll (addr : Sock → A) {n : ℕ} (hn : n ≤ 10) (chat : ChatServer) :
    step (addr .chatSock) a (silent addr (tried a n) [] chat) (.poll ⟨n + 1, 0⟩ (whole a) ⟨n + 1, 0⟩) =
      some (silent addr (tried a (n + 1)) [a.token ++ a.username] chat) := by
  have hwait : tried a n = .waiting .chatSock ⟨a.token ++ a.username, n, ⟨n, 0⟩⟩ := if_neg (by omega)
  have hsilent : (Poll.mk none ⟨n + 1, 0⟩ (whole a) ⟨n + 1, 0⟩ : Poll A).retries ⟨n, 0⟩ = true := by
    simp [Poll.retries, Poll.acked, elapsedTime_succ]
  have hiterate : (Waiting.mk (a.token ++ a.username) n ⟨n, 0⟩).iterate .chatSock
      (Poll.mk none ⟨n + 1, 0⟩ (whole a) ⟨n + 1, 0⟩ : Poll A) = tried a (n + 1) := by
    rw [Waiting.iterate, if_neg (by simp [Poll.acked]), if_pos hsilent, if_neg (not_le.mpr (whole_pos a)), tried]
    simp
  rw [hwait]
  simp [step, System.auth, authStep, Peers.stepWith, System.pollOf, silent, hiterate, System.outgoing, Peers.sends,
    Peers.sendsWith, hsilent, whole_pos a, Poll.stored]

/-- After `n` rounds in which nothing goes wrong the datagram is on its way again. -/
theorem run_rounds (addr : Sock → A) (chat : ChatServer) (hinbox : chat.inbox = []) {n : ℕ} (hn : n ≤ 11) :
    ∃ chat' : ChatServer, chat'.inbox = [] ∧
      run (step (addr .chatSock) a) (.start addr [] [] [] chat) (rounds a n) =
        some (silent addr (tried a n) [a.token ++ a.username] chat') ∧
      Reliable (addr .chatSock) a (.start addr [] [] [] chat) (rounds a n) := by
  induction n with
  | zero =>
    refine ⟨{ chat with processed := [] }, hinbox, ?_, Reliable.nil.concat rfl (whole_pos a)⟩
    have hsent : ¬ whole a ≤ 0 := not_le.mpr (whole_pos a)
    have hd : authContents .zeroed a.token a.username = a.token ++ a.username := a.datagram_eq _
    simp [rounds, run, step, System.start, System.auth, authStep, Peers.stepWith, Peers.enter, chatServerAuth,
      serverAuth, System.outgoing, Peers.sends, Peers.sendsWith, silent, tried, hsent, whole_pos a, hd]
  | succ n ih =>
    obtain ⟨c, hc, hrun, hrel⟩ := ih (by omega)
    -- the datagram arrives, is processed, and a second passes
    have hcarry : step (addr .chatSock) a (silent addr (tried a n) [a.token ++ a.username] c) (.toChat (.carry 0)) =
        some (silent addr (tried a n) [] { c with inbox := [a.token ++ a.username] }) := by
      simp [step, silent, Transit.carry_zero, hc]
    obtain ⟨c', hc', hreceive⟩ : ∃ c' : ChatServer, c'.inbox = [] ∧
        step (addr .chatSock) a (silent addr (tried a n) [] { c with inbox := [a.token ++ a.username] })
          (.receive ⟨n, 0⟩) = some (silent addr (tried a n) [] c') := ⟨_, rfl, rfl⟩
    have hpoll := step_silent_poll (a := a) addr (show n ≤ 10 by omega) c'
    have hrun₁ := run_concat_eq_some.mpr ⟨_, hrun, hcarry⟩
    have hrun₂ := run_concat_eq_some.mpr ⟨_, hrun₁, hreceive⟩
    have hrun₃ := run_concat_eq_some.mpr ⟨_, hrun₂, hpoll⟩
    have hrel₁ : Reliable (addr .chatSock) a _ (rounds a n ++ [.toChat (.carry 0)]) := hrel.concat hrun rfl
    have hrel₂ : Reliable (addr .chatSock) a _ (_ ++ [.receive ⟨n, 0⟩]) := hrel₁.concat hrun₁ trivial
    have hrel₃ : Reliable (addr .chatSock) a _ (_ ++ [.poll ⟨n + 1, 0⟩ (whole a) ⟨n + 1, 0⟩]) :=
      hrel₂.concat hrun₂ ⟨fun _ => whole_pos a, fun _ => ⟨rfl, hc', rfl⟩⟩
    simp only [List.append_assoc, List.singleton_append] at hrun₃ hrel₃
    exact ⟨c', hc', hrun₃, hrel₃⟩

/-- **Every login is refused in some run in which nothing goes wrong**: eleven rounds of
waiting for the ACK that is never sent. -/
theorem unacked (a : Auth) (addr : Sock → A) (chat : ChatServer) (hinbox : chat.inbox = []) :
    ¬ Handshakes (addr .chatSock) a (.start addr [] [] [] chat) (rounds a 11) := by
  obtain ⟨c, -, hrun, hrel⟩ := run_rounds (a := a) addr chat hinbox (n := 11) le_rfl
  intro h
  exact (h (rounds a 11) [] _ (List.append_nil _).symm hrun).2 hrel rfl

/-- A chat server that has just started, its buffers zeroed. -/
def freshChat : ChatServer := ⟨.empty, .zeroed, clear Locals.zeroed.buffer, [], []⟩

/-- `chat_server_auth` takes two bytes left over in the socket for its ACK, and `bob` is
let in unheard; with an empty socket, he is refused though the chat server was told
eleven times. -/
theorem bob_let_in_and_refused :
    ¬ Handshakes 1 bob (.start (fun _ => 1) [(1, [0, 0])] [] [] freshChat)
        [.call .zeroed 67 ⟨0, 0⟩, .poll ⟨0, 0⟩ 0 ⟨0, 0⟩] ∧
      ¬ Handshakes 1 bob (.start (fun _ => 1) [] [] [] freshChat) (rounds bob 11) := by
  refine ⟨fun h => ?_, unacked bob (fun _ => 1) freshChat rfl⟩
  obtain ⟨hret, -⟩ := h [.call .zeroed 67 ⟨0, 0⟩, .poll ⟨0, 0⟩ 0 ⟨0, 0⟩] [] _ rfl rfl
  exact absurd (hret rfl) (List.not_mem_nil)

end Inferno.Handshake
