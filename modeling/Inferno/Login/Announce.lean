import Inferno.Login.TestClient

/-!
# Announcing the secure port

`login_user` and `recv_password` send the number of their port before they make the socket
that is to listen there. The test client dials the port as soon as it has the number, and
nothing it waits for comes after the socket listens.

A run is any interleaving of the steps of a child of the server and of the test client, on
one connection. What the client receives has been sent before.

## What is proved

* `dialsListening_iff` — the client only ever dials a port that is listening in exactly those
  runs in which it does not dial between the server's `send` and its first `BIO_do_accept`.

## Scope

What the server does once its port is listening is left out, and so is what the client sends,
apart from that the server receives it later. A client that gives up has sent all it is going
to.
-/

namespace Inferno.Login

open Machine

/-- How far the child of the server is. -/
inductive ServerStage where
  /-- In `get_request_type`. -/
  | accepted
  /-- In `signup_user`, at the username. -/
  | entered
  /-- It has not sent the port. -/
  | ready
  /-- It has sent the port and not called `BIO_new_accept`. -/
  | announced
  /-- It has not called `BIO_do_accept` for the first time. -/
  | made
  /-- The port is listening. -/
  | listening
  /-- It has returned without sending the port. -/
  | left
  /-- It has returned after sending the port, which does not listen. -/
  | gaveUp
  deriving DecidableEq, Repr

/-- The two parties, and what the server has sent. -/
structure Dialogue where
  server : ServerStage
  stream : Bytes
  client : Client

/-- A client has connected; `sslPort` and `ack` are what is on its stack. -/
def Dialogue.start (sslPort ack : Bytes) : Dialogue := ⟨.accepted, [], .start sslPort ack⟩

/-- The number that the server sends, as every call does. -/
def Service.port (service : Service) : Int16 := sslPort (service.handler.takePort .constructed).1

/-- What the server does next; each `sent` is whether a `send` succeeds. -/
inductive ServerStep where
  /-- `get_request_type`, whose `recv` may fail. -/
  | request (received sent : Bool)
  /-- `signup_user` is out of patience with the username. -/
  | timeout (sent : Bool)
  /-- `signup_user` is done with the username, or its `recv` of the length failed and what is in the
  variable has it skip the username. -/
  | username (received : Bool)
  | send (sent : Bool)
  | newAccept (succeeds : Bool)
  | doAccept (succeeds : Bool)

/-- One step of the server. -/
def Dialogue.serverStep (service : Service) (s : Dialogue) : ServerStep → Option Dialogue
  | .request received sent =>
    match s.server with
    | .accepted =>
      if received then
        if s.client.stage = .requesting then none
        else if sent then
          some { s with
            server := match service with | .login => .ready | .signup => .entered
            stream := s.stream ++ shortBytes 1 }
        else some { s with server := .left }
      else some { s with server := .left, stream := if sent then s.stream ++ shortBytes 0 else s.stream }
    | _ => none
  | .timeout sent =>
    match s.server with
    | .entered => some { s with stream := if sent then s.stream ++ shortBytes (-1) else s.stream }
    | _ => none
  | .username received =>
    match s.server with
    | .entered =>
      if received ∧ (s.client.stage = .requesting ∨ s.client.stage = .naming) then none
      else some { s with server := .ready }
    | _ => none
  | .send sent =>
    match s.server with
    | .ready =>
      if sent then some { s with server := .announced, stream := s.stream ++ shortBytes service.port }
      else some { s with server := .left }
    | _ => none
  | .newAccept succeeds =>
    match s.server with
    | .announced => some { s with server := if succeeds then .made else .gaveUp }
    | _ => none
  | .doAccept succeeds =>
    match s.server with
    | .made => some { s with server := if succeeds then .listening else .gaveUp }
    | _ => none

/-- What happens next. -/
inductive DialogueEvent where
  | server (e : ServerStep)
  | client (e : ClientStep)

/-- One step of one of the parties. -/
def Dialogue.step (service : Service) (s : Dialogue) : DialogueEvent → Option Dialogue
  | .server e => s.serverStep service e
  | .client e => (s.client.step service s.stream e).map fun client => { s with client := client }

/-- The client is at `BIO_do_connect`, with the port that the server sends. -/
def Dialogue.Dials (service : Service) (s : Dialogue) : DialogueEvent → Prop
  | .client (.connect _) => s.client.stage = .dialing ∧ s.client.sslPort = shortBytes service.port
  | _ => False

/-- The port that the client dials is listening. -/
def DialsListening (service : Service) (s : Dialogue) (e : DialogueEvent) : Prop :=
  s.Dials service e → s.server = .listening

/-- The client does not dial when the server has sent the port and not listened, be it that it is
about to or that it has returned. -/
def DialsLater (service : Service) (s : Dialogue) (e : DialogueEvent) : Prop :=
  s.Dials service e → s.server ≠ .announced ∧ s.server ≠ .made ∧ s.server ≠ .gaveUp

/-- The server has not sent the port yet, or never. -/
def ServerStage.Silent (s : ServerStage) : Prop := s = .accepted ∨ s = .entered ∨ s = .ready ∨ s = .left

/-- What is true in every state of a run: what the client has is from the server, and before the
port there are only zeros, ones and, after a timeout, bytes of ones. -/
structure Dialogue.Sound (s : Dialogue) : Prop where
  client : s.client.Sound s.stream
  silent : s.server.Silent → ∀ b ∈ s.stream, b = 0 ∨ b = 1 ∨ b = 255

theorem Dialogue.Sound.start (sslPort ack : Bytes) : (Dialogue.start sslPort ack).Sound :=
  ⟨.start sslPort ack, by simp [Dialogue.start]⟩

/-- The two bytes of the `short`s that are not the port. -/
theorem mem_shortBytes {code : Int16} (h : code = 0 ∨ code = 1 ∨ code = -1) {b : UInt8} (hb : b ∈ shortBytes code) :
    b = 0 ∨ b = 1 ∨ b = 255 := by
  rcases h with rfl | rfl | rfl
  · have hbytes : shortBytes 0 = [0, 0] := rfl
    rw [hbytes] at hb
    simp at hb
    exact Or.inl hb
  · have hbytes : shortBytes 1 = [0, 1] := rfl
    rw [hbytes] at hb
    simp at hb
    exact hb.imp_right Or.inl
  · have hbytes : shortBytes (-1) = [255, 255] := rfl
    rw [hbytes] at hb
    simp at hb
    exact Or.inr (Or.inr hb)

/-- **What the server does**: it adds to what it has sent, and as long as it is silent about the port
it was so before and sends only the `short`s `0`, `1` and `-1`. -/
theorem serverStep_spec {service : Service} {s s' : Dialogue} {e : ServerStep}
    (h : s.serverStep service e = some s') :
    s'.client = s.client ∧ ∃ more, s'.stream = s.stream ++ more ∧
      (s'.server.Silent → s.server.Silent ∧ ∀ b ∈ more, b = 0 ∨ b = 1 ∨ b = 255) := by
  obtain ⟨server, stream, client⟩ := s
  cases e with
  | request received sent =>
    cases server <;> simp only [Dialogue.serverStep, reduceCtorEq] at h
    cases received with
    | false =>
      cases sent <;> cases h
      · exact ⟨rfl, [], (List.append_nil _).symm, fun _ => ⟨Or.inl rfl, by simp⟩⟩
      · exact ⟨rfl, shortBytes 0, rfl, fun _ => ⟨Or.inl rfl, fun _ => mem_shortBytes (by simp)⟩⟩
    | true =>
      simp only [if_true] at h
      split at h
      · cases h
      · cases sent <;> cases h
        · exact ⟨rfl, [], (List.append_nil _).symm, fun _ => ⟨Or.inl rfl, by simp⟩⟩
        · exact ⟨rfl, shortBytes 1, rfl, fun _ => ⟨Or.inl rfl, fun _ => mem_shortBytes (by simp)⟩⟩
  | timeout sent =>
    cases server <;> simp only [Dialogue.serverStep, reduceCtorEq] at h
    cases sent <;> cases h
    · exact ⟨rfl, [], (List.append_nil _).symm, fun hs => ⟨hs, by simp⟩⟩
    · exact ⟨rfl, shortBytes (-1), rfl, fun hs => ⟨hs, fun _ => mem_shortBytes (by simp)⟩⟩
  | username received =>
    cases server <;> simp only [Dialogue.serverStep, reduceCtorEq] at h
    split at h
    · cases h
    · cases h
      exact ⟨rfl, [], (List.append_nil _).symm, fun _ => ⟨Or.inr (Or.inl rfl), by simp⟩⟩
  | send sent =>
    cases server <;> simp only [Dialogue.serverStep, reduceCtorEq] at h
    cases sent <;> cases h
    · exact ⟨rfl, [], (List.append_nil _).symm, fun _ => ⟨Or.inr (Or.inr (Or.inl rfl)), by simp⟩⟩
    · exact ⟨rfl, shortBytes service.port, rfl, by simp [ServerStage.Silent]⟩
  | newAccept succeeds =>
    cases server <;> simp only [Dialogue.serverStep, reduceCtorEq] at h
    cases h
    exact ⟨rfl, [], (List.append_nil _).symm, by cases succeeds <;> simp [ServerStage.Silent]⟩
  | doAccept succeeds =>
    cases server <;> simp only [Dialogue.serverStep, reduceCtorEq] at h
    cases h
    exact ⟨rfl, [], (List.append_nil _).symm, by cases succeeds <;> simp [ServerStage.Silent]⟩

theorem Dialogue.Sound.step {service : Service} {s s' : Dialogue} {e : DialogueEvent} (hs : s.Sound)
    (h : s.step service e = some s') : s'.Sound := by
  cases e with
  | client e =>
    obtain ⟨client, hstep, rfl⟩ := Option.map_eq_some_iff.mp h
    exact ⟨hs.client.step hstep, hs.silent⟩
  | server e =>
    obtain ⟨hclient, more, hstream, hsilent⟩ := serverStep_spec h
    refine ⟨?_, fun hs' b hb => ?_⟩
    · rw [hclient, hstream]
      exact hs.client.append more
    · rw [hstream, List.mem_append] at hb
      rcases hb with hb | hb
      · exact hs.silent (hsilent hs').1 b hb
      · exact (hsilent hs').2 b hb

/-- **In every state of a run**, `Sound`. -/
theorem Dialogue.Sound.of_run {service : Service} {sslPort ack : Bytes} {es : List DialogueEvent} {s : Dialogue}
    (h : run (Dialogue.step service) (.start sslPort ack) es = some s) : s.Sound :=
  run_history (P := fun _ s => s.Sound) (.start sslPort ack) (fun _ _ _ _ _ ih hstep => ih.step hstep) h

/-- **The client does not guess**: when it dials the port, the server has sent it. -/
theorem not_silent_of_dials {service : Service} {s : Dialogue} {e : DialogueEvent} (hs : s.Sound)
    (h : s.Dials service e) : ¬ s.server.Silent := by
  intro hsilent
  cases e with
  | server e => exact h
  | client e =>
    cases e with
    | connect succeeds =>
      obtain ⟨hstage, hport⟩ := h
      obtain ⟨-, i, b, -, -, hi, hb⟩ := hs.client.sslPort (Or.inr hstage)
      have hlow := hs.silent hsilent b (List.mem_of_getElem? hi)
      rw [hport] at hb
      -- neither of the two ports begins with such a byte
      cases service with
      | login =>
        obtain rfl : 54 = b := Option.some.inj hb
        revert hlow
        simp
      | signup =>
        obtain rfl : 50 = b := Option.some.inj hb
        revert hlow
        simp
    | request | name | recv | prepare | secure => exact h

/-- **When the client only dials what is listening**: when it never dials between the server's
`send` of the port and its first `BIO_do_accept`. -/
theorem dialsListening_iff (service : Service) (sslPort ack : Bytes) (es : List DialogueEvent) :
    EachStep (Dialogue.step service) (DialsListening service) (.start sslPort ack) es ↔
      EachStep (Dialogue.step service) (DialsLater service) (.start sslPort ack) es := by
  have hstep : ∀ s : Dialogue, s.Sound → ∀ e, DialsListening service s e ↔ DialsLater service s e := by
    intro s hs e
    apply forall_congr'
    intro hdials
    have hsent := not_silent_of_dials hs hdials
    cases hstage : s.server <;> simp_all [ServerStage.Silent]
  constructor
  · intro hall pre e post s hes hrun
    apply (hstep s (.of_run hrun) e).mp
    exact hall pre e post s hes hrun
  · intro hall pre e post s hes hrun
    apply (hstep s (.of_run hrun) e).mpr
    exact hall pre e post s hes hrun

/-- A login in which nothing fails, and the client is quicker than the server. -/
def quickClient : List DialogueEvent :=
  [.client (.request true), .server (.request true true), .server (.send true), .client (.recv (some 2)),
    .client (.recv (some 2)), .client (.prepare true)]

/-- It dials when the server has only sent the port. -/
theorem dials_before_listening :
    ¬ EachStep (Dialogue.step .login) (DialsListening .login) (.start [0, 0] [0, 0])
      (quickClient ++ [.client (.connect true)]) := by
  intro h
  have hrun : run (Dialogue.step .login) (.start [0, 0] [0, 0]) quickClient =
      some ⟨.announced, shortBytes 1 ++ shortBytes (Service.port .login),
        ⟨.dialing, 4, shortBytes (Service.port .login), [0, 0]⟩⟩ := rfl
  have hlistening := h quickClient (.client (.connect true)) [] _ rfl hrun ⟨rfl, rfl⟩
  cases hlistening

end Inferno.Login
