import Inferno.Lib.Runs
import Inferno.Login.Credentials

/-!
# The test client

`login` and `signup` of the login server's test client. Both send their request, take two
`short`s from the connection, the second of which is to be the port, and dial it. `signup`
then writes the password and takes a third `short`, which is to say how it went.

The client is one party of the systems of the modules that import this one. What the server
has sent to it is a stream of bytes, of which it has received the first `received`.

## Scope

A `recv` asks for two bytes and may get one. What `login` does on the secure connection, and
all that is printed, is left out.
-/

namespace Inferno.Login

open CStr

/-- The functions of the client. -/
inductive Service where
  | login
  | signup
  deriving DecidableEq, Repr

/-- The function of the server that takes and sends the port. -/
def Service.handler : Service → Handler
  | .login => .loginUser
  | .signup => .recvPassword

/-- A `short` as it is sent, after `htons`. -/
def shortBytes (x : Int16) : Bytes := [UInt8.ofNat (x.toUInt16.toNat / 256), UInt8.ofNat (x.toUInt16.toNat % 256)]

/-- How far the client is. -/
inductive ClientStage where
  /-- It has not sent the service code. -/
  | requesting
  /-- `signup` has not sent the username. -/
  | naming
  /-- It is at the first `recv` of `ssl_port`. -/
  | awaitsACK
  /-- It is at the second. -/
  | awaitsPort
  /-- It has not got as far as `BIO_do_connect`. -/
  | hasPort
  /-- It is at `BIO_do_connect`. -/
  | dialing
  /-- It is connected, and has not got as far as `SSL_connect`. -/
  | connected
  /-- The connection is secure, and `signup` has written the password to it. -/
  | secured
  | returned (result : Bool)
  deriving DecidableEq, Repr

/-- The client's variables, and how much it has received. -/
structure Client where
  stage : ClientStage
  received : ℕ
  sslPort : Bytes
  ack : Bytes

/-- The client at its beginning; `sslPort` and `ack` are what is on its stack. -/
def Client.start (sslPort ack : Bytes) : Client := ⟨.requesting, 0, sslPort, ack⟩

/-- What the client does next. -/
inductive ClientStep where
  /-- It sends the service code. -/
  | request (sent : Bool)
  /-- `signup` sends the username, its length first. -/
  | name (sent : Bool)
  /-- It calls `recv`, which gives so many bytes, or fails or finds the connection closed. -/
  | recv (bytes : Option ℕ)
  /-- It calls `ssl_initialize` and `BIO_new_connect`. -/
  | prepare (succeeds : Bool)
  /-- It calls `BIO_do_connect`. -/
  | connect (succeeds : Bool)
  /-- It calls `SSL_new` and `SSL_connect`, and `signup` then `SSL_write`. -/
  | secure (succeeds : Bool)

/-- What a `recv` of a `short` puts in its variable, or `none` if it cannot give so much. -/
def Client.next (stream : Bytes) (c : Client) : Option ℕ → Option Bytes
  | none => some []
  | some n =>
    if 1 ≤ n ∧ n ≤ 2 ∧ c.received + n ≤ stream.length then some ((stream.drop c.received).take n) else none

/-- What the client does with what `recv` gave. The third time it does not look whether that was
anything. -/
def Client.take (service : Service) (c : Client) (bytes : Bytes) : Option Client :=
  let c := { c with received := c.received + bytes.length }
  match c.stage with
  | .awaitsACK =>
    if bytes = [] then some { c with stage := .returned false }
    else some { c with sslPort := copyAt c.sslPort 0 bytes, stage := .awaitsPort }
  | .awaitsPort =>
    if bytes = [] then some { c with stage := .returned false }
    else some { c with sslPort := copyAt c.sslPort 0 bytes, stage := .hasPort }
  | .secured =>
    match service with
    | .login => none
    | .signup =>
      let ack := copyAt c.ack 0 bytes
      some { c with ack := ack, stage := .returned (shortOf ack = 0) }
  | _ => none

/-- One step of the client. -/
def Client.step (service : Service) (stream : Bytes) (c : Client) : ClientStep → Option Client
  | .request sent =>
    match c.stage with
    | .requesting =>
      if sent then some { c with stage := match service with | .login => .awaitsACK | .signup => .naming }
      else some { c with stage := .returned false }
    | _ => none
  | .name sent =>
    match c.stage with
    | .naming => some { c with stage := if sent then .awaitsACK else .returned false }
    | _ => none
  | .recv bytes => (c.next stream bytes).bind (c.take service)
  | .prepare succeeds =>
    match c.stage with
    | .hasPort => some { c with stage := if succeeds then .dialing else .returned false }
    | _ => none
  | .connect succeeds =>
    match c.stage with
    | .dialing => some { c with stage := if succeeds then .connected else .returned false }
    | _ => none
  | .secure succeeds =>
    match c.stage with
    | .connected => some { c with stage := if succeeds then .secured else .returned false }
    | _ => none

/-! ### What the client has received -/

/-- What is true of the client whatever the server does: how much it has received, and that the
first byte of the number it is to dial is the second or the third of the stream. -/
structure Client.Sound (stream : Bytes) (c : Client) : Prop where
  received_le : c.received ≤ stream.length
  before : c.stage = .requesting ∨ c.stage = .naming ∨ c.stage = .awaitsACK → c.received = 0
  awaitsPort : c.stage = .awaitsPort → 1 ≤ c.received ∧ c.received ≤ 2
  sslPort : c.stage = .hasPort ∨ c.stage = .dialing →
    2 ≤ c.received ∧ ∃ i b, 1 ≤ i ∧ i ≤ 2 ∧ stream[i]? = some b ∧ c.sslPort[0]? = some b
  secured : c.stage = .connected ∨ c.stage = .secured → 2 ≤ c.received

theorem Client.Sound.start (sslPort ack : Bytes) : (Client.start sslPort ack).Sound [] := by
  refine ⟨le_rfl, ?_, ?_, ?_, ?_⟩ <;> simp [Client.start]

/-- It stays true when the server sends more. -/
theorem Client.Sound.append {stream : Bytes} {c : Client} (h : c.Sound stream) (more : Bytes) :
    c.Sound (stream ++ more) where
  received_le := by
    rw [List.length_append]
    exact h.received_le.trans (Nat.le_add_right _ _)
  before := h.before
  awaitsPort := h.awaitsPort
  sslPort hstage := by
    obtain ⟨hreceived, i, b, hpos, hle, hi, hport⟩ := h.sslPort hstage
    refine ⟨hreceived, i, b, hpos, hle, ?_, hport⟩
    rw [List.getElem?_append_left (List.getElem?_eq_some_iff.mp hi).1, hi]
  secured := h.secured

/-- What `recv` gives is what comes next in the stream, two bytes at most. -/
theorem Client.next_spec {stream : Bytes} {c : Client} {n : Option ℕ} {bytes : Bytes} (h : c.next stream n = some bytes)
    (hreceived : c.received ≤ stream.length) :
    bytes.length = n.getD 0 ∧ bytes.length ≤ 2 ∧ c.received + bytes.length ≤ stream.length ∧
      ∀ i < bytes.length, bytes[i]? = stream[c.received + i]? := by
  cases n with
  | none =>
    cases h
    simpa using hreceived
  | some n =>
    simp only [Client.next] at h
    split_ifs at h with hn
    cases h
    have hlen : ((stream.drop c.received).take n).length = n := by
      rw [List.length_take, List.length_drop]
      omega
    rw [hlen]
    refine ⟨rfl, hn.2.1, hn.2.2, fun i hi => ?_⟩
    rw [List.getElem?_take_of_lt hi, List.getElem?_drop]

/-- What the client's `recv`s do: the first two fail or put something at the start of `ssl_port`, and
the third is the last thing `signup` does. -/
theorem Client.take_cases {service : Service} {c c' : Client} {bytes : Bytes} (h : c.take service bytes = some c') :
    ((c.stage = .awaitsACK ∨ c.stage = .awaitsPort) ∧ bytes = [] ∧ c' = { c with stage := .returned false }) ∨
    (bytes ≠ [] ∧ c.stage = .awaitsACK ∧
      c' = ⟨.awaitsPort, c.received + bytes.length, copyAt c.sslPort 0 bytes, c.ack⟩) ∨
    (bytes ≠ [] ∧ c.stage = .awaitsPort ∧
      c' = ⟨.hasPort, c.received + bytes.length, copyAt c.sslPort 0 bytes, c.ack⟩) ∨
    (c.stage = .secured ∧ service = .signup ∧
      c' = ⟨.returned (shortOf (copyAt c.ack 0 bytes) = 0), c.received + bytes.length, c.sslPort,
        copyAt c.ack 0 bytes⟩) := by
  obtain ⟨stage, received, sslPort, ack⟩ := c
  by_cases hnone : bytes = []
  · subst hnone
    cases stage <;> simp only [Client.take, if_true, reduceCtorEq] at h
    · cases h
      exact Or.inl ⟨Or.inl rfl, rfl, rfl⟩
    · cases h
      exact Or.inl ⟨Or.inr rfl, rfl, rfl⟩
    · cases service
      · cases h
      · cases h
        exact Or.inr (Or.inr (Or.inr ⟨rfl, rfl, rfl⟩))
  · cases stage <;> simp only [Client.take, if_neg hnone, reduceCtorEq] at h
    · cases h
      exact Or.inr (Or.inl ⟨hnone, rfl, rfl⟩)
    · cases h
      exact Or.inr (Or.inr (Or.inl ⟨hnone, rfl, rfl⟩))
    · cases service
      · cases h
      · cases h
        exact Or.inr (Or.inr (Or.inr ⟨rfl, rfl, rfl⟩))

theorem Client.Sound.recv {service : Service} {stream : Bytes} {c c' : Client} {n : Option ℕ} (hc : c.Sound stream)
    (h : c.step service stream (.recv n) = some c') : c'.Sound stream := by
  obtain ⟨bytes, hnext, htake⟩ := Option.bind_eq_some_iff.mp h
  obtain ⟨-, htwo, hle, hbytes⟩ := Client.next_spec hnext hc.received_le
  rcases Client.take_cases htake with ⟨-, -, rfl⟩ | ⟨hne, hstage, rfl⟩ | ⟨hne, hstage, rfl⟩ | ⟨-, -, rfl⟩
  · refine ⟨hc.received_le, ?_, ?_, ?_, ?_⟩ <;> simp
  · have hpos := List.length_pos_iff.mpr hne
    have hzero := hc.before (Or.inr (Or.inr hstage))
    refine ⟨hle, by simp, fun _ => ?_, by simp, by simp⟩
    simp only
    omega
  · have hpos := List.length_pos_iff.mpr hne
    obtain ⟨hone, hreceived⟩ := hc.awaitsPort hstage
    have hfirst := hbytes 0 hpos
    rw [List.getElem?_eq_getElem hpos] at hfirst
    refine ⟨hle, by simp, by simp, fun _ => ⟨?_, c.received, bytes[0], hone, hreceived, hfirst.symm, ?_⟩, by simp⟩
    · simp only
      omega
    · rw [getElem?_copyAt_zero, if_pos hpos, List.getElem?_eq_getElem hpos]
  · refine ⟨hle, ?_, ?_, ?_, ?_⟩ <;> simp

/-- **What the client does**: it receives something, or it gives up or goes one stage further. -/
theorem Client.step_cases {service : Service} {stream : Bytes} {c c' : Client} {e : ClientStep}
    (h : c.step service stream e = some c') :
    (∃ n bytes, e = .recv n ∧ c.next stream n = some bytes ∧ c.take service bytes = some c') ∨
    ((∀ n, e ≠ .recv n) ∧ ∃ stage, c' = { c with stage := stage } ∧
      (stage = .returned false ∨
        (stage = .naming ∨ stage = .awaitsACK) ∧ (c.stage = .requesting ∨ c.stage = .naming) ∨
        stage = .dialing ∧ c.stage = .hasPort ∨
        stage = .connected ∧ c.stage = .dialing ∨
        stage = .secured ∧ c.stage = .connected)) := by
  cases e with
  | recv n =>
    obtain ⟨bytes, hnext, htake⟩ := Option.bind_eq_some_iff.mp h
    exact Or.inl ⟨n, bytes, rfl, hnext, htake⟩
  | request sent =>
    refine Or.inr ⟨by simp, ?_⟩
    cases hstage : c.stage <;> simp only [Client.step, hstage, reduceCtorEq] at h
    cases sent <;> cases service <;> cases h <;> exact ⟨_, rfl, by simp⟩
  | name sent =>
    refine Or.inr ⟨by simp, ?_⟩
    cases hstage : c.stage <;> simp only [Client.step, hstage, reduceCtorEq] at h
    cases sent <;> cases h <;> exact ⟨_, rfl, by simp⟩
  | prepare succeeds =>
    refine Or.inr ⟨by simp, ?_⟩
    cases hstage : c.stage <;> simp only [Client.step, hstage, reduceCtorEq] at h
    cases succeeds <;> cases h <;> exact ⟨_, rfl, by simp⟩
  | connect succeeds =>
    refine Or.inr ⟨by simp, ?_⟩
    cases hstage : c.stage <;> simp only [Client.step, hstage, reduceCtorEq] at h
    cases succeeds <;> cases h <;> exact ⟨_, rfl, by simp⟩
  | secure succeeds =>
    refine Or.inr ⟨by simp, ?_⟩
    cases hstage : c.stage <;> simp only [Client.step, hstage, reduceCtorEq] at h
    cases succeeds <;> cases h <;> exact ⟨_, rfl, by simp⟩

/-- **Whatever the client does**, it stays `Sound`. -/
theorem Client.Sound.step {service : Service} {stream : Bytes} {c c' : Client} {e : ClientStep} (hc : c.Sound stream)
    (h : c.step service stream e = some c') : c'.Sound stream := by
  rcases Client.step_cases h with ⟨n, bytes, rfl, -, -⟩ | ⟨-, stage, rfl, hmove⟩
  · exact hc.recv h
  · rcases hmove with rfl | ⟨hafter, hbefore⟩ | ⟨rfl, hstage⟩ | ⟨rfl, hstage⟩ | ⟨rfl, hstage⟩
    · exact ⟨hc.received_le, by simp, by simp, by simp, by simp⟩
    · have hzero : c.received = 0 := by
        apply hc.before
        rcases hbefore with hstage | hstage
        · exact Or.inl hstage
        · exact Or.inr (Or.inl hstage)
      rcases hafter with rfl | rfl
      · exact ⟨hc.received_le, fun _ => hzero, by simp, by simp, by simp⟩
      · exact ⟨hc.received_le, fun _ => hzero, by simp, by simp, by simp⟩
    · have hport := hc.sslPort (Or.inl hstage)
      exact ⟨hc.received_le, by simp, by simp, fun _ => hport, by simp⟩
    · have hport := hc.sslPort (Or.inr hstage)
      exact ⟨hc.received_le, by simp, by simp, by simp, fun _ => hport.1⟩
    · have hreceived := hc.secured (Or.inl hstage)
      exact ⟨hc.received_le, by simp, by simp, by simp, fun _ => hreceived⟩

end Inferno.Login
