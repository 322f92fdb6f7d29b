import Inferno.Login.Accounts
import Inferno.Login.SignupExchange

/-!
# Signing up and logging in

What it all comes to: a user types a name and a password, the client writes them, they arrive in pieces, the
server makes its query over what was inserted before, and the client reports what it makes of the answers. Each of
the two waits for what the other is to send.

## What is proved

* `login_iff_registered` — in a login in which nothing fails or is lost, and whose bytes come in whole pieces,
  `login` returns `true` exactly if somebody has signed up under that name with that password.
* `login_iff_signup` — if `signup` has returned `true` for a name, `login` under that name returns `true` for
  the same password, and for no other that has another digest.

## Scope

The name stands for itself between quotes, and has been signed up with one password at most.
-/

namespace Inferno.Login

open CStr Machine SqlLiteral

variable {db : MySQL} {sha : Bytes → Fin 32 → UInt8} {vs : List Visit} {e : LoginChild}

/-- **`login` returns `true` exactly if its user has signed up**, when it can go on no more. -/
theorem login_iff_registered {c : Credentials} (hlogs : e.LogsIn c) (hverbatim : Verbatim c.username)
    (hsame : ∀ digest digest', Registered sha vs c.username digest → Registered sha vs c.username digest' →
      digest = digest')
    {sslPort ack : Bytes} {as : List LoginEvent} {d : Awaiting LoginExchange}
    (h : run (awaitingLogin c e) (.start (.start db sha (tableAfter sha vs) e sslPort ack)) as = some d)
    (hall : ∀ a ∈ as, a.Succeeds) (hend : ∀ a, LoginEvent.Succeeds a → awaitingLogin c e d a = none) :
    d.exchange.client.stage = .returned true ↔ Registered sha vs c.username (sha c.password) := by
  rw [returned_iff_authorised hlogs h hall hend]
  exact authorised_iff_registered hlogs.receives hverbatim hsame

theorem run_loginInTwo : run (awaitingLogin bobCredentials bobChild)
    (.start (.start mysqlOr firstBytes (tableAfter firstBytes bobSignup) bobChild [0, 0] [0, 0])) loginInTwo =
      some bobAnswered := by
  rw [tableAfter_bobSignup]
  exact run_bobAnswered

/-- `bob` has logged in, as he has signed up. -/
theorem login_iff_registered_bob : bobAnswered.exchange.client.stage = .returned true ↔
    Registered firstBytes bobSignup bobCredentials.username (firstBytes bobCredentials.password) := by
  apply login_iff_registered bobChild_logsIn (.of_notMem (by decide) (by decide)) _ run_loginInTwo
    succeeds_of_mem_loginInTwo end_bobAnswered
  intro digest digest' h h'
  rw [registered_bobSignup h, registered_bobSignup h']

/-! ### The client's own sign-up -/

/-- If `signup` has returned `true`, its user is registered. -/
theorem registered_of_signup {e : ChildEnv} {c : Credentials} (hsigns : e.SignsUp c) {position : ℕ}
    (hvisit : .signup e position ∈ vs) {sslPort ack : Bytes} {as : List ExchangeEvent} {d : Awaiting Exchange}
    (h : run (awaitingSignup c e) (.start (.start sha e sslPort ack)) as = some d) (hall : ∀ a ∈ as, a.Succeeds)
    (hend : ∀ a, ExchangeEvent.Succeeds a → awaitingSignup c e d a = none)
    (hreturned : d.exchange.client.stage = .returned true) : Registered sha vs c.username (sha c.password) := by
  have hexecutes : e.signup.executes = true := by
    rw [((SignupWell.of_run hsigns h hall).returned hsigns hend).1] at hreturned
    exact ClientStage.returned.inj hreturned
  exact ⟨e, position, c.password, hvisit, hsigns.requested, hsigns.acknowledged, hsigns.takes.receives hexecutes, rfl⟩

/-- **Who has signed up logs in with the same password, and with no other**: `signup` has returned `true` for what
`c` says, and `login`, of the same name, returns `true` exactly if the password has the same digest. -/
theorem login_iff_signup {e₀ : ChildEnv} {c c' : Credentials} (hsigns : e₀.SignsUp c) (hlogs : e.LogsIn c')
    (hname : c'.username = c.username) (hverbatim : Verbatim c.username) {position : ℕ}
    (hvisit : .signup e₀ position ∈ vs)
    (honly : ∀ digest, Registered sha vs c.username digest → digest = sha c.password)
    {sslPort₀ ack₀ : Bytes} {as₀ : List ExchangeEvent} {d₀ : Awaiting Exchange}
    (h₀ : run (awaitingSignup c e₀) (.start (.start sha e₀ sslPort₀ ack₀)) as₀ = some d₀)
    (hall₀ : ∀ a ∈ as₀, a.Succeeds) (hend₀ : ∀ a, ExchangeEvent.Succeeds a → awaitingSignup c e₀ d₀ a = none)
    (hreturned : d₀.exchange.client.stage = .returned true)
    {sslPort ack : Bytes} {as : List LoginEvent} {d : Awaiting LoginExchange}
    (h : run (awaitingLogin c' e) (.start (.start db sha (tableAfter sha vs) e sslPort ack)) as = some d)
    (hall : ∀ a ∈ as, a.Succeeds) (hend : ∀ a, LoginEvent.Succeeds a → awaitingLogin c' e d a = none) :
    d.exchange.client.stage = .returned true ↔ sha c'.password = sha c.password := by
  have hregistered := registered_of_signup hsigns hvisit h₀ hall₀ hend₀ hreturned
  have hreceives := hlogs.receives
  rw [hname] at hreceives
  have hsame : ∀ digest digest', Registered sha vs c.username digest → Registered sha vs c.username digest' →
      digest = digest' := fun digest digest' hd hd' => (honly digest hd).trans (honly digest' hd').symm
  rw [returned_iff_authorised hlogs h hall hend, authorised_iff_registered hreceives hverbatim hsame]
  constructor
  · exact honly _
  · intro hdigest
    rwa [hdigest]

/-- `bob` signs up, and logs in. -/
theorem login_iff_signup_bob : bobAnswered.exchange.client.stage = .returned true ↔
    firstBytes bobCredentials.password = firstBytes bobCredentials.password := by
  have hreturned : bobSignedUp.exchange.client.stage = .returned true :=
    ((SignupWell.of_run bobSigner_signsUp run_bobSignedUp succeeds_of_mem_signupInTwelve).returned bobSigner_signsUp
      end_bobSignedUp).1
  exact login_iff_signup bobSigner_signsUp bobChild_logsIn rfl (.of_notMem (by decide) (by decide))
    (List.mem_singleton_self _) (fun _ => registered_bobSignup) run_bobSignedUp succeeds_of_mem_signupInTwelve
    end_bobSignedUp hreturned run_loginInTwo succeeds_of_mem_loginInTwo end_bobAnswered

end Inferno.Login
