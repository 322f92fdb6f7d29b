import Inferno.Lib.HeapList
import Inferno.Lib.SysResults
import Inferno.Sockets.UnreliableUDP

/-!
# Candidate addresses

What `getaddrinfo` gives: a list of addresses, to be tried in turn until one can be used, and to be freed. Five
routines have such a loop, in two forms. A server opens a socket and binds it to the address, and closes it if
that fails; a client opens one and is content.

The routines differ in when they free the list. Where the list ends up is `HeapList.walk`.

## Scope

What an address is asked for, a port or a host, is not modelled, only what comes of it: the candidates, and
what `socket` and `bind` return for each of them.
-/

namespace Inferno.Sockets

open HeapList SysResults

/-- A `struct addrinfo`, with what comes of it when it is tried. -/
structure Candidate where
  /-- `ai_addr`. -/
  addr : Address
  /-- What `socket` returns, if not `-1`. -/
  descriptor : Option ℕ
  /-- Whether `bind` succeeds. -/
  binds : Bool

/-- What `socket` returns. -/
def Candidate.socketResult (c : Candidate) : ℤ := descriptorResult c.descriptor

/-- What `bind` returns. -/
def Candidate.bindResult (c : Candidate) : ℤ := result c.binds

/-- It can be opened. -/
def Candidate.opens (c : Candidate) : Bool := c.descriptor.isSome

/-- It can be opened and bound. -/
def Candidate.usable (c : Candidate) : Bool := c.opens && c.binds

/-- The calls that concern descriptors. -/
inductive SysCall where
  | socket (c : Candidate)
  | bind (fd : ℤ) (c : Candidate)
  | close (fd : ℤ)

/-- `sock`, or the member `sock_fd`, and what was put in `last_addr` and `last_addrlen`, or where `addr` and `len`
point to. -/
abbrev Attempt : Type := SysResults.Attempt SysCall (Option (List UInt8 × ℕ))

/-- Nothing has been called yet; `sock` is what is in the variable. -/
def Attempt.start (sock : ℤ) : Attempt := ⟨sock, none, []⟩

/-- `sock = socket(…)`. -/
def Attempt.socket (v : Attempt) (c : Candidate) : Attempt := v.assign (.socket c) c.descriptor

/-- `bind(sock, …)`. -/
def Attempt.bind (v : Attempt) (c : Candidate) : Attempt := v.call (.bind v.sock c)

/-- `close(sock)`. -/
def Attempt.close (v : Attempt) : Attempt := v.call (.close v.sock)

/-- The address of a candidate is stored, of which a `struct sockaddr` has room for 16 bytes. -/
def Attempt.store (v : Attempt) (c : Candidate) : Attempt :=
  { v with kept := some (c.addr.bytes.take 16, c.addr.bytes.length) }

/-- A routine on its way. -/
abbrev Routine : Type := State Candidate Attempt

/-- The loop body of a server: whether it breaks out of the loop. `failed` is how it tests a result, and
`cleanUp` is what it does when it has closed a socket. -/
def serverBody (failed : ℤ → Bool) (cleanUp : Routine → Except Fault Routine) (s : Routine) (c : Candidate) :
    Except Fault (Bool × Routine) :=
  let v := s.vars.socket c
  if failed v.sock then .ok (false, { s with vars := v })
  else
    let v := v.bind c
    if failed c.bindResult then do
      let s ← cleanUp { s with vars := v.close }
      return (false, s)
    else .ok (true, { s with vars := v })

/-- The loop body of a client. -/
def clientBody (s : Routine) (c : Candidate) : Except Fault (Bool × Routine) :=
  let v := s.vars.socket c
  if v.sock = -1 then .ok (false, { s with vars := v }) else .ok (true, { s with vars := v })

/-- The address of the candidate at `i` is stored. -/
def storeAddr (s : Routine) (i : List Candidate) : Except Fault Routine := do
  let c ← s.read i
  return { s with vars := s.vars.store c }

/-! ### One candidate -/

/-- What a candidate does to the variables of a server. -/
def tryServer (v : Attempt) (c : Candidate) : Bool × Attempt :=
  match c.descriptor, c.binds with
  | none, _ => (false, v.socket c)
  | some _, true => (true, (v.socket c).bind c)
  | some _, false => (false, ((v.socket c).bind c).close)

/-- And to those of a client. -/
def tryClient (v : Attempt) (c : Candidate) : Bool × Attempt := (c.opens, v.socket c)

theorem tryServer_fst (v : Attempt) (c : Candidate) : (tryServer v c).1 = c.usable := by
  unfold tryServer Candidate.usable Candidate.opens
  cases c.descriptor with
  | none => rfl
  | some fd => cases c.binds <;> rfl

variable {failed : ℤ → Bool} {cleanUp : Routine → Except Fault Routine}

/-- **What the loop body of a server does**: nothing more where the socket cannot be opened, or can be used. -/
theorem serverBody_eq (hfailed : Detects failed) (s : Routine) (c : Candidate) :
    serverBody failed cleanUp s c =
      if c.opens && !c.binds then (cleanUp { s with vars := (tryServer s.vars c).2 }).map (false, ·)
      else .ok (c.usable, { s with vars := (tryServer s.vars c).2 }) := by
  have hsocket : failed (s.vars.socket c).sock = c.descriptor.isNone := hfailed.descriptorResult c.descriptor
  have hbind : failed c.bindResult = !c.binds := hfailed.result c.binds
  simp only [serverBody, hsocket, hbind]
  obtain ⟨addr, descriptor, binds⟩ := c
  cases descriptor with
  | none => rfl
  | some fd => cases binds <;> rfl

/-- One that leaves the list alone. -/
theorem serverBody_ok (hfailed : Detects failed) (s : Routine) (c : Candidate) :
    serverBody failed .ok s c = .ok ((tryServer s.vars c).1, { s with vars := (tryServer s.vars c).2 }) := by
  rw [serverBody_eq hfailed, tryServer_fst]
  split_ifs with hcloses
  · have hunusable : c.usable = false := by
      rw [Candidate.usable]
      simp_all
    rw [hunusable]
    rfl
  · rfl

theorem clientBody_ok (s : Routine) (c : Candidate) :
    clientBody s c = .ok ((tryClient s.vars c).1, { s with vars := (tryClient s.vars c).2 }) := by
  obtain ⟨addr, descriptor, binds⟩ := c
  cases descriptor with
  | none => rfl
  | some fd =>
    have hopen : (s.vars.socket ⟨addr, some fd, binds⟩).sock ≠ -1 := by
      show (fd : ℤ) ≠ -1
      omega
    simp only [clientBody, if_neg hopen]
    rfl

end Inferno.Sockets
