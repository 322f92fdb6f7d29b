import Inferno.Lib.Conversions
import Inferno.Lib.RunningMean
import Inferno.Lib.Runs

/-!
# The match server's ELO

`MatchServer::addClient` keeps a mean of its clients' values, which `recalculateELO` moves by
`(newValue - serverELO) / clients.size()`. The difference is an `int` and the size a `size_t`,
so the difference becomes a `size_t` before it is divided. Of a newcomer below the mean this
makes a number that the `int` it is then converted to cannot hold.

A run is any sequence of calls of `addClient`. `serverELO` is `none` as long as it has no value,
and from where the behaviour is undefined.

## What is proved

* `tracks_iff` — `serverELO` is a mean of the clients' values, up to the losses of integer division,
  in exactly the runs in which no client is added whose value is below it. A full server refuses every
  client and does not change.
-/

namespace Inferno.MatchServer

open Conversions Machine

/-- `CLIENTSPERSERVER`. -/
def clientsPerServer : ℕ := 10

/-- `class Client`, whose ELO is an `int` and not negative. -/
structure Client where
  elo : ℤ
  nonneg : 0 ≤ elo := by decide
  lt : elo < 2147483648 := by decide

/-- `class MatchServer`. -/
structure EloServer where
  clients : List Client
  serverELO : Option ℤ

/-- `MatchServer()`, which gives `serverELO` no value. -/
def EloServer.start : EloServer := ⟨[], none⟩

/-- `MatchServer::recalculateELO`. -/
def EloServer.recalculateELO (s : EloServer) (newValue : ℤ) : EloServer :=
  if s.clients.length = 1 then { s with serverELO := some newValue }
  else
    { s with serverELO := do
        let serverELO ← s.serverELO
        let difference ← toInt (newValue - serverELO)
        let addition := toDouble (toSize difference / s.clients.length)
        toInt (serverELO + (← toInt addition)) }

/-- `MatchServer::addClient`: what it returns, and the server after it. -/
def EloServer.addClient (s : EloServer) (newClient : Client) : Bool × EloServer :=
  if s.clients.length = clientsPerServer then (false, s)
  else (true, EloServer.recalculateELO { s with clients := s.clients ++ [newClient] } newClient.elo)

/-- One call. -/
def EloServer.step (s : EloServer) (newClient : Client) : Option EloServer := some (s.addClient newClient).2

/-- The values of the clients that were accepted. -/
def EloServer.elos (s : EloServer) : List ℤ := s.clients.map Client.elo

/-- `serverELO` has a value, which is between those of the clients and not far from their mean. -/
def EloServer.Tracks (s : EloServer) : Prop :=
  s.clients ≠ [] → ∃ elo, s.serverELO = some elo ∧ RunningMean.Approximates elo s.elos

/-- A call returns `false` if the server is full, and then changes nothing. -/
def Refuses (s : EloServer) (newClient : Client) : Prop :=
  ((s.addClient newClient).1 = false ↔ s.clients.length = clientsPerServer) ∧
    ((s.addClient newClient).1 = false → (s.addClient newClient).2 = s)

/-- The server is full, or the newcomer is not below the mean. -/
def NotBelow (s : EloServer) (newClient : Client) : Prop :=
  s.clients.length = clientsPerServer ∨ ∀ elo ∈ s.serverELO, elo ≤ newClient.elo

theorem refuses_addClient (s : EloServer) (newClient : Client) : Refuses s newClient := by
  rw [Refuses, EloServer.addClient]
  split_ifs with hfull
  · simp [hfull]
  · simp [hfull]

/-! ### One newcomer -/

/-- What is true in every state of a run. -/
structure EloServer.Sound (s : EloServer) : Prop where
  length_le : s.clients.length ≤ clientsPerServer
  empty : s.clients = [] → s.serverELO = none

theorem EloServer.Sound.start : EloServer.start.Sound := ⟨Nat.zero_le _, fun _ => rfl⟩

theorem recalculateELO_clients (s : EloServer) (newValue : ℤ) : (s.recalculateELO newValue).clients = s.clients := by
  rw [EloServer.recalculateELO]
  split_ifs <;> rfl

theorem EloServer.Sound.addClient {s : EloServer} (hs : s.Sound) (newClient : Client) :
    (s.addClient newClient).2.Sound := by
  have hle := hs.length_le
  rw [EloServer.addClient]
  split_ifs with hfull
  · exact hs
  · refine ⟨?_, ?_⟩
    · rw [recalculateELO_clients, List.length_append, List.length_singleton]
      omega
    · rw [recalculateELO_clients]
      simp

/-- A value in reach of those of the clients is one of an `int` that is not negative. -/
theorem range_of_approximates {s : EloServer} {elo : ℤ} (h : RunningMean.Approximates elo s.elos) :
    0 ≤ elo ∧ elo < 2147483648 := by
  obtain ⟨v, hv, hlower⟩ := h.lower
  obtain ⟨u, hu, hupper⟩ := h.upper
  obtain ⟨c, -, rfl⟩ := List.mem_map.mp hv
  obtain ⟨d, -, rfl⟩ := List.mem_map.mp hu
  exact ⟨c.nonneg.trans hlower, hupper.trans_lt d.lt⟩

/-- What the second client and those after him make of the mean. -/
theorem serverELO_recalculateELO {s : EloServer} {elo : ℤ} (helo : s.serverELO = some elo) (hlen : s.clients.length ≠ 1)
    (newValue : ℤ) :
    (s.recalculateELO newValue).serverELO =
      (toInt (newValue - elo)).bind fun difference =>
        (toInt (toDouble (toSize difference / s.clients.length) : ℕ)).bind fun addition => toInt (elo + addition) := by
  rw [EloServer.recalculateELO, if_neg hlen, helo, Option.bind_eq_bind, Option.bind_some]

/-- **A newcomer that is not below the mean** moves it by his share. -/
theorem serverELO_of_le {s : EloServer} {elo : ℤ} (helo : s.serverELO = some elo) (hrange : 0 ≤ elo)
    {newClient : Client} (hlen : s.clients.length ≠ 1) (hle : elo ≤ newClient.elo) :
    (s.recalculateELO newClient.elo).serverELO =
      some (elo + (newClient.elo - elo) / (s.clients.length : ℕ)) := by
  have hlt := newClient.lt
  have hquot : (newClient.elo - elo).toNat / s.clients.length ≤ (newClient.elo - elo).toNat := Nat.div_le_self _ _
  have hshare : (((newClient.elo - elo).toNat / s.clients.length : ℕ) : ℤ) =
      (newClient.elo - elo) / (s.clients.length : ℕ) := by
    rw [Int.natCast_div, Int.toNat_of_nonneg (by omega)]
  have hdiff : toInt (newClient.elo - elo) = some (newClient.elo - elo) := toInt_of_range (by omega) (by omega)
  have hsize : toSize (newClient.elo - elo) = (newClient.elo - elo).toNat := toSize_of_nonneg (by omega) (by omega)
  have hdouble : toDouble ((newClient.elo - elo).toNat / s.clients.length) =
      (newClient.elo - elo).toNat / s.clients.length := toDouble_of_lt (by omega)
  rw [serverELO_recalculateELO helo hlen, hdiff, Option.bind_some, hsize, hdouble,
    toInt_of_range (by omega) (by omega), Option.bind_some, toInt_of_range (by omega) (by omega), hshare]

/-- **A newcomer below the mean**: no `int` holds what is to be added. -/
theorem serverELO_of_lt {s : EloServer} {elo : ℤ} (helo : s.serverELO = some elo) (hrange : elo < 2147483648)
    {newClient : Client} (hlen : s.clients.length ≠ 1) (hpos : 0 < s.clients.length)
    (hle : s.clients.length ≤ clientsPerServer) (hlt : newClient.elo < elo) :
    (s.recalculateELO newClient.elo).serverELO = none := by
  have hnonneg := newClient.nonneg
  have hdiff : toInt (newClient.elo - elo) = some (newClient.elo - elo) := toInt_of_range (by omega) (by omega)
  have hsize := le_toSize_of_neg (show newClient.elo - elo < 0 by omega) (by omega)
  have hquot : 9007199254740992 ≤ toSize (newClient.elo - elo) / s.clients.length := by
    rw [Nat.le_div_iff_mul_le hpos]
    exact le_trans (Nat.mul_le_mul_left _ hle) (le_trans (by decide) hsize)
  have hdouble := le_toDouble hquot
  have hnone : toInt (toDouble (toSize (newClient.elo - elo) / s.clients.length) : ℕ) = none := by
    rw [toInt, if_neg]
    omega
  rw [serverELO_recalculateELO helo hlen, hdiff, Option.bind_some, hnone, Option.bind_none]

/-- A newcomer is appended to the clients of a server that is not full. -/
theorem elos_addClient {s : EloServer} (hfull : s.clients.length ≠ clientsPerServer) (newClient : Client) :
    (s.addClient newClient).2.elos = s.elos ++ [newClient.elo] ∧ (s.addClient newClient).2.clients ≠ [] := by
  rw [EloServer.addClient, if_neg hfull, EloServer.elos, recalculateELO_clients]
  simp [EloServer.elos]

/-- The first one is the mean. -/
theorem tracks_first {s : EloServer} (hfull : s.clients.length ≠ clientsPerServer) (hfirst : s.clients = [])
    (newClient : Client) : (s.addClient newClient).2.Tracks := by
  intro _
  refine ⟨newClient.elo, ?_, ?_⟩
  · rw [EloServer.addClient, if_neg hfull, EloServer.recalculateELO, if_pos (by simp [hfirst])]
  · rw [(elos_addClient hfull newClient).1, EloServer.elos, hfirst]
    exact RunningMean.Approximates.singleton newClient.elo

/-- Another one must not be below it. -/
theorem tracks_next_iff {s : EloServer} (hlen : s.clients.length < clientsPerServer) (hpos : 0 < s.clients.length)
    {elo : ℤ} (helo : s.serverELO = some elo) (happrox : RunningMean.Approximates elo s.elos) (newClient : Client) :
    (s.addClient newClient).2.Tracks ↔ elo ≤ newClient.elo := by
  obtain ⟨helos, hne⟩ := elos_addClient hlen.ne newClient
  obtain ⟨hnonneg, hlt⟩ := range_of_approximates happrox
  have hlengths : s.elos.length = s.clients.length := List.length_map _
  rw [EloServer.Tracks, forall_prop_of_true hne, helos, EloServer.addClient, if_neg hlen.ne]
  set s' : EloServer := { s with clients := s.clients ++ [newClient] } with hs'
  have hlength : s'.clients.length = s.clients.length + 1 := by
    rw [hs', List.length_append, List.length_singleton]
  have helo' : s'.serverELO = some elo := helo
  constructor
  · rintro ⟨mean, hmean, -⟩
    by_contra hbelow
    rw [serverELO_of_lt helo' hlt (by omega) (by omega) (by omega) (not_le.mp hbelow)] at hmean
    cases hmean
  · intro hge
    refine ⟨_, serverELO_of_le helo' hnonneg (by omega) hge, ?_⟩
    rw [hlength, ← hlengths]
    exact happrox.push hge

/-- **One call keeps the mean** exactly if the newcomer is not below it. -/
theorem tracks_addClient_iff {s : EloServer} (hs : s.Sound) (htracks : s.Tracks) (newClient : Client) :
    (s.addClient newClient).2.Tracks ↔ NotBelow s newClient := by
  by_cases hfull : s.clients.length = clientsPerServer
  · refine iff_of_true ?_ (Or.inl hfull)
    rw [EloServer.addClient, if_pos hfull]
    exact htracks
  rw [NotBelow, or_iff_right hfull]
  by_cases hfirst : s.clients = []
  · refine iff_of_true (tracks_first hfull hfirst newClient) ?_
    rw [hs.empty hfirst]
    simp
  · obtain ⟨elo, helo, happrox⟩ := htracks hfirst
    rw [tracks_next_iff (lt_of_le_of_ne hs.length_le hfull) (List.length_pos_iff.mpr hfirst) helo happrox, helo]
    simp

/-! ### Any sequence of calls -/

/-- **`serverELO` follows the clients' values** exactly if no newcomer is below it. -/
theorem tracks_iff {newClients : List Client} {s : EloServer}
    (h : run EloServer.step EloServer.start newClients = some s) :
    EachState EloServer.step EloServer.Tracks EloServer.start newClients ∧
        EachStep EloServer.step Refuses EloServer.start newClients ↔
      EachStep EloServer.step NotBelow EloServer.start newClients := by
  have hrefuses : EachStep EloServer.step Refuses EloServer.start newClients := fun _ newClient _ s' _ _ =>
    refuses_addClient s' newClient
  rw [and_iff_left hrefuses]
  refine eachState_iff_eachStep (I := EloServer.Sound) .start (fun hne => absurd rfl hne) ?_ ?_ h
  · intro s₁ newClient s₂ hs hstep
    cases hstep
    exact hs.addClient newClient
  · intro s₁ newClient s₂ hs htracks hstep
    cases hstep
    exact tracks_addClient_iff hs htracks newClient

/-- A client, and one who is better. -/
theorem tracks_better :
    EachState EloServer.step EloServer.Tracks EloServer.start [{ elo := 900 }, { elo := 1000 }] ∧
        EachStep EloServer.step Refuses EloServer.start [{ elo := 900 }, { elo := 1000 }] ↔
      EachStep EloServer.step NotBelow EloServer.start [{ elo := 900 }, { elo := 1000 }] :=
  tracks_iff rfl

/-- One who is worse. -/
theorem not_tracks_worse :
    ¬ (EachState EloServer.step EloServer.Tracks EloServer.start [{ elo := 1000 }, { elo := 900 }] ∧
        EachStep EloServer.step Refuses EloServer.start [{ elo := 1000 }, { elo := 900 }]) := by
  rintro ⟨h, -⟩
  obtain ⟨elo, helo, -⟩ := h _ [] _ (List.append_nil _).symm rfl (by decide)
  have hnone : (EloServer.recalculateELO ⟨[{ elo := 1000 }, { elo := 900 }], some 1000⟩
      ({ elo := 900 } : Client).elo).serverELO = none :=
    serverELO_of_lt rfl (by decide) (by decide) (by decide) (by decide) (by decide)
  cases hnone.symm.trans helo

end Inferno.MatchServer
