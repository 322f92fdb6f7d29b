import Inferno.Lib.Clock
import Mathlib.Data.List.Basic
import Mathlib.Data.List.Induction

/-!
# Timeouts of clients

`Client`, with the clock's reading at the last contact. `is_timed_out` takes the difference of the
seconds alone and puts it into an `unsigned int`. So a client of which was heard nine seconds and a
microsecond ago may be timed out, and if the clock has been set back by a second every client is.

## What is proved

* `isTimedOut_eq_true_iff` — what `is_timed_out` computes.
* `timesOutRightly_iff` — in a run of calls it returns what it should exactly if the seconds tell each time:
  they have not gone back, and where they differ by ten, or by as many as wrap, the microseconds have not
  either.

## Scope

The seconds are unbounded integers: where a `time_t` wraps, what is left of it in 32 bits is the same. The
members `address` and `addrlen` have no part in it.
-/

namespace Inferno.Sockets

/-- `TIMEOUT`. -/
def timeout : UInt32 := 10

/-- `class Client`. -/
structure Client where
  lastContact : Reading

/-- `Client::Client`. -/
def Client.construct (now : Reading) : Client := ⟨now⟩

/-- `Client::update_timeout`. -/
def Client.updateTimeout (c : Client) (now : Reading) : Client := { c with lastContact := now }

/-- `Client::is_timed_out`. -/
def Client.isTimedOut (c : Client) (currentTime : Reading) : Bool :=
  let elapsed := UInt32.ofInt (currentTime.tvSec - c.lastContact.tvSec)
  if timeout ≤ elapsed then true else false

/-- A call, and what the clock reads. -/
inductive ClientCall where
  | updateTimeout (now : Reading)
  | isTimedOut (now : Reading)

/-- The client after a call. -/
def Client.perform (c : Client) : ClientCall → Client
  | .updateTimeout now => c.updateTimeout now
  | .isTimedOut _ => c

/-- The client after some calls. -/
def Client.after (c : Client) (calls : List ClientCall) : Client := calls.foldl Client.perform c

/-- The contact that a call is. -/
def ClientCall.contact : ClientCall → Option Reading
  | .updateTimeout now => some now
  | .isTimedOut _ => none

/-- The last contact with a client that was made at `made`. -/
def lastUpdate (made : Reading) (calls : List ClientCall) : Reading :=
  (calls.filterMap ClientCall.contact).getLastD made

/-- What `is_timed_out` should return at `now`: `true` only after `TIMEOUT` seconds, and surely after one more,
as long as an `unsigned int` holds them. -/
structure RightlyTimedOut (last now : Reading) (timedOut : Bool) : Prop where
  silent : timedOut = true → 10 * 1000000 ≤ Timeval.elapsed last.toTimeval now.toTimeval
  noticed : 11 * 1000000 ≤ Timeval.elapsed last.toTimeval now.toTimeval →
    Timeval.elapsed last.toTimeval now.toTimeval < 4294967296 * 1000000 → timedOut = true

/-- Every call of `is_timed_out` returns what it should. -/
def TimesOutRightly (made : Reading) (calls : List ClientCall) : Prop :=
  ∀ pre now post, calls = pre ++ .isTimedOut now :: post →
    RightlyTimedOut (lastUpdate made pre) now (((Client.construct made).after pre).isTimedOut now)

/-- The seconds are enough to tell: they have not gone back, or are less than ten if they wrap, and where
they differ by exactly ten, or by as many as wrap to zero, the microseconds have not gone back. -/
structure SecondsTell (last now : Reading) : Prop where
  back : now.tvSec < last.tvSec → (now.tvSec - last.tvSec) % 4294967296 < 10
  ten : now.tvSec - last.tvSec = 10 → last.tvUsec ≤ now.tvUsec
  wrap : now.tvSec - last.tvSec = 4294967296 → last.tvUsec ≤ now.tvUsec

/-- **What `is_timed_out` computes.** -/
theorem Client.isTimedOut_eq_true_iff (c : Client) (now : Reading) :
    c.isTimedOut now = true ↔ 10 ≤ (now.tvSec - c.lastContact.tvSec) % 4294967296 := by
  have helapsed : (UInt32.ofInt (now.tvSec - c.lastContact.tvSec)).toNat =
      ((now.tvSec - c.lastContact.tvSec) % 4294967296).toNat := by
    rw [UInt32.ofInt, UInt32.toNat_ofNat']
    omega
  have htimeout : timeout.toNat = 10 := rfl
  simp only [Client.isTimedOut, UInt32.le_iff_toNat_le, helapsed, htimeout]
  split_ifs with hlate
  · exact iff_of_true rfl (by omega)
  · exact iff_of_false (by simp) (by omega)

/-- **When it is right**, after a contact at `last`. -/
theorem rightlyTimedOut_iff (last now : Reading) :
    RightlyTimedOut last now ((Client.construct last).isTimedOut now) ↔ SecondsTell last now := by
  have hlast := last.tvUsec_nonneg
  have hlast' := last.tvUsec_lt
  have hnow := now.tvUsec_nonneg
  have hnow' := now.tvUsec_lt
  have hresult : (Client.construct last).isTimedOut now = true ↔ 10 ≤ (now.tvSec - last.tvSec) % 4294967296 :=
    Client.isTimedOut_eq_true_iff (Client.construct last) now
  constructor
  · rintro ⟨hsilent, hnoticed⟩
    rw [hresult, Timeval.elapsed] at hsilent hnoticed
    exact ⟨by omega, by omega, by omega⟩
  · rintro ⟨hback, hten, hwrap⟩
    constructor
    · rw [hresult, Timeval.elapsed]
      omega
    · rw [hresult, Timeval.elapsed]
      omega

/-- The member is the last contact. -/
theorem Client.lastContact_after (made : Reading) (calls : List ClientCall) :
    (Client.construct made).after calls = Client.construct (lastUpdate made calls) := by
  induction calls using List.reverseRecOn with
  | nil => rfl
  | append_singleton calls call ih =>
    rw [Client.after, List.foldl_concat, ← Client.after, ih, lastUpdate, lastUpdate, List.filterMap_append]
    cases call with
    | updateTimeout now => simp [Client.perform, Client.updateTimeout, Client.construct, ClientCall.contact]
    | isTimedOut now => simp [Client.perform, ClientCall.contact]

/-- **When a client is timed out rightly**: when the seconds tell, at each call of `is_timed_out`. -/
theorem timesOutRightly_iff (made : Reading) (calls : List ClientCall) :
    TimesOutRightly made calls ↔
      ∀ pre now post, calls = pre ++ .isTimedOut now :: post → SecondsTell (lastUpdate made pre) now := by
  simp only [TimesOutRightly, Client.lastContact_after, rightlyTimedOut_iff]

/-- The clock is set back by a second, and the client is timed out, as it is nine seconds and a fifth after the last
contact; and just before so many seconds have passed that they wrap it is not. -/
theorem timed_out_too_early :
    ¬ TimesOutRightly { tvSec := 5, tvUsec := 0 } [.isTimedOut { tvSec := 4, tvUsec := 0 }] ∧
      ¬ TimesOutRightly { tvSec := 0, tvUsec := 900000 } [.isTimedOut { tvSec := 10, tvUsec := 100000 }] ∧
      ¬ TimesOutRightly { tvSec := 0, tvUsec := 900000 } [.isTimedOut { tvSec := 4294967296, tvUsec := 100000 }] := by
  refine ⟨fun h => ?_, fun h => ?_, fun h => ?_⟩
  · have hback := ((rightlyTimedOut_iff _ _).mp (h [] _ [] rfl)).back
    simp [lastUpdate] at hback
  · have hten := ((rightlyTimedOut_iff _ _).mp (h [] _ [] rfl)).ten
    simp [lastUpdate] at hten
  · have hwrap := ((rightlyTimedOut_iff _ _).mp (h [] _ [] rfl)).wrap
    simp [lastUpdate] at hwrap

end Inferno.Sockets
