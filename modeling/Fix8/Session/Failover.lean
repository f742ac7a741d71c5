import Fix8.Codec.Number

/-!
# The failover client

`ReliableClientSession::operator()` as far as it chooses a server: after an attempt the retries of
the current one are counted, and the loop goes on to the first server that may be tried, around the
list. All numbers are 32-bit; the token that cancels the thread is not set.
-/

namespace Fix8.Session

/-- The members of a `Server` that the loop reads. -/
structure Server where
  maxRetries : UInt32
  retries : UInt32
deriving DecidableEq, Repr

/-- The limit of the server still permits an attempt. -/
def Server.permits (s : Server) : Bool := s.maxRetries ≠ 0 && s.retries < s.maxRetries

/-! ## Servers from the configuration -/

/-- What `get_addresses` reads of a server element: whether it has a name and an address, and two
attributes. -/
structure ServerAttrs where
  named : Bool
  addressed : Bool
  active : Bool
  maxRetries : Option Int
deriving DecidableEq, Repr

/-- `get_addresses`; without a limit it is `defaults::login_retries`. -/
def getAddresses (slist : List ServerAttrs) : List Server :=
  (slist.filter fun pp => pp.named && pp.addressed && pp.active).map fun pp =>
    ⟨UInt32.ofInt (pp.maxRetries.getD 3), 0⟩

/-! ## The selection -/

/-- The servers of a client that has some, and the one it is at. -/
structure Failover where
  servers : List Server
  current : UInt32
  inRange : current.toNat < servers.length

namespace Failover

/-- `_servers[_current]`. -/
def server (f : Failover) : Server := f.servers.get ⟨f.current.toNat, f.inRange⟩

/-- `_servers[_current]._retries = n`. -/
def setRetries (f : Failover) (n : UInt32) : Failover where
  servers := f.servers.set f.current.toNat { f.server with retries := n }
  current := f.current
  inRange := by
    rw [List.length_set]
    exact f.inRange

/-- `(c + 1) % _failover_cnt`. -/
def nextIndex (cnt : Nat) (c : UInt32) : UInt32 := UInt32.ofNat ((c + 1).toNat % cnt)

/-- `++_current %= _failover_cnt`. -/
def advance (f : Failover) : Failover where
  servers := f.servers
  current := nextIndex f.servers.length f.current
  inRange := by
    have hpos : 0 < f.servers.length := Nat.lt_of_le_of_lt (Nat.zero_le _) f.inRange
    have hlt := Nat.mod_lt (f.current + 1).toNat hpos
    rw [nextIndex, UInt32.toNat_ofNat']
    exact Nat.lt_of_le_of_lt (Nat.mod_le _ _) hlt

/-- The loop, with the number of turns that it may take. -/
def select : Nat → Failover → Option Failover
  | 0, _ => none
  | fuel + 1, f =>
    if f.server.permits then some f
    else select fuel (f.setRetries 0).advance

/-- What follows an attempt that has failed. -/
def afterAttempt (fuel : Nat) (f : Failover) : Option Failover :=
  select fuel (f.setRetries (f.server.retries + 1))

end Failover

/-! ## The client -/

/-- `ReliableClientSession`; without a server group there are no servers to choose from. -/
structure ReliableClient where
  failover : Option Failover
  loginRetries : UInt32
  attempts : UInt32
  givingUp : Bool

/-- One turn of `operator()`, whose attempt has `excepted` or not; `none` when the selection takes
more turns than it may. -/
def ReliableClient.turn (fuel : Nat) (c : ReliableClient) (excepted : Bool) :
    Option ReliableClient :=
  let c := { c with attempts := c.attempts + 1 }
  match c.failover with
  | none =>
    -- without servers a turn counts as failed
    if c.loginRetries > 0 ∧ c.attempts > c.loginRetries then some { c with givingUp := true }
    else some c
  | some f =>
    if !excepted then some { c with givingUp := true }
    else (f.afterAttempt fuel).map fun f => { c with failover := some f }

end Fix8.Session
