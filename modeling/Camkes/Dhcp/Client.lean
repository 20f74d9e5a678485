import Camkes.Dhcp.Server
import Mathlib.Logic.Function.Basic

/-!
# The clients of the DHCP example

Each client asks for an offer and requests it, until it has got an address.  A call to the server is
one step, and the clients take their steps in any order.
-/

namespace Camkes.Dhcp

/-- Where a client is in `run`. -/
inductive ClientAt
  -- `dhcp_discover(hwaddr, &server_ip)`
  | discover
  -- `dhcp_request(potential_ip, server_ip)`
  | request (potentialIp serverIp : UInt32)
  -- behind the loop
  | acquired (ip : UInt32)
  deriving DecidableEq

/-- The server and its clients. -/
structure Network where
  server : Server
  clients : ClientId → ClientAt
  trace : List Obs

def Network.init : Network where
  server := .init
  clients _ := .discover
  trace := []

/-- The next call of client `i`. -/
def Network.step (s : Network) (i : ClientId) : Option Network :=
  match s.clients i with
  | .discover => do
    let (potentialIp, serverIp, server) ← Dhcp.discover s.server
    some { server, clients := Function.update s.clients i (.request potentialIp serverIp),
           trace := s.trace ++ [.offered i potentialIp serverIp] }
  | .request potentialIp serverIp => do
    let (ip, server) ← clientRequest i s.server potentialIp serverIp
    -- `while (ip == 0)`
    let next := if ip = 0 then .discover else .acquired ip
    some { server, clients := Function.update s.clients i next,
           trace := s.trace ++ [.replied i ip] }
  | .acquired _ => some s

def ClientAt.running : ClientAt → Bool
  | acquired _ => false
  | _ => true

def network : Machine Network ClientId where
  ok s i := (s.clients i).running = true
  step := Network.step

instance decidable_network_ok (s : Network) (i : ClientId) : Decidable (network.ok s i) :=
  inferInstanceAs (Decidable ((s.clients i).running = true))

end Camkes.Dhcp
