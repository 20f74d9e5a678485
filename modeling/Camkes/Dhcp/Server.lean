import Camkes.Data.CArray
import Camkes.Machine.Basic

/-!
# The server of the DHCP example

Four clients call `discover` to be offered an address and `request` to be assigned one.  The server
assigns any address that is neither its own nor assigned already, whether it has offered it or not.
The bodies run under a lock, so a call is one step.
-/

namespace Camkes.Dhcp

open CArray

/-- `my_ip`: 192.168.1.1. -/
def myIp : UInt32 := 0xc0a80101

/-- An index of `routing_table`. -/
abbrev ClientId := Fin 4

/-- The static variables of the server. -/
structure Server where
  nextOfferOctet : UInt8
  -- 0 means unassigned
  routingTable : Vector UInt32 4
  deriving DecidableEq

def Server.init : Server where
  nextOfferOctet := 0
  routingTable := Vector.replicate 4 0

/-! ### Discovery -/

/-- An address in the subnet of the server. -/
def offerOf (octet : UInt8) : UInt32 := (myIp &&& ~~~0xff) ||| octet.toUInt32

/-- The condition of the loop in `discover`. -/
def unsuitable (routingTable : Vector UInt32 4) (offer : UInt32) : Bool :=
  offer &&& 0xff = 0 || offer = myIp ||
    offer = routingTable.get 0 || offer = routingTable.get 1 ||
    offer = routingTable.get 2 || offer = routingTable.get 3

/-- The loop of `discover`, for a number of rounds. -/
def offerLoop (s : Server) : ℕ → Option (UInt32 × Server)
  | 0 => none
  | rounds + 1 =>
    let offer := offerOf s.nextOfferOctet
    let s := { s with nextOfferOctet := s.nextOfferOctet + 1 }
    if unsuitable s.routingTable offer then offerLoop s rounds else some (offer, s)

/-- `discover`: the offer and `*siaddr`.  After 256 rounds the loop would go on for ever. -/
def discover (s : Server) : Option (UInt32 × UInt32 × Server) := do
  let (offer, s) ← offerLoop s 256
  some (offer, myIp, s)

/-! ### Requests -/

/-- `request`: the reply, which is 0 for a DHCPNAK. -/
def request (s : Server) (client ip siaddr : UInt32) : Option (UInt32 × Server) :=
  if siaddr ≠ myIp then some (0, s)
  else if h : client.toNat < 4 then
    let client : ClientId := ⟨client.toNat, h⟩
    if s.routingTable.get client = ip then some (ip, s)
    else if ip ≠ myIp ∧ ip ≠ 0 ∧ ip ≠ s.routingTable.get 0 ∧ ip ≠ s.routingTable.get 1 ∧
        ip ≠ s.routingTable.get 2 ∧ ip ≠ s.routingTable.get 3 then
      some (ip, { s with routingTable := put s.routingTable client ip })
    else some (0, s)
  -- the assertion fails
  else none

def client1Request (s : Server) (ip siaddr : UInt32) := request s 0 ip siaddr

def client2Request (s : Server) (ip siaddr : UInt32) := request s 1 ip siaddr

def client3Request (s : Server) (ip siaddr : UInt32) := request s 2 ip siaddr

def client4Request (s : Server) (ip siaddr : UInt32) := request s 3 ip siaddr

/-- The function that a client is connected to. -/
def clientRequest : ClientId → Server → UInt32 → UInt32 → Option (UInt32 × Server)
  | 0 => client1Request
  | 1 => client2Request
  | 2 => client3Request
  | 3 => client4Request

/-! ### The machine -/

/-- One entry of a trace. -/
inductive Obs
  | offered (i : ClientId) (offer siaddr : UInt32)
  -- the answer to a request
  | replied (i : ClientId) (ip : UInt32)
  deriving DecidableEq

structure System where
  server : Server
  trace : List Obs

def System.init : System where
  server := .init
  trace := []

/-- A call by client `i`. -/
inductive Event
  | discover (i : ClientId)
  | request (i : ClientId) (ip siaddr : UInt32)
  deriving DecidableEq

def System.step (s : System) : Event → Option System
  | .discover i => do
    let (offer, siaddr, server) ← Dhcp.discover s.server
    some { server, trace := s.trace ++ [.offered i offer siaddr] }
  | .request i ip siaddr => do
    let (reply, server) ← clientRequest i s.server ip siaddr
    some { server, trace := s.trace ++ [.replied i reply] }

/-- The clients call in any order, with any arguments. -/
def machine : Machine System Event where
  ok _ _ := True
  step := System.step

instance decidable_machine_ok (s : System) (e : Event) : Decidable (machine.ok s e) :=
  inferInstanceAs (Decidable True)

/-- The last non-zero reply that client `i` has received, or 0. -/
def lastReply (i : ClientId) (trace : List Obs) : UInt32 :=
  trace.foldl (fun last o => match o with
    | .offered _ _ _ => last
    | .replied j ip => if j = i ∧ ip ≠ 0 then ip else last) 0

end Camkes.Dhcp
