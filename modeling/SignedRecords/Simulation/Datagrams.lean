import SignedRecords.Dht.Bootstrap
import SignedRecords.Dht.Exchange

/-!
# Datagrams that nobody answers

A host on which the sockets take every datagram and none arrives. A request there ends when its
time is up, and a node that joins a network finds nobody.
-/

namespace SignedRecords.Simulation

/-- Events one after the other, and what they lead to. Those that cannot happen are left out. -/
def play (x : Exchange) (now : Stamp) (events : List ExchangeEvent) :
    Exchange × List ExchangeAction :=
  events.foldl (fun (x, deeds) event =>
    match x.step now event with
    | some (y, more) => (y, deeds ++ more)
    | none => (x, deeds)) (x, [])

/-- A request that hears nothing, and what it ends with. -/
def ask (x : Exchange) (now : Stamp) (target : Address) (m : Message) (wait : Nat) :
    Exchange × Option (Except DhtError Message) :=
  let call := x.book.requests
  let (x, deeds) :=
    play x now [.request target m wait, .registers call, .sent call, .timesUp call]
  (x, deeds.findSome? fun
    | .ends n result => if n = call then some result else none
    | _ => none)

/-- Who has answered a ping, under the address that was asked. -/
def pinged (target : Address) : Option (Except DhtError Message) → Option Peer
  | some (.ok (.pong sender _)) => some { sender with addr := target }
  | _ => none

/-- The nodes in an answer. -/
def named : Option (Except DhtError Message) → List Peer
  | some (.ok (.foundNodes _ nodes _)) => nodes
  | _ => []

/-- Milliseconds that a node waits for its first peers. -/
def joinWait : Nat := 5000

/-- A node asks its first peers who they are, and those that answer for nodes near itself. -/
def join (x : Exchange) (self : Peer) (table : RoutingTable) (peers : List Address) (now : Stamp) :
    Exchange × RoutingTable :=
  let (x, reachable) := peers.foldl (fun (x, found) target =>
    let (x, answer) := ask x now target (.ping self 0) joinWait
    (x, found ++ (pinged target answer).toList)) (x, [])
  let (x, welcomes) := reachable.foldl (fun (x, found) peer =>
    let (x, answer) := ask x now peer.addr (.findNode self self.id 0) joinWait
    (x, found ++ [Welcome.mk peer (named answer)])) (x, [])
  (x, table.bootstrapped welcomes now)

end SignedRecords.Simulation
