/-!
# The program's version and default peers
-/

namespace SignedRecords

/-- The version of the program. -/
def version : String := "0.1.0"

/-- The peers that a node asks first when it is given none. -/
def defaultBootstrapPeers : List String :=
  ["router.magnets.im:6881",
   "router.bittorrent.com:6881",
   "dht.transmissionbt.com:6881",
   "router.utorrent.com:6881",
   "router.nuh.dev:6881"]

end SignedRecords
