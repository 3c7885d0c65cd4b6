import Cryptomeria.Bitstamp.Ws
import Cryptomeria.Client.Run
import Cryptomeria.Kraken.Ws
import Cryptomeria.Okx.Ws

/-!
# The three clients

`rfc3339` is the reading of a timestamp that the Kraken client takes from the `chrono` crate.
-/

set_option autoImplicit false

namespace Cryptomeria

inductive Venue where
  | okx
  | kraken
  | bitstamp
deriving DecidableEq

def Venue.client (rfc3339 : String → Option ℤ) : Venue → ClientSpec
  | okx => Okx.client
  | kraken => Kraken.client rfc3339
  | bitstamp => Bitstamp.client

/-- A client of OKX with a database, for runs on fixed inputs. -/
def okxConfig : Config :=
  { instrument := "BTC-USDT", exchange := "okx", cliInstrument := "btcusdt"
    wsUrl := "wss://ws.okx.com:8443/ws/v5/public", maxLevelPct := .fin 10, sender := true }

end Cryptomeria
