import EthConnect.Basic
import EthConnect.ReqOffset
import EthConnect.InFlight
import EthConnect.SetComplete
import EthConnect.Loops
import EthConnect.Invariant
import EthConnect.Commit
import EthConnect.Join
import EthConnect.Handoff
import EthConnect.Confluence
import EthConnect.Redelivery
import EthConnect.Capacity
import EthConnect.Server
import EthConnect.Wait
import EthConnect.Decode
import EthConnect.Progress
