import BinanceNativeApp.Library.Transition
import BinanceNativeApp.Library.Containers
import BinanceNativeApp.Library.Json
import BinanceNativeApp.Websocket.Subscriptions
import BinanceNativeApp.Websocket.Runs
import BinanceNativeApp.Websocket.Routing
import BinanceNativeApp.Websocket.Passes
import BinanceNativeApp.Websocket.Agreement
import BinanceNativeApp.Websocket.FailedAttempts
import BinanceNativeApp.Websocket.SessionEnd
import BinanceNativeApp.Websocket.Fragments
import BinanceNativeApp.Ticker
import BinanceNativeApp.Control
import BinanceNativeApp.Archive
import BinanceNativeApp.Rest
import BinanceNativeApp.Exchange.ExchangeInfo
import BinanceNativeApp.Exchange.Documents
import BinanceNativeApp.Exchange.Refresh
import BinanceNativeApp.Buffer
import BinanceNativeApp.Capacity
import BinanceNativeApp.ControlRuns
import BinanceNativeApp.Download
import BinanceNativeApp.Exchange.Listing
import BinanceNativeApp.Exchange.ListingRuns
import BinanceNativeApp.Extraction
import BinanceNativeApp.Requests
import BinanceNativeApp.Streams
import BinanceNativeApp.Websocket.Throttle
import BinanceNativeApp.Heartbeat
import BinanceNativeApp.Library.Loops
import BinanceNativeApp.MultiLoop
import BinanceNativeApp.Truncation
import BinanceNativeApp.Program.Loop
import BinanceNativeApp.Ownership.Stores
import BinanceNativeApp.Exchange.References
import BinanceNativeApp.Queue.ControlQueue
import BinanceNativeApp.Queue.FreeListCalls
import BinanceNativeApp.Queue.DequeueCalls
