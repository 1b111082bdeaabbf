import BinanceNativeApp.Control
import BinanceNativeApp.Streams
import BinanceNativeApp.Websocket.Passes

/-!
# The process

`main` from its first call of the MQTT client to its last.  A callback of
`ticker::subscribe` reaches the client through the `this` it has captured, so
that every subscription carries the pointer of its ticker.  What the services
decide are arguments again: return codes, connection outcomes, arrivals, and
for each callback of libwebsockets the milliseconds the clock shows in it.

Where a document breaks a precondition of `rapidjson` the process is aborted:
assertions are taken to be on.  With `NDEBUG`, as in the `Release` build of the
Dockerfile, the behaviour is undefined there.  A step is undefined where it
reads a ticker that has been destroyed.
-/

set_option autoImplicit false

namespace BinanceNativeApp.Program

open BinanceNativeApp.Library.Containers
open BinanceNativeApp.Library.Json
open BinanceNativeApp.Library.Transition
open BinanceNativeApp.Utils
open BinanceNativeApp.Ticker
open BinanceNativeApp.Streams
open BinanceNativeApp.Control (MainLoop mqttArrivedCb ping)
open BinanceNativeApp.Websocket.Subscriptions
open BinanceNativeApp.Websocket.Runs
open BinanceNativeApp.Websocket.Passes

/-! ## The MQTT client -/

structure Options where
  name : Bytes
  host : Bytes
  symbols : Bytes
  deriving DecidableEq

def Options.default : Options where
  name := literal "binancenativeapp"
  host := literal "tcp://192.168.1.45:1883"
  symbols := literal "ethbtc;ltcbtc;bnbbtc"

def Options.topic (options : Options) : Bytes :=
  literal "strategy_control/" ++ options.name ++ literal "/control"

def Options.pingTopic (options : Options) : Bytes :=
  literal "strategy_control/" ++ options.name ++ literal "/ping"

inductive ClientCall where
  | create (host clientId : Bytes)
  | setCallbacks
  | connect (keepAliveInterval cleansession : Nat)
  | subscribe (topic : Bytes) (qos : Nat)
  | publish (publication : Publication)
  | disconnect (timeout : Nat)
  | destroy
  deriving DecidableEq

/-- The return codes of the calls that are checked. -/
structure Answers where
  setCallbacks : Int
  connect : Int
  subscribe : Int
  deriving DecidableEq

def mqttClientSuccess : Int := 0

/-- The calls up to the subscription of the control topic, and whether `main`
goes on; otherwise it returns `EXIT_FAILURE`. -/
def connectClient (options : Options) (clientId : Bytes) (answers : Answers) :
    List ClientCall × Bool :=
  let calls := [.create (cString options.host) (cString clientId), .setCallbacks]
  if answers.setCallbacks ≠ mqttClientSuccess then (calls, false)
  else
    let calls := calls ++ [.connect 20 1]
    if answers.connect ≠ mqttClientSuccess then (calls, false)
    else
      let calls := calls ++ [.subscribe (cString options.topic) 1]
      (calls, decide (answers.subscribe = mqttClientSuccess))

/-! ## The state -/

inductive Stage where
  | starting
  | failed
  | up
  | ended
  | aborted
  deriving DecidableEq

/-- The registered functions are given by the pointers of their tickers. -/
structure Process (Handle : Type) where
  stage : Stage
  control : MainLoop
  world : World Handle Nat
  tickers : Objects Unit

inductive Output (Handle : Type) where
  | client (call : ClientCall)
  | network (effect : Effect Handle Nat)
  | warn (text : Bytes)

/-- What a connection attempt at the start of `main` meets. -/
structure Opening (Handle : Type) where
  created : Int
  outcome : ConnectOutcome Handle
  completed : Int

inductive Event (Handle : Type) where
  | start (clientId : Bytes) (answers : Answers) (bookTicker aggTrade : Opening Handle) (now : Int)
  | arrived (topicName payload : Bytes)
  | iteration (script : Nat → Visit Handle) (callbacks : List (Callback Handle × Int64))
      (current : Int)
  | leave

section Functions
variable {Handle : Type}

/-! ## One iteration of the main loop -/

/-- The parsing comes before the ticker is read. -/
def execute (reader : Reader) (write : Value → Bytes) (tickers : Objects Unit) (epoch : Int64) :
    Effect Handle Nat → Option (Checked (List (Output Handle)))
  | .callbackFunc ticker message =>
      match subscribeCallback reader write epoch message with
      | .error violation => some (.error violation)
      | .ok published =>
          (tickers.read ticker).map fun _ =>
            .ok (published.map fun publication => .client (.publish publication))
  | .callbackOnWritable wsi => some (.ok [.network (.callbackOnWritable wsi)])
  | .clientConnectViaInfo info pwsi => some (.ok [.network (.clientConnectViaInfo info pwsi)])

/-- Answers with whether the process is still alive. -/
def executeAll (reader : Reader) (write : Value → Bytes) (tickers : Objects Unit)
    (epoch : Int64) : List (Effect Handle Nat) → Option (Bool × List (Output Handle))
  | [] => some (true, [])
  | effect :: rest => do
      match ← execute reader write tickers epoch effect with
      | .error _ => some (false, [])
      | .ok first =>
          let (alive, later) ← executeAll reader write tickers epoch rest
          some (alive, first ++ later)

variable [DecidableEq Handle]

def serve (reader : Reader) (write : Value → Bytes) (tickers : Objects Unit) :
    List (Callback Handle × Int64) → World Handle Nat →
      Option (Bool × World Handle Nat × List (Output Handle))
  | [], g => some (true, g, [])
  | (c, epoch) :: rest, g => do
      let (g, effects) ← g.step (.callback c)
      let (alive, outputs) ← executeAll reader write tickers epoch effects
      if alive then
        let (alive, g, later) ← serve reader write tickers rest g
        some (alive, g, outputs ++ later)
      else some (false, g, outputs)

def pass (reader : Reader) (write : Value → Bytes) (tickers : Objects Unit)
    (script : Nat → Visit Handle) (callbacks : List (Callback Handle × Int64))
    (g : World Handle Nat) : Option (Bool × World Handle Nat × List (Output Handle)) := do
  let (g, attempts) ← sequence (fun i g => g.step (.visit i (script i)))
    (List.range g.api.subscribers.length) g
  let (alive, g, outputs) ← serve reader write tickers callbacks g
  some (alive, g, attempts.map .network ++ outputs)

def controlOutput : Control.Effect → Output Handle
  | .publish topic payload => .client (.publish ⟨cString topic, payload, 0, false⟩)
  | .warn text => .warn text

def afterPass (reader : Reader) (write : Value → Bytes) (pingTopic : Bytes) (current : Int)
    (s : MainLoop) : Bool × MainLoop × List (Output Handle) :=
  match Control.iteration reader write pingTopic current s with
  | .ok (next, effects) => (true, next, effects.map controlOutput)
  | .error _ =>
      let (next, pings) := ping pingTopic current s
      (false, next, pings.map controlOutput)

def iteration (reader : Reader) (write : Value → Bytes) (options : Options)
    (script : Nat → Visit Handle) (callbacks : List (Callback Handle × Int64)) (current : Int)
    (s : Process Handle) : Option (Process Handle × List (Output Handle)) := do
  let (alive, world, served) ← pass reader write s.tickers script callbacks s.world
  if alive then
    let (alive, control, outputs) := afterPass reader write options.pingTopic current s.control
    let stage := if alive then s.stage else .aborted
    some ({ s with stage := stage, control := control, world := world }, served ++ outputs)
  else some ({ s with stage := .aborted, world := world }, served)

/-! ## The beginning and the end -/

/-- `ticker_` lives as long as the block in which it subscribes. -/
def subscribeStreams (symbols : Bytes) (bookTicker aggTrade : Opening Handle)
    (s : Process Handle) : Option (Process Handle × List (Effect Handle Nat)) :=
  if symbols.length ≠ 0 then do
    let pairs := split symbols 59
    let (ticker, tickers) := s.tickers.create ()
    let path ← channel pairs (literal "bookTicker")
    let (world, first) ← s.world.step (.connectEndpoint path ticker bookTicker.created
      bookTicker.outcome bookTicker.completed)
    let path ← channel pairs (literal "aggTrade")
    let (world, second) ← world.step (.connectEndpoint path ticker aggTrade.created
      aggTrade.outcome aggTrade.completed)
    some ({ s with world := world, tickers := tickers.destroy ticker }, first ++ second)
  else some (s, [])

def start (options : Options) (clientId : Bytes) (answers : Answers)
    (bookTicker aggTrade : Opening Handle) (now : Int) (s : Process Handle) :
    Option (Process Handle × List (Output Handle)) := do
  let (calls, connected) := connectClient options clientId answers
  if connected then
    let (s, effects) ← subscribeStreams options.symbols bookTicker aggTrade s
    some ({ s with stage := .up, control := ⟨true, now, s.control.q⟩ },
      calls.map .client ++ effects.map .network)
  else some ({ s with stage := .failed }, calls.map .client)

def step (reader : Reader) (write : Value → Bytes) (options : Options) (s : Process Handle) :
    Event Handle → Option (Process Handle × List (Output Handle))
  | .start clientId answers bookTicker aggTrade now =>
      start options clientId answers bookTicker aggTrade now s
  | .arrived topicName payload =>
      some ({ s with
        control := { s.control with q := mqttArrivedCb topicName payload s.control.q } }, [])
  | .iteration script callbacks current =>
      iteration reader write options script callbacks current s
  | .leave => some ({ s with stage := .ended }, [.client (.disconnect 10000), .client .destroy])

def Process.initial : Process Handle :=
  ⟨.starting, ⟨true, 0, []⟩, World.initial, Objects.empty⟩

/-- Messages arrive as long as the client is connected.  A handle is not handed
out again while its session is open. -/
def Event.Allowed (s : Process Handle) : Event Handle → Prop
  | .start _ _ bookTicker aggTrade _ => s.stage = .starting ∧
      ∀ wsi, bookTicker.outcome = .opened wsi → aggTrade.outcome.handle ≠ some wsi
  | .arrived _ _ => s.stage = .up
  | .iteration script callbacks _ => s.stage = .up ∧ s.control.run = true ∧
      PassAllowed script (callbacks.map Prod.fst) s.world
  | .leave => s.stage = .up ∧ s.control.run = false

def program (reader : Reader) (write : Value → Bytes) (options : Options) :
    System (Process Handle) (Event Handle) (Output Handle) where
  init := Process.initial
  allowed := fun s event => event.Allowed s
  step := step reader write options

end Functions

end BinanceNativeApp.Program
