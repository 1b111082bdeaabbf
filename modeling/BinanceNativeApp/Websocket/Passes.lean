import BinanceNativeApp.Websocket.Routing

/-!
# A pass of `event_loop` is a run

`event_loop` visits the subscribers in order and then lets `lws_service`
deliver its callbacks.  Event by event the world does the same, so that what
is known of every run is known of a pass.
-/

set_option autoImplicit false

namespace BinanceNativeApp.Websocket.Passes

open BinanceNativeApp.Library.Containers
open BinanceNativeApp.Library.Transition
open BinanceNativeApp.Websocket.Subscriptions
open BinanceNativeApp.Websocket.Runs
open BinanceNativeApp.Websocket.Routing

variable {Handle Func : Type} [DecidableEq Handle]

def respond : Event Handle Func → Api Handle Func →
    Option (Api Handle Func × List (Effect Handle Func))
  | .connectEndpoint path func created outcome completed =>
      connectEndpoint path func created outcome completed
  | .visit i met => visit i met
  | .callback c => eventCbImpl c.wsi c.reason c.input

def passEvents (script : Nat → Visit Handle) (callbacks : List (Callback Handle))
    (subscribers : Nat) : List (Event Handle Func) :=
  (List.range subscribers).map (fun i => .visit i (script i)) ++ callbacks.map .callback

theorem step_respond (event : Event Handle Func) (g : World Handle Func) :
    (g.step event).map (Prod.map World.api id) = respond event g.api := by
  cases event with
  | connectEndpoint path func created outcome completed =>
      simp only [World.step, respond]
      cases connectEndpoint path func created outcome completed g.api <;> rfl
  | visit i met =>
      simp only [World.step, respond]
      cases visit i met g.api <;> rfl
  | callback c =>
      simp only [World.step, respond]
      cases eventCbImpl c.wsi c.reason c.input g.api <;> rfl

theorem eventLoop_responds (script : Nat → Visit Handle) (callbacks : List (Callback Handle))
    (s : Api Handle Func) :
    eventLoop script callbacks s =
      sequence respond (passEvents script callbacks s.subscribers.length) s := by
  rw [passEvents, sequence_append]
  simp only [eventLoop, sequence_map, respond, Option.bind_eq_bind]
  cases sequence (fun i => visit i (script i)) (List.range s.subscribers.length) s with
  | none => rfl
  | some middle =>
      simp only [Option.bind_some]
      cases sequence (fun c : Callback Handle => eventCbImpl c.wsi c.reason c.input) callbacks
        middle.1 <;> rfl

/-- The pass that starts in world `g`, with what libwebsockets does in it, is
allowed. -/
def PassAllowed (script : Nat → Visit Handle) (callbacks : List (Callback Handle))
    (g : World Handle Func) : Prop :=
  Offered (world Handle Func) (passEvents script callbacks g.api.subscribers.length) g

theorem eventLoop_is_run {script : Nat → Visit Handle} {callbacks : List (Callback Handle)}
    {g : World Handle Func} {after : Api Handle Func} {effects : List (Effect Handle Func)}
    (permitted : PassAllowed script callbacks g)
    (ran : eventLoop script callbacks g.api = some (after, effects)) :
    ∃ moves final, Path (world Handle Func) g moves final ∧ final.api = after ∧
      moves.map Move.label = passEvents script callbacks g.api.subscribers.length ∧
      moves.flatMap Move.emitted = effects := by
  rw [eventLoop_responds, ← sequence_project World.api step_respond] at ran
  obtain ⟨⟨final, emitted⟩, stepped, same⟩ := Option.map_eq_some_iff.mp ran
  obtain ⟨rfl, rfl⟩ := Prod.mk.inj same
  obtain ⟨moves, run, labels, outputs⟩ := path_of_sequence permitted stepped
  exact ⟨moves, final, run, rfl, labels, outputs⟩

/-- A pass never indexes `subscribers_` out of range. -/
theorem eventLoop_defined {script : Nat → Visit Handle} {callbacks : List (Callback Handle)}
    {g : World Handle Func} (reached : Reachable (world Handle Func) g)
    (permitted : PassAllowed script callbacks g) :
    ∃ after effects, eventLoop script callbacks g.api = some (after, effects) := by
  obtain ⟨final, emitted, stepped⟩ := sequence_defined routed_preserved
    (fun g event routed permitted => step_defined routed event permitted)
    (reachable_routed reached) permitted
  refine ⟨final.api, emitted, ?_⟩
  rw [eventLoop_responds, ← sequence_project World.api step_respond]
  exact congrArg (Option.map (Prod.map World.api id)) stepped

end BinanceNativeApp.Websocket.Passes
