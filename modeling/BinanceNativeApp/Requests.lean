import Mathlib.Data.List.Forall2
import BinanceNativeApp.Library.Transition
import BinanceNativeApp.Rest

/-!
# Request after request

All requests go over one curl handle, whose options outlive the strings they
point to.  Every request sets them before libcurl uses them, so that what an
earlier one has left behind, failed or not, is never seen.
-/

set_option autoImplicit false

namespace BinanceNativeApp.Requests

open BinanceNativeApp.Library.Containers
open BinanceNativeApp.Library.Transition
open BinanceNativeApp.Rest

structure Request where
  url : Bytes
  transfer : Transfer
  deriving DecidableEq

def perform (request : Request) (s : Client) : Option (Client × List Response) := do
  let (response, s) ← get request.url request.transfer s
  some (s, [response])

structure Answers (request : Request) (response : Response) : Prop where
  succeeded : request.transfer.code = curleOk → response.returned = true ∧
    ∃ view, response.invoked = [view] ∧ view.bytes = request.transfer.body
  failed : request.transfer.code ≠ curleOk → response.returned = false ∧ response.invoked = []

theorem get_answers (request : Request) (s : Client) :
    ∃ response left, get request.url request.transfer s = some (response, left) ∧
      Answers request response := by
  obtain ⟨left, returned⟩ := get_eq request.url request.transfer s
  refine ⟨_, left, returned, ?_, ?_⟩
  · intro ok
    rw [if_pos ok]
    exact ⟨rfl, _, rfl, StringView.bytes_ofString _⟩
  · intro failed
    rw [if_neg failed]
    exact ⟨rfl, rfl⟩

/-- Every request gets the body of its own response, whatever the handle has
been used for before. -/
theorem requests_answered (requests : List Request) (s : Client) :
    ∃ final responses, sequence perform requests s = some (final, responses) ∧
      List.Forall₂ Answers requests responses := by
  induction requests generalizing s with
  | nil => exact ⟨s, [], rfl, List.Forall₂.nil⟩
  | cons request rest ih =>
      obtain ⟨response, left, returned, answers⟩ := get_answers request s
      obtain ⟨final, responses, ran, later⟩ := ih left
      refine ⟨final, response :: responses, ?_, List.Forall₂.cons answers later⟩
      simp only [Library.Transition.sequence, perform, returned, Option.bind_eq_bind,
        Option.bind_some, ran, List.singleton_append]

end BinanceNativeApp.Requests
