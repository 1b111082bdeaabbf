import BinanceNativeApp.Capacity
import BinanceNativeApp.Download
import BinanceNativeApp.MultiLoop
import BinanceNativeApp.Rest

/-!
# What `restful::get_file` tells of its transfer

libcurl calls the write function from within `curl_multi_perform`, and leaves
the code a transfer ended with as a message in the multi handle.  `multi_loop`
looks at `still_running` only and `get_file` at the buffer only, so that the
message stays where it is.
-/

set_option autoImplicit false

namespace BinanceNativeApp.Truncation

open BinanceNativeApp.Library.Containers
open BinanceNativeApp.Library.Memory
open BinanceNativeApp.Buffer
open BinanceNativeApp.Buffer.BufferStruct
open BinanceNativeApp.Capacity
open BinanceNativeApp.Download
open BinanceNativeApp.MultiLoop

/-- What libcurl makes of a transfer: the chunks that it delivers in each call
that leaves the transfer running, those of the last call, and the `CURLcode` it
ends with.  A chunk is a block of memory, with a length of `w` bits. -/
structure FileTransfer (w : Nat) where
  running : List (List Delivery)
  last : List Delivery
  code : Nat
  addressable : ∀ delivery ∈ running.flatten ++ last, delivery.contents.length < 2 ^ w

def FileTransfer.deliveries {w : Nat} (transfer : FileTransfer w) : List Delivery :=
  transfer.running.flatten ++ transfer.last

/-- The multi handle with its only easy handle.  `mem` is the buffer that the
write function is given, `none` once an append has left its blocks. -/
structure MultiHandle where
  running : List (List Delivery)
  last : Option (List Delivery × Nat)
  mem : Option BufferStruct
  messages : List Nat

def curlMultiPerform (w : Nat) (s : MultiHandle) : MultiHandle × Int :=
  match s.running, s.last with
  | deliveries :: rest, _ => ({ s with running := rest, mem := s.mem >>= receive w deliveries }, 1)
  | [], some (deliveries, code) =>
      ({ s with
        last := none
        mem := s.mem >>= receive w deliveries
        messages := s.messages ++ [code] }, 0)
  | [], none => (s, 0)

/-- `none` when the loop goes on after these rounds, too. -/
def getFile {w : Nat} (elided : Bool) (rounds : List Round) (transfer : FileTransfer w) :
    Option BufferStruct := do
  let multiHandle : MultiHandle :=
    ⟨transfer.running, some (transfer.last, transfer.code), some BufferStruct.default, []⟩
  let s ← multiLoop (curlMultiPerform w) rounds multiHandle
  let bufferPtr ← s.multiHandle.mem
  if elided then some bufferPtr else copy bufferPtr

/-! ## The chunks of all calls -/

theorem calls_running {w : Nat} {running : List (List Delivery)} {last : List Delivery}
    {code : Nat} {messages : List Nat} (mem : Option BufferStruct)
    (addressable : ∀ delivery ∈ running.flatten ++ last, delivery.contents.length < 2 ^ w) :
    (∀ m < running.length,
      (calls (curlMultiPerform w) m ⟨running, some (last, code), mem, messages⟩).2 = 1) ∧
    calls (curlMultiPerform w) running.length ⟨running, some (last, code), mem, messages⟩ =
      (⟨[], none, mem >>= receive w (running.flatten ++ last), messages ++ [code]⟩, 0) := by
  induction running generalizing mem with
  | nil =>
      refine ⟨?_, rfl⟩
      intro m early
      cases early
  | cons deliveries rest ih =>
      rw [List.flatten_cons, List.append_assoc] at addressable ⊢
      obtain ⟨here, later⟩ := List.forall_mem_append.mp addressable
      obtain ⟨before, atLast⟩ := ih (mem >>= receive w deliveries) later
      refine ⟨?_, ?_⟩
      · intro m early
        cases m with
        | zero => rfl
        | succ m => exact before m (Nat.lt_of_succ_lt_succ early)
      · have joined : mem >>= receive w (deliveries ++ (rest.flatten ++ last)) =
            (mem >>= receive w deliveries) >>= receive w (rest.flatten ++ last) := by
          cases mem with
          | none => rfl
          | some s => exact receive_append here _ s
        rw [joined]
        exact atLast

theorem getFile_eq {w : Nat} (elided : Bool) (rounds : List Round) (transfer : FileTransfer w) :
    getFile elided rounds transfer =
      if transfer.running.length ≤ rounds.countP Round.answered then
        Download.getFile w elided transfer.deliveries
      else none := by
  obtain ⟨running, last, code, addressable⟩ := transfer
  obtain ⟨still, atLast⟩ : (∀ m < running.length, (calls (curlMultiPerform w) m
        ⟨running, some (last, code), some BufferStruct.default, []⟩).2 = 1) ∧
      calls (curlMultiPerform w) running.length
          ⟨running, some (last, code), some BufferStruct.default, []⟩ =
        (⟨[], none, receive w (running.flatten ++ last) BufferStruct.default, [code]⟩, 0) :=
    calls_running (some BufferStruct.default) addressable
  have finished := congrArg Prod.snd atLast
  have before : ∀ m < running.length, (calls (curlMultiPerform w) m
      ⟨running, some (last, code), some BufferStruct.default, []⟩).2 ≠ 0 := by
    intro m early
    rw [still m early]
    decide
  have ends := multiLoop_ends_iff finished before rounds
  rw [getFile]
  cases returned : multiLoop (curlMultiPerform w) rounds
      ⟨running, some (last, code), some BufferStruct.default, []⟩ with
  | none =>
      have fewer : ¬ running.length ≤ rounds.countP Round.answered := by
        rw [← ends, returned]
        simp
      rw [if_neg fewer]
      rfl
  | some s =>
      have ended := (multiLoop_ended finished before returned).trans atLast
      have handle := congrArg Prod.fst ended
      dsimp only at handle
      rw [if_pos (ends.mp ⟨s, returned⟩), Option.bind_eq_bind, Option.bind_some, handle]
      rfl

theorem receive_holds {w : Nat} {deliveries : List Delivery} {mem final : BufferStruct}
    {content : Bytes} (holds : Holds w mem content)
    (addressable : ∀ delivery ∈ deliveries, delivery.contents.length < 2 ^ w)
    (received : receive w deliveries mem = some final) :
    Holds w final (content ++ delivered deliveries) := by
  induction deliveries generalizing mem content with
  | nil =>
      cases received
      simpa [delivered] using holds
  | cons delivery rest ih =>
      obtain ⟨here, later⟩ := List.forall_mem_cons.mp addressable
      rw [receive_cons here] at received
      obtain ⟨next, appended, nextHolds, _⟩ | ⟨_, _, unavailable, _⟩ | ⟨outside, _⟩ :=
        append_cases holds ⟨true, delivery.contents⟩ [] Bool.noConfusion
      · rw [appended, Option.bind_some] at received
        have complete := ih nextHolds later received
        rwa [List.append_assoc] at complete
      · cases unavailable
      · rw [outside] at received
        cases received

theorem getFile_holds {w : Nat} {elided : Bool} {rounds : List Round}
    {transfer : FileTransfer w} {file : BufferStruct}
    (returned : getFile elided rounds transfer = some file) :
    Holds w file (delivered transfer.deliveries) := by
  rw [getFile_eq] at returned
  split at returned
  · obtain ⟨bufferPtr, received, handed⟩ := Option.bind_eq_some_iff.mp returned
    have holds := receive_holds (default_holds w) transfer.addressable received
    rw [List.nil_append] at holds
    cases elided with
    | true =>
        cases handed
        exact holds
    | false =>
        obtain ⟨next, copied, nextHolds, _⟩ := copy_holds holds
        have same : copy bufferPtr = some file := handed
        rw [copied] at same
        rw [← Option.some.inj same]
        exact nextHolds
  · cases returned

/-! ## What the caller sees -/

def readable (file : BufferStruct) : Option (Block UInt8) := read file.data file.size

theorem readable_of_holds {w : Nat} {file : BufferStruct} {content : Bytes}
    (holds : Holds w file content) : readable file = some (content.map some) := by
  rw [readable, holds.size]
  exact read_of_starts holds.data

/-- Of any two runs, however the transfers ended: the results can be told apart
if and only if other bytes were delivered. -/
theorem results_differ_iff {w : Nat} {one other : FileTransfer w} {elided otherElided : Bool}
    {rounds otherRounds : List Round} {file otherFile : BufferStruct}
    (run : getFile elided rounds one = some file)
    (otherRun : getFile otherElided otherRounds other = some otherFile) :
    readable file ≠ readable otherFile ↔
      delivered one.deliveries ≠ delivered other.deliveries := by
  rw [readable_of_holds (getFile_holds run), readable_of_holds (getFile_holds otherRun)]
  have injective : Function.Injective (some : UInt8 → Option UInt8) :=
    fun _ _ same => Option.some.inj same
  constructor
  · intro differ same
    exact differ (by rw [same])
  · intro differ same
    exact differ (List.map_injective_iff.mpr injective (Option.some.inj same))

/-! ## Transfers of one chunk -/

def oneByte (byte : UInt8) : Delivery := ⟨[byte], 1, 1, rfl⟩

def atOnce (byte : UInt8) (code : Nat) : FileTransfer 64 where
  running := []
  last := [oneByte byte]
  code := code
  addressable := by
    intro delivery member
    have length : delivery.contents.length = 1 := by rw [List.mem_singleton.mp member]; rfl
    omega

def curlePartialFile : Nat := 18

theorem atOnce_returns (byte : UInt8) (code : Nat) :
    ∃ file, getFile true [] (atOnce byte code) = some file := ⟨_, rfl⟩

theorem results_differ_iff_otherByte :
    ∃ file otherFile, getFile true [] (atOnce 1 Rest.curleOk) = some file ∧
      getFile true [] (atOnce 2 curlePartialFile) = some otherFile ∧
      readable file ≠ readable otherFile := by
  obtain ⟨file, run⟩ := atOnce_returns 1 Rest.curleOk
  obtain ⟨otherFile, otherRun⟩ := atOnce_returns 2 curlePartialFile
  have otherBytes : delivered (atOnce 1 Rest.curleOk).deliveries ≠
      delivered (atOnce 2 curlePartialFile).deliveries := by decide
  exact ⟨file, otherFile, run, otherRun, (results_differ_iff run otherRun).mpr otherBytes⟩

/-- A complete transfer and one that was cut off hand over the same file. -/
theorem truncated_taken_for_complete :
    (atOnce 1 Rest.curleOk).code = Rest.curleOk ∧
      (atOnce 1 curlePartialFile).code ≠ Rest.curleOk ∧
      ∃ file, getFile true [] (atOnce 1 Rest.curleOk) = some file ∧
        getFile true [] (atOnce 1 curlePartialFile) = some file := by
  refine ⟨rfl, ?_, _, rfl, rfl⟩
  decide

end BinanceNativeApp.Truncation
