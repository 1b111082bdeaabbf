import BinanceNativeApp.Buffer

/-!
# Buffers at work, and `restful::get_file`

What a buffer is for is told by byte strings: `append` extends one, the copy
constructor adds another one equal to it.  The buffers keep up with them
through every sequence of these operations.  `get_file` is one such sequence,
with `write_to_memory` between libcurl and the buffer.
-/

set_option autoImplicit false

namespace BinanceNativeApp.Download

open BinanceNativeApp.Library.Containers
open BinanceNativeApp.Buffer
open BinanceNativeApp.Buffer.BufferStruct

/-! ## Operations on buffers -/

/-- The buffers are numbered in the order of their construction. -/
inductive Operation where
  | append (buffer : Nat) (content : Bytes)
  | copy (buffer : Nat)
  deriving DecidableEq

def Operation.appended : Operation → Nat
  | .append _ content => content.length
  | .copy _ => 0

def totalAppended (operations : List Operation) : Nat :=
  (operations.map Operation.appended).sum

def perform (w : Nat) (buffers : List BufferStruct) : Operation → Option (List BufferStruct)
  | .append i content => do
      let s ← buffers[i]?
      let (_, s) ← append w true content s
      some (buffers.set i s)
  | .copy i => do
      let s ← buffers[i]?
      let copied ← copy s
      some (buffers ++ [copied])

def performContents (contents : List Bytes) : Operation → Option (List Bytes)
  | .append i content => do
      let held ← contents[i]?
      some (contents.set i (held ++ content))
  | .copy i => do
      let held ← contents[i]?
      some (contents ++ [held])

/-- The capacity is at most twice the size. -/
structure Represents (w : Nat) (s : BufferStruct) (content : Bytes) : Prop
    extends Holds w s content where
  spare : s.maxSize ≤ 2 * s.size

theorem default_represents (w : Nat) : Represents w BufferStruct.default [] :=
  ⟨default_holds w, Nat.le_refl 0⟩

theorem append_represents {w : Nat} {s : BufferStruct} {content added : Bytes}
    (represents : Represents w s content)
    (bound : (content.length + added.length) * 2 < 2 ^ w) :
    ∃ next, append w true added s = some (true, next) ∧ Represents w next (content ++ added) := by
  have size := represents.size
  have spare := represents.spare
  by_cases room : s.size + added.length ≤ s.maxSize
  · obtain ⟨next, appended, holds, capacity⟩ := append_in_place represents.toHolds true room
    have nextSize := size_of_appended represents.toHolds holds
    exact ⟨next, appended, holds, by omega⟩
  · have grows : s.maxSize < s.size + added.length := by omega
    obtain ⟨next, appended, holds, capacity⟩ := append_grown represents.toHolds grows (by omega)
    have nextSize := size_of_appended represents.toHolds holds
    exact ⟨next, appended, holds, by omega⟩

theorem copy_represents {w : Nat} {s : BufferStruct} {content : Bytes}
    (represents : Represents w s content) :
    ∃ next, copy s = some next ∧ Represents w next content := by
  obtain ⟨next, copied, holds, capacity⟩ := copy_holds represents.toHolds
  have size := represents.size
  have spare := represents.spare
  have nextSize := holds.size
  exact ⟨next, copied, holds, by omega⟩

structure Corresponds (w : Nat) (buffers : List BufferStruct) (contents : List Bytes) : Prop where
  number : buffers.length = contents.length
  each : ∀ (i : Nat) (content : Bytes), contents[i]? = some content →
    ∃ s, buffers[i]? = some s ∧ Represents w s content

theorem corresponds_set {w : Nat} {buffers : List BufferStruct} {contents : List Bytes}
    (corresponds : Corresponds w buffers contents) (i : Nat) {s : BufferStruct} {content : Bytes}
    (represents : Represents w s content) :
    Corresponds w (buffers.set i s) (contents.set i content) := by
  refine ⟨by simpa using corresponds.number, ?_⟩
  intro j other found
  rw [List.getElem?_set] at found ⊢
  by_cases here : i = j
  · rw [if_pos here] at found ⊢
    split at found
    · rename_i inRange
      rw [← corresponds.number] at inRange
      rw [if_pos inRange]
      exact ⟨s, rfl, Option.some.inj found ▸ represents⟩
    · cases found
  · rw [if_neg here] at found ⊢
    exact corresponds.each j other found

theorem corresponds_append {w : Nat} {buffers : List BufferStruct} {contents : List Bytes}
    (corresponds : Corresponds w buffers contents) {s : BufferStruct} {content : Bytes}
    (represents : Represents w s content) :
    Corresponds w (buffers ++ [s]) (contents ++ [content]) := by
  refine ⟨by simpa using corresponds.number, ?_⟩
  intro j other found
  rcases Nat.lt_trichotomy j contents.length with earlier | rfl | beyond
  · rw [List.getElem?_append_left earlier] at found
    rw [List.getElem?_append_left (by rw [corresponds.number]; exact earlier)]
    exact corresponds.each j other found
  · rw [List.getElem?_concat_length] at found
    rw [← corresponds.number, List.getElem?_concat_length]
    exact ⟨s, rfl, Option.some.inj found ▸ represents⟩
  · have inRange := (List.getElem?_eq_some_iff.mp found).1
    rw [List.length_append, List.length_singleton] at inRange
    omega

theorem perform_corresponds {w : Nat} {buffers : List BufferStruct} {contents : List Bytes}
    {operation : Operation} {after : List Bytes} (corresponds : Corresponds w buffers contents)
    (meant : performContents contents operation = some after)
    (bound : ∀ content ∈ contents, (content.length + operation.appended) * 2 < 2 ^ w) :
    ∃ next, perform w buffers operation = some next ∧ Corresponds w next after := by
  cases operation with
  | append i added =>
      obtain ⟨content, held, same⟩ := Option.bind_eq_some_iff.mp meant
      obtain ⟨s, found, represents⟩ := corresponds.each i content held
      obtain ⟨next, appended, extended⟩ :=
        append_represents represents (bound content (List.mem_of_getElem? held))
      refine ⟨buffers.set i next, ?_, ?_⟩
      · simp only [perform, found, appended, Option.bind_eq_bind, Option.bind_some]
      · rw [← Option.some.inj same]
        exact corresponds_set corresponds i extended
  | copy i =>
      obtain ⟨content, held, same⟩ := Option.bind_eq_some_iff.mp meant
      obtain ⟨s, found, represents⟩ := corresponds.each i content held
      obtain ⟨next, copied, equal⟩ := copy_represents represents
      refine ⟨buffers ++ [next], ?_, ?_⟩
      · simp only [perform, found, copied, Option.bind_eq_bind, Option.bind_some]
      · rw [← Option.some.inj same]
        exact corresponds_append corresponds equal

theorem performContents_length {contents after : List Bytes} {operation : Operation}
    (meant : performContents contents operation = some after) {content : Bytes}
    (member : content ∈ after) :
    ∃ before ∈ contents, content.length ≤ before.length + operation.appended := by
  cases operation with
  | append i added =>
      obtain ⟨held, found, same⟩ := Option.bind_eq_some_iff.mp meant
      rw [← Option.some.inj same] at member
      obtain kept | rfl := List.mem_or_eq_of_mem_set member
      · exact ⟨content, kept, Nat.le_add_right _ _⟩
      · exact ⟨held, List.mem_of_getElem? found, List.length_append.le⟩
  | copy i =>
      obtain ⟨held, found, same⟩ := Option.bind_eq_some_iff.mp meant
      rw [← Option.some.inj same] at member
      obtain kept | new := List.mem_append.mp member
      · exact ⟨content, kept, Nat.le_add_right _ _⟩
      · rw [List.mem_singleton.mp new]
        exact ⟨held, List.mem_of_getElem? found, Nat.le_add_right _ _⟩

theorem operations_correspond {w : Nat} {operations : List Operation}
    {buffers : List BufferStruct} {contents after : List Bytes}
    (corresponds : Corresponds w buffers contents)
    (meant : operations.foldlM performContents contents = some after)
    (bound : ∀ content ∈ contents,
      (content.length + totalAppended operations) * 2 < 2 ^ w) :
    ∃ final, operations.foldlM (perform w) buffers = some final ∧ Corresponds w final after := by
  induction operations generalizing buffers contents with
  | nil => exact ⟨buffers, rfl, Option.some.inj meant ▸ corresponds⟩
  | cons operation rest ih =>
      have sum : totalAppended (operation :: rest) =
          operation.appended + totalAppended rest := rfl
      rw [List.foldlM_cons] at meant
      obtain ⟨middle, first, later⟩ := Option.bind_eq_some_iff.mp meant
      obtain ⟨next, performed, nextCorresponds⟩ : ∃ next, perform w buffers operation =
          some next ∧ Corresponds w next middle := by
        apply perform_corresponds corresponds first
        intro content member
        have total := bound content member
        omega
      obtain ⟨final, ran, finalCorresponds⟩ : ∃ final, rest.foldlM (perform w) next =
          some final ∧ Corresponds w final after := by
        apply ih nextCorresponds later
        intro content member
        obtain ⟨before, known, grown⟩ := performContents_length first member
        have total := bound before known
        omega
      refine ⟨final, ?_, finalCorresponds⟩
      rw [List.foldlM_cons, performed]
      exact ran

/-! ## `get_file` -/

/-- One call of the write function. -/
structure Delivery where
  contents : Bytes
  size : Nat
  nmemb : Nat
  delivered : contents.length = size * nmemb

def delivered (deliveries : List Delivery) : Bytes :=
  deliveries.flatMap fun delivery => delivery.contents

/-- Answers with what it returns to libcurl. -/
def writeToMemory (w : Nat) (delivery : Delivery) (mem : BufferStruct) :
    Option (Nat × BufferStruct) := do
  let realsize := delivery.size * delivery.nmemb % 2 ^ w
  let (_, mem) ← append w true (delivery.contents.take realsize) mem
  some (realsize, mem)

/-- libcurl delivers until the write function returns another length than it
was given. -/
def receive (w : Nat) : List Delivery → BufferStruct → Option BufferStruct
  | [], mem => some mem
  | delivery :: rest, mem => do
      let (written, mem) ← writeToMemory w delivery mem
      if written = delivery.contents.length then receive w rest mem else some mem

/-- The buffer that is returned is the local one, or a copy of it where the
compiler does not elide it. -/
def getFile (w : Nat) (elided : Bool) (deliveries : List Delivery) : Option BufferStruct := do
  let bufferPtr ← receive w deliveries BufferStruct.default
  if elided then some bufferPtr else copy bufferPtr

theorem writeToMemory_eq {w : Nat} {delivery : Delivery}
    (addressable : delivery.contents.length < 2 ^ w) (mem : BufferStruct) :
    writeToMemory w delivery mem =
      (append w true delivery.contents mem).map fun left => (delivery.contents.length, left.2) := by
  have realsize : delivery.size * delivery.nmemb % 2 ^ w = delivery.contents.length := by
    rw [← delivery.delivered]
    exact Nat.mod_eq_of_lt addressable
  simp only [writeToMemory, realsize, List.take_length]
  cases append w true delivery.contents mem <;> rfl

theorem receive_cons {w : Nat} {delivery : Delivery}
    (addressable : delivery.contents.length < 2 ^ w) (rest : List Delivery) (mem : BufferStruct) :
    receive w (delivery :: rest) mem =
      (append w true delivery.contents mem).bind fun left => receive w rest left.2 := by
  rw [receive, writeToMemory_eq addressable]
  cases append w true delivery.contents mem with
  | none => rfl
  | some left => simp

/-- The write function takes every chunk whole, so that a transfer goes on from
call to call. -/
theorem receive_append {w : Nat} {first : List Delivery}
    (addressable : ∀ delivery ∈ first, delivery.contents.length < 2 ^ w)
    (second : List Delivery) (mem : BufferStruct) :
    receive w (first ++ second) mem = receive w first mem >>= receive w second := by
  induction first generalizing mem with
  | nil => rfl
  | cons delivery rest ih =>
      obtain ⟨here, later⟩ := List.forall_mem_cons.mp addressable
      rw [List.cons_append, receive_cons here, receive_cons here]
      cases append w true delivery.contents mem with
      | none => rfl
      | some left => exact ih later left.2

theorem writeToMemory_represents {w : Nat} {mem : BufferStruct} {content : Bytes}
    (represents : Represents w mem content) (delivery : Delivery)
    (bound : (content.length + delivery.contents.length) * 2 < 2 ^ w) :
    ∃ next, writeToMemory w delivery mem = some (delivery.contents.length, next) ∧
      Represents w next (content ++ delivery.contents) := by
  have addressable : delivery.contents.length < 2 ^ w := by omega
  obtain ⟨next, appended, extended⟩ := append_represents represents bound
  refine ⟨next, ?_, extended⟩
  rw [writeToMemory_eq addressable, appended]
  rfl

theorem receive_represents {w : Nat} {deliveries : List Delivery} {mem : BufferStruct}
    {content : Bytes} (represents : Represents w mem content)
    (bound : (content.length + (delivered deliveries).length) * 2 < 2 ^ w) :
    ∃ final, receive w deliveries mem = some final ∧
      Represents w final (content ++ delivered deliveries) := by
  induction deliveries generalizing mem content with
  | nil => exact ⟨mem, rfl, by simpa [delivered] using represents⟩
  | cons delivery rest ih =>
      have whole : delivered (delivery :: rest) = delivery.contents ++ delivered rest := rfl
      rw [whole, List.length_append] at bound
      obtain ⟨next, written, extended⟩ :=
        writeToMemory_represents represents delivery (by omega)
      obtain ⟨final, received, complete⟩ := ih extended (by rw [List.length_append]; omega)
      refine ⟨final, ?_, ?_⟩
      · simp only [receive, written, Option.bind_eq_bind, Option.bind_some, if_true, received]
      · rw [whole, ← List.append_assoc]
        exact complete

theorem getFile_represents {w : Nat} (elided : Bool) {deliveries : List Delivery}
    (bound : (delivered deliveries).length * 2 < 2 ^ w) :
    ∃ file, getFile w elided deliveries = some file ∧
      Represents w file (delivered deliveries) := by
  obtain ⟨bufferPtr, received, represents⟩ :=
    receive_represents (default_represents w) (by simpa using bound)
  rw [List.nil_append] at represents
  cases elided with
  | true => exact ⟨bufferPtr, by simp [getFile, received], represents⟩
  | false =>
      obtain ⟨file, copied, equal⟩ := copy_represents represents
      exact ⟨file, by simp [getFile, received, copied], equal⟩

theorem double_lt {n w : Nat} (half : n < 2 ^ (w - 1)) : n * 2 < 2 ^ w := by
  cases w with
  | zero =>
      rw [Nat.zero_sub, Nat.pow_zero] at half
      omega
  | succ bits =>
      rw [Nat.add_sub_cancel] at half
      rw [Nat.pow_succ]
      omega

/-- No sequence of operations leaves a block, and each buffer holds what was
appended to it or to the one it was copied from before. -/
theorem buffers_hold_appended (w : Nat) :
    (∀ (operations : List Operation) (contents : List Bytes),
      operations.foldlM performContents [[]] = some contents →
      totalAppended operations < 2 ^ (w - 1) →
      ∃ buffers, operations.foldlM (perform w) [BufferStruct.default] = some buffers ∧
        Corresponds w buffers contents) ∧
    (∀ (elided : Bool) (deliveries : List Delivery),
      (delivered deliveries).length < 2 ^ (w - 1) →
      ∃ file, getFile w elided deliveries = some file ∧
        Represents w file (delivered deliveries)) := by
  refine ⟨?_, fun elided deliveries half => getFile_represents elided (double_lt half)⟩
  intro operations contents meant half
  have nothing : Corresponds w [] [] := ⟨rfl, by simp⟩
  have single : Corresponds w [BufferStruct.default] [[]] :=
    corresponds_append nothing (default_represents w)
  apply operations_correspond single meant
  intro content member
  rw [List.mem_singleton.mp member]
  have double := double_lt half
  simpa using double

theorem buffers_hold_appended_copy :
    ∃ buffers, [Operation.append 0 [1, 2], .copy 0, .append 1 [3], .append 0 []].foldlM
        (perform 64) [BufferStruct.default] = some buffers ∧
      Corresponds 64 buffers [[1, 2], [1, 2, 3]] :=
  (buffers_hold_appended 64).1 _ _ rfl (by decide)

end BinanceNativeApp.Download
