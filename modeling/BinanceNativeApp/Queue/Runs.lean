import BinanceNativeApp.Library.Transition
import BinanceNativeApp.Queue.TryDequeue

/-!
# Runs of the queue

However `enqueue` and `try_dequeue` follow one another, the queue is one list
for every thread, whatever the indices have wrapped around and the block index
has grown in between.
-/

set_option autoImplicit false

namespace BinanceNativeApp.Queue

open BinanceNativeApp.Library.Circular
open BinanceNativeApp.Library.Transition

variable {T : Type}

/-! ## What the queue is for -/

/-- A call, with the memory that can be had during it. -/
inductive Op (T : Type) where
  | enqueue (memory : Memory) (id : Nat) (element : T)
  | tryDequeue

inductive Outcome (T : Type) where
  | enqueued (ok : Bool)
  | dequeued (item : Option T)

/-- The answers of one list for every thread. -/
inductive Answers : (Nat → List T) → Op T → List (Outcome T) → (Nat → List T) → Prop
  | accepted (streams : Nat → List T) (memory : Memory) (id : Nat) (element : T) :
      Answers streams (.enqueue memory id element) [.enqueued true]
        (Function.update streams id (streams id ++ [element]))
  | refused (streams : Nat → List T) (memory : Memory) (id : Nat) (element : T) :
      Answers streams (.enqueue memory id element) [.enqueued false] streams
  | taken {streams : Nat → List T} {id : Nat} {first : T} {rest : List T}
      (held : streams id = first :: rest) :
      Answers streams .tryDequeue [.dequeued (some first)] (Function.update streams id rest)
  | empty {streams : Nat → List T} (nothing : ∀ id, streams id = []) :
      Answers streams .tryDequeue [.dequeued none] streams

def step (w : Nat) : Op T → ConcurrentQueue T → Option (ConcurrentQueue T × List (Outcome T))
  | .enqueue memory id element, q =>
      (enqueue w memory id element q).map fun next => (next.2, [.enqueued next.1])
  | .tryDequeue, q => (tryDequeue w q).map fun next => (next.2, [.dequeued next.1])

def Op.Enough : Op T → Prop
  | .enqueue memory _ _ => memory.Enough
  | .tryDequeue => True

def RefusedAtEnd (w : Nat) (streams : Nat → List T) (emitted : List (Outcome T)) : Prop :=
  .enqueued false ∈ emitted → ∃ id, 2 ^ (w - 1) ≤ (streams id).length + blockSize

theorem step_answers {w : Nat} (bits : 10 ≤ w) (op : Op T) (q : ConcurrentQueue T)
    (streams : Nat → List T) (represents : Represents w q streams) :
    ∃ next emitted streams', step w op q = some (next, emitted) ∧
      Answers streams op emitted streams' ∧ Represents w next streams' ∧
        (op.Enough → Equipped q → Equipped next ∧ RefusedAtEnd w streams emitted) := by
  cases op with
  | enqueue memory id element =>
    obtain ⟨ok, q', done, represents', refusal⟩ := represents.enqueue bits memory id element
    refine ⟨q', [.enqueued ok], _, by rw [step, done]; rfl, ?_, represents',
      fun enough equipped => ?_⟩
    · cases ok with
      | true => exact .accepted streams memory id element
      | false => exact .refused streams memory id element
    · obtain ⟨equipped', long⟩ := refusal enough equipped
      refine ⟨equipped', fun refused => ?_⟩
      cases List.mem_singleton.mp refused
      exact ⟨id, long rfl⟩
  | tryDequeue =>
    rcases represents.tryDequeue bits with
      ⟨done, nothing⟩ | ⟨first, q', id, rest, done, held, represents', equipped'⟩
    · exact ⟨q, [.dequeued none], streams, by rw [step, done]; rfl, .empty nothing, represents,
        fun _ equipped => ⟨equipped, nofun⟩⟩
    · exact ⟨q', [.dequeued (some first)], _, by rw [step, done]; rfl, .taken held, represents',
        fun _ equipped => ⟨equipped' equipped, nofun⟩⟩

/-- No call goes wrong, and the answers are those of one list for every thread. -/
theorem run_answers {w : Nat} (bits : 10 ≤ w) (available : Bool) (capacity : Nat)
    (ops : List (Op T)) :
    ∃ q outcomes streams,
      sequence (step w) ops (concurrentQueue available capacity) = some (q, outcomes) ∧
        Trace Answers (fun _ => []) ops outcomes streams ∧ Represents w q streams := by
  refine sequence_refines (fun op _ q streams represents => ?_)
    (represents_constructed w available capacity)
  obtain ⟨next, emitted, streams', stepped, answered, represents', -⟩ :=
    step_answers bits op q streams represents
  exact ⟨next, emitted, streams', stepped, answered, represents'⟩

/-! ## Order -/

def acceptedElements : List (Op T) → List (Outcome T) → List T
  | .enqueue _ _ element :: ops, .enqueued ok :: outcomes =>
      if ok then element :: acceptedElements ops outcomes else acceptedElements ops outcomes
  | _ :: ops, _ :: outcomes => acceptedElements ops outcomes
  | _, _ => []

def deliveredElements : List (Outcome T) → List T
  | .dequeued (some item) :: outcomes => item :: deliveredElements outcomes
  | _ :: outcomes => deliveredElements outcomes
  | [] => []

/-- The elements tell which thread they come from. -/
def Op.Labelled (tag : T → Nat) : Op T → Prop
  | .enqueue _ id element => tag element = id
  | .tryDequeue => True

def ofThread (tag : T → Nat) (id : Nat) (items : List T) : List T :=
  items.filter fun item => tag item = id

def Sorted (tag : T → Nat) (streams : Nat → List T) : Prop :=
  ∀ id, ∀ item ∈ streams id, tag item = id

theorem Answers.in_order {tag : T → Nat} {op : Op T} (labelled : op.Labelled tag)
    {streams streams' : Nat → List T} {emitted : List (Outcome T)}
    (answered : Answers streams op emitted streams') (sorted : Sorted tag streams) :
    Sorted tag streams' ∧ ∀ ops outcomes id,
      streams id ++ ofThread tag id (acceptedElements (op :: ops) (emitted ++ outcomes)) =
        ofThread tag id (deliveredElements emitted) ++
          (streams' id ++ ofThread tag id (acceptedElements ops outcomes)) := by
  cases answered with
  | accepted memory thread element =>
    change tag element = thread at labelled
    constructor
    · intro id item held
      by_cases same : id = thread
      · subst same
        rw [Function.update_self] at held
        rcases List.mem_append.mp held with old | new
        · exact sorted id item old
        · rw [List.mem_singleton.mp new, labelled]
      · rw [Function.update_of_ne same] at held
        exact sorted id item held
    · intro ops outcomes id
      show streams id ++ ofThread tag id (element :: acceptedElements ops outcomes) = _
      by_cases same : id = thread
      · subst same
        rw [Function.update_self, ofThread, List.filter_cons_of_pos (by simpa using labelled),
          List.append_assoc]
        rfl
      · have other : ¬tag element = id := by
          rw [labelled]
          exact Ne.symm same
        rw [Function.update_of_ne same, ofThread, List.filter_cons_of_neg (by simpa using other)]
        rfl
  | refused => exact ⟨sorted, fun ops outcomes id => rfl⟩
  | @taken thread first rest held =>
    have mine : tag first = thread := sorted thread first (by rw [held]; exact List.mem_cons_self)
    constructor
    · intro id item there
      by_cases same : id = thread
      · subst same
        rw [Function.update_self] at there
        exact sorted id item (by rw [held]; exact List.mem_cons_of_mem _ there)
      · rw [Function.update_of_ne same] at there
        exact sorted id item there
    · intro ops outcomes id
      show streams id ++ ofThread tag id (acceptedElements ops outcomes) =
        ofThread tag id [first] ++ _
      by_cases same : id = thread
      · subst same
        rw [Function.update_self, held, ofThread, ofThread,
          List.filter_cons_of_pos (by simpa using mine)]
        rfl
      · have other : ¬tag first = id := by
          rw [mine]
          exact Ne.symm same
        rw [Function.update_of_ne same, ofThread, ofThread,
          List.filter_cons_of_neg (by simpa using other)]
        rfl
  | empty => exact ⟨sorted, fun ops outcomes id => rfl⟩

theorem deliveredElements_append (first second : List (Outcome T)) :
    deliveredElements (first ++ second) = deliveredElements first ++ deliveredElements second := by
  induction first with
  | nil => rfl
  | cons outcome rest ih =>
    rcases outcome with ok | (_ | item)
    · exact ih
    · exact ih
    · exact congrArg (item :: ·) ih

theorem trace_in_order {tag : T → Nat} {streams streams' : Nat → List T} {ops : List (Op T)}
    {outcomes : List (Outcome T)} (labelled : ∀ op ∈ ops, op.Labelled tag)
    (trace : Trace Answers streams ops outcomes streams') (sorted : Sorted tag streams) (id : Nat) :
    streams id ++ ofThread tag id (acceptedElements ops outcomes) =
      ofThread tag id (deliveredElements outcomes) ++ streams' id := by
  induction trace with
  | nil streams => exact List.append_nil _
  | cons answered rest ih =>
    obtain ⟨sorted', order⟩ :=
      answered.in_order (labelled _ List.mem_cons_self) sorted
    rw [order, ih (fun op later => labelled op (List.mem_cons_of_mem _ later)) sorted',
      deliveredElements_append]
    simp only [ofThread, List.filter_append, List.append_assoc]

/-- Of every thread, what was accepted has come out in that order or is still in
the queue, which is empty when `try_dequeue` finds nothing. -/
theorem elements_in_order {w : Nat} (bits : 10 ≤ w) (available : Bool) (capacity : Nat)
    (tag : T → Nat) {ops : List (Op T)} (labelled : ∀ op ∈ ops, op.Labelled tag) :
    ∃ q outcomes, ∃ left : Nat → List T,
      sequence (step w) ops (concurrentQueue available capacity) = some (q, outcomes) ∧
        (∀ id, ofThread tag id (acceptedElements ops outcomes) =
          ofThread tag id (deliveredElements outcomes) ++ left id) ∧
        (tryDequeue w q = some (none, q) ∧ (∀ id, left id = []) ∨
          ∃ first q' id rest, tryDequeue w q = some (some first, q') ∧
            left id = first :: rest) := by
  obtain ⟨q, outcomes, left, ran, trace, represents⟩ := run_answers bits available capacity ops
  refine ⟨q, outcomes, left, ran, fun id => ?_, ?_⟩
  · exact trace_in_order labelled trace (fun _ _ nothing => absurd nothing List.not_mem_nil) id
  · rcases represents.tryDequeue bits with done | ⟨first, q', id, rest, done, held, -⟩
    · exact .inl done
    · exact .inr ⟨first, q', id, rest, done, held⟩

def twoThreads : List (Op Nat) :=
  [.enqueue ⟨true, true, true, true⟩ 0 2, .enqueue ⟨true, true, true, true⟩ 1 3, .tryDequeue]

theorem elements_in_order_twoThreads :
    ∃ q outcomes, ∃ left : Nat → List Nat,
      sequence (step 64) twoThreads (concurrentQueue true 1024) = some (q, outcomes) ∧
        (∀ id, ofThread (· % 2) id (acceptedElements twoThreads outcomes) =
          ofThread (· % 2) id (deliveredElements outcomes) ++ left id) ∧
        (tryDequeue 64 q = some (none, q) ∧ (∀ id, left id = []) ∨
          ∃ first q' id rest, tryDequeue 64 q = some (some first, q') ∧
            left id = first :: rest) := by
  refine elements_in_order (by decide) true 1024 (· % 2) fun op inside => ?_
  simp only [twoThreads, List.mem_cons, List.not_mem_nil, or_false] at inside
  rcases inside with rfl | rfl | rfl
  · exact Nat.mod_self 2
  · rfl
  · trivial

/-! ## Refusals -/

def AnswersBelow (w : Nat) (streams : Nat → List T) (op : Op T) (emitted : List (Outcome T))
    (streams' : Nat → List T) : Prop :=
  Answers streams op emitted streams' ∧ RefusedAtEnd w streams emitted

def Ready (w : Nat) (q : ConcurrentQueue T) (streams : Nat → List T) : Prop :=
  Represents w q streams ∧ Equipped q

theorem step_below {w : Nat} (bits : 10 ≤ w) {op : Op T} (enough : op.Enough)
    (q : ConcurrentQueue T) (streams : Nat → List T) (ready : Ready w q streams) :
    ∃ next emitted streams', step w op q = some (next, emitted) ∧
      AnswersBelow w streams op emitted streams' ∧ Ready w next streams' := by
  obtain ⟨next, emitted, streams', stepped, answered, represents', memories⟩ :=
    step_answers bits op q streams ready.1
  obtain ⟨equipped', refused⟩ := memories enough ready.2
  exact ⟨next, emitted, streams', stepped, ⟨answered, refused⟩, represents', equipped'⟩

theorem ready_constructed (w : Nat) (available : Bool) (capacity : Nat) :
    Ready w (concurrentQueue (T := T) available capacity) fun _ => [] :=
  ⟨represents_constructed w available capacity, nofun⟩

theorem Answers.length {streams streams' : Nat → List T} {op : Op T}
    {emitted : List (Outcome T)} (answered : Answers streams op emitted streams') (id : Nat) :
    (streams' id).length ≤ (streams id).length + 1 := by
  cases answered with
  | accepted memory thread element =>
    by_cases same : id = thread
    · rw [same, Function.update_self, List.length_append, List.length_singleton]
    · rw [Function.update_of_ne same]
      exact Nat.le_succ _
  | refused => exact Nat.le_succ _
  | @taken thread first rest held =>
    by_cases same : id = thread
    · rw [same, Function.update_self, held, List.length_cons]
      omega
    · rw [Function.update_of_ne same]
      exact Nat.le_succ _
  | empty => exact Nat.le_succ _

theorem trace_accepts {w : Nat} {streams streams' : Nat → List T} {ops : List (Op T)}
    {outcomes : List (Outcome T)}
    (trace : Trace (AnswersBelow w) streams ops outcomes streams')
    (short : ∀ id, (streams id).length + ops.length + blockSize ≤ 2 ^ (w - 1)) :
    .enqueued false ∉ outcomes := by
  induction trace with
  | nil streams => exact List.not_mem_nil
  | @cons streams next final op ops emitted outcomes answered rest ih =>
    intro refused
    rcases List.mem_append.mp refused with now | later
    · obtain ⟨id, long⟩ := answered.2 now
      have bound := short id
      rw [List.length_cons] at bound
      omega
    · refine ih (fun id => ?_) later
      have bound := short id
      have grown := answered.1.length id
      rw [List.length_cons] at bound
      omega

/-- With memory for every call nothing is refused, as long as there have been
fewer calls than half the range has indices. -/
theorem nothing_refused {w : Nat} (bits : 10 ≤ w) (available : Bool) (capacity : Nat)
    {ops : List (Op T)} (enough : ∀ op ∈ ops, op.Enough)
    (short : ops.length + blockSize ≤ 2 ^ (w - 1)) :
    ∃ q outcomes,
      sequence (step w) ops (concurrentQueue available capacity) = some (q, outcomes) ∧
        .enqueued false ∉ outcomes := by
  obtain ⟨q, outcomes, streams, ran, trace, -⟩ :=
    sequence_refines (fun op inside q streams => step_below bits (enough op inside) q streams)
      (ready_constructed w available capacity)
  refine ⟨q, outcomes, ran, trace_accepts trace fun id => ?_⟩
  rw [List.length_nil, Nat.zero_add]
  exact short

theorem nothing_refused_twoThreads :
    ∃ q outcomes,
      sequence (step 64) twoThreads (concurrentQueue true 1024) = some (q, outcomes) ∧
        .enqueued false ∉ outcomes := by
  refine nothing_refused (by decide) true 1024 (fun op inside => ?_) (by decide)
  simp only [twoThreads, List.mem_cons, List.not_mem_nil, or_false] at inside
  rcases inside with rfl | rfl | rfl
  · exact ⟨rfl, rfl, rfl, rfl⟩
  · exact ⟨rfl, rfl, rfl, rfl⟩
  · trivial

end BinanceNativeApp.Queue
