import BinanceNativeApp.Library.Loops

/-!
# `multi_loop`

The loop that drives a transfer calls `curl_multi_perform` until no handle is
running, and waits in between for as long as `get_timeout` and
`wait_if_needed` make it.  What a call of `curl_multi_perform` makes of the
multi handle is an argument, and so is what each round meets: the time out and
the descriptors libcurl asks for, and the answer of `select`.  A round in which
`select` fails makes no call, so that only the other rounds count.
-/

set_option autoImplicit false

namespace BinanceNativeApp.MultiLoop

open BinanceNativeApp.Library.Loops

structure Timeval where
  sec : Int
  usec : Int
  deriving DecidableEq

def curlmOk : Int := 0

/-- What the calls of one round answer.  `curl_multi_timeout` leaves
`curlTimeo`, `curl_multi_fdset` returns `mc` and leaves `maxfd`, and `select`,
if it is called, returns `selected`. -/
structure Round where
  curlTimeo : Int
  mc : Int
  maxfd : Int
  selected : Int
  least : -1 ≤ maxfd
  deriving DecidableEq

inductive WaitEffect where
  | fdsetFailed (mc : Int)
  | sleepFor (milliseconds : Nat)
  | select (nfds : Int) (timeout : Timeval)
  deriving DecidableEq

def getTimeout (curlTimeo : Int) : Timeval :=
  let timeout : Timeval := ⟨1, 0⟩
  if 0 ≤ curlTimeo then
    let timeout := { timeout with sec := curlTimeo.tdiv 1000 }
    if 1 < timeout.sec then
      { timeout with sec := 1 }
    else
      { timeout with usec := curlTimeo.tmod 1000 * 1000 }
  else
    timeout

def waitIfNeeded (round : Round) (timeout : Timeval) : Int × List WaitEffect :=
  let failed := if round.mc ≠ curlmOk then [.fdsetFailed round.mc] else []
  let slept := if round.maxfd = -1 then [.sleepFor 100] else []
  if round.maxfd ≠ -1 then
    (round.selected, failed ++ slept ++ [.select (round.maxfd + 1) timeout])
  else
    (0, failed ++ slept)

structure Loop (Handle : Type) where
  multiHandle : Handle
  stillRunning : Int
  waits : List WaitEffect

section Functions
variable {Handle : Type} (curlMultiPerform : Handle → Handle × Int)

def perform (s : Loop Handle) : Loop Handle :=
  let (multiHandle, stillRunning) := curlMultiPerform s.multiHandle
  { s with multiHandle := multiHandle, stillRunning := stillRunning }

/-- After a `select` error the round ends here. -/
def iteration (round : Round) (s : Loop Handle) : Loop Handle :=
  let timeout := getTimeout round.curlTimeo
  let (rc, waits) := waitIfNeeded round timeout
  let s := { s with waits := s.waits ++ waits }
  if 0 ≤ rc then perform curlMultiPerform s else s

/-- `none` when the loop goes on after these rounds. -/
def multiLoop (rounds : List Round) (multiHandle : Handle) : Option (Loop Handle) :=
  whileLoop (fun s => decide (s.stillRunning ≠ 0)) (iteration curlMultiPerform) rounds
    (perform curlMultiPerform ⟨multiHandle, 0, []⟩)

/-- The multi handle and `still_running` after `n` calls that follow the first
one. -/
def calls (n : Nat) (multiHandle : Handle) : Handle × Int :=
  (fun result => curlMultiPerform result.1)^[n] (curlMultiPerform multiHandle)

end Functions

/-! ## The waits -/

def WaitEffect.Proper : WaitEffect → Prop
  | .select nfds timeout =>
      0 < nfds ∧ 0 ≤ timeout.sec ∧ timeout.sec ≤ 1 ∧ 0 ≤ timeout.usec ∧ timeout.usec < 1000000
  | _ => True

theorem getTimeout_range (curlTimeo : Int) :
    0 ≤ (getTimeout curlTimeo).sec ∧ (getTimeout curlTimeo).sec ≤ 1 ∧
      0 ≤ (getTimeout curlTimeo).usec ∧ (getTimeout curlTimeo).usec < 1000000 := by
  unfold getTimeout
  by_cases given : 0 ≤ curlTimeo
  · simp only [if_pos given, Int.tdiv_eq_ediv_of_nonneg given, Int.tmod_eq_emod_of_nonneg given]
    split
    · exact ⟨by decide, by decide, by decide, by decide⟩
    · rename_i short
      refine ⟨?_, ?_, ?_, ?_⟩
      all_goals
        dsimp only at short ⊢
        omega
  · rw [if_neg given]
    exact ⟨by decide, by decide, by decide, by decide⟩

theorem waitIfNeeded_proper (round : Round) (curlTimeo : Int) :
    ∀ wait ∈ (waitIfNeeded round (getTimeout curlTimeo)).2, wait.Proper := by
  have failedProper : ∀ wait ∈ (if round.mc ≠ curlmOk then [.fdsetFailed round.mc] else [] :
      List WaitEffect), wait.Proper := by
    intro wait member
    split at member
    · rw [List.mem_singleton.mp member]
      trivial
    · cases member
  have sleptProper : ∀ wait ∈ (if round.maxfd = -1 then [.sleepFor 100] else [] :
      List WaitEffect), wait.Proper := by
    intro wait member
    split at member
    · rw [List.mem_singleton.mp member]
      trivial
    · cases member
  have least := round.least
  unfold waitIfNeeded
  by_cases sockets : round.maxfd = -1
  · rw [if_neg (by simpa using sockets)]
    exact List.forall_mem_append.mpr ⟨failedProper, sleptProper⟩
  · rw [if_pos sockets]
    refine List.forall_mem_append.mpr
      ⟨List.forall_mem_append.mpr ⟨failedProper, sleptProper⟩, ?_⟩
    intro wait member
    rw [List.mem_singleton.mp member]
    exact ⟨by omega, getTimeout_range curlTimeo⟩

variable {Handle : Type} {curlMultiPerform : Handle → Handle × Int}

theorem iteration_waits (round : Round) (s : Loop Handle) :
    (iteration curlMultiPerform round s).waits =
      s.waits ++ (waitIfNeeded round (getTimeout round.curlTimeo)).2 := by
  simp only [iteration]
  split
  · rfl
  · rfl

/-- Whatever libcurl asks for, `select` never fails for its time out or for the
number of descriptors being negative. -/
theorem multiLoop_waits_proper {rounds : List Round} {multiHandle : Handle}
    {s : Loop Handle} (returned : multiLoop curlMultiPerform rounds multiHandle = some s) :
    ∀ wait ∈ s.waits, wait.Proper := by
  have kept : ∀ (round : Round) (s : Loop Handle), decide (s.stillRunning ≠ 0) = true →
      (∀ wait ∈ s.waits, wait.Proper) →
      ∀ wait ∈ (iteration curlMultiPerform round s).waits, wait.Proper := by
    intro round s _ proper
    rw [iteration_waits]
    exact List.forall_mem_append.mpr ⟨proper, waitIfNeeded_proper round round.curlTimeo⟩
  have nothing : ∀ wait ∈ (perform curlMultiPerform ⟨multiHandle, 0, []⟩).waits, wait.Proper := by
    intro wait member
    cases member
  exact (whileLoop_keeps _ kept nothing returned).1

/-! ## When the loop returns -/

/-- The wait ended otherwise than by a `select` error. -/
def Round.answered (round : Round) : Bool := round.maxfd = -1 || 0 ≤ round.selected

def answeredAmong (rounds : Nat → Round) (k : Nat) : Nat :=
  ((List.range k).map rounds).countP Round.answered

/-- After finitely many of the rounds the loop is over, with nothing running. -/
def Returns (curlMultiPerform : Handle → Handle × Int) (rounds : Nat → Round)
    (multiHandle : Handle) : Prop :=
  ∃ k s, multiLoop curlMultiPerform ((List.range k).map rounds) multiHandle = some s ∧
    s.stillRunning = 0

theorem waitIfNeeded_answered (round : Round) (timeout : Timeval) :
    0 ≤ (waitIfNeeded round timeout).1 ↔ round.answered = true := by
  unfold waitIfNeeded Round.answered
  by_cases sockets : round.maxfd = -1
  · simp [sockets]
  · simp [sockets]

/-- Only the calls of `curl_multi_perform` tell on the handle and on
`still_running`. -/
theorem multiLoop_waits (curlMultiPerform : Handle → Handle × Int) :
    Waits (fun s : Loop Handle => decide (s.stillRunning ≠ 0)) (iteration curlMultiPerform)
      (fun s => (s.multiHandle, s.stillRunning)) (fun result => decide (result.2 ≠ 0))
      (fun result => curlMultiPerform result.1) Round.answered := by
  constructor
  · intro s
    rfl
  · intro round s
    have answered := waitIfNeeded_answered round (getTimeout round.curlTimeo)
    simp only [iteration]
    by_cases moves : round.answered = true
    · rw [if_pos (answered.mpr moves), if_pos moves]
      rfl
    · rw [if_neg (mt answered.mp moves), if_neg moves]

section Finished
variable {multiHandle : Handle} {n : Nat} (finished : (calls curlMultiPerform n multiHandle).2 = 0)
  (before : ∀ m < n, (calls curlMultiPerform m multiHandle).2 ≠ 0)
include finished before

theorem multiLoop_ends_iff (rounds : List Round) :
    (∃ s, multiLoop curlMultiPerform rounds multiHandle = some s) ↔
      n ≤ rounds.countP Round.answered := by
  have returns := returns_iff_of_waits (multiLoop_waits curlMultiPerform) rounds
    (perform curlMultiPerform ⟨multiHandle, 0, []⟩)
  constructor
  · intro ends
    obtain ⟨m, counted, exited⟩ := returns.mp ends
    have stopped : (calls curlMultiPerform m multiHandle).2 = 0 :=
      Decidable.not_not.mp (of_decide_eq_false exited)
    by_contra fewer
    exact before m (by omega) stopped
  · intro counted
    have stops : decide ((calls curlMultiPerform n multiHandle).2 ≠ 0) = false := by
      simpa using finished
    exact returns.mpr ⟨n, counted, stops⟩

theorem multiLoop_ended {rounds : List Round} {s : Loop Handle}
    (returned : multiLoop curlMultiPerform rounds multiHandle = some s) :
    (s.multiHandle, s.stillRunning) = calls curlMultiPerform n multiHandle := by
  obtain ⟨m, _, same, exited, earlier⟩ :=
    result_of_waits (multiLoop_waits curlMultiPerform) returned
  have reached : (s.multiHandle, s.stillRunning) = calls curlMultiPerform m multiHandle := same
  have notLater : m ≤ n := by
    by_contra later
    exact of_decide_eq_true (earlier n (by omega)) finished
  have notEarlier : n ≤ m := by
    by_contra sooner
    apply before m (by omega)
    rw [← reached]
    simpa using exited
  rw [reached, Nat.le_antisymm notLater notEarlier]

/-- `n` is the number of calls that libcurl needs after the first one.  The
loop returns if and only if `n` waits come back without a `select` error. -/
theorem multiLoop_returns_iff (rounds : Nat → Round) :
    Returns curlMultiPerform rounds multiHandle ↔ ∃ k, n ≤ answeredAmong rounds k := by
  constructor
  · intro returns
    obtain ⟨k, s, returned, _⟩ := returns
    exact ⟨k, (multiLoop_ends_iff finished before _).mp ⟨s, returned⟩⟩
  · intro enough
    obtain ⟨k, counted⟩ := enough
    obtain ⟨s, returned⟩ := (multiLoop_ends_iff finished before _).mpr counted
    have ended := multiLoop_ended finished before returned
    exact ⟨k, s, returned, (congrArg Prod.snd ended).trans finished⟩

end Finished

/-! ## A transfer that needs a second call -/

def secondCallFinishes (made : Nat) : Nat × Int := (made + 1, if made = 0 then 1 else 0)

def selectError : Round := ⟨0, curlmOk, 3, -1, by decide⟩

def socketReady : Round := ⟨0, curlmOk, 3, 1, by decide⟩

theorem multiLoop_returns_iff_recovered :
    Returns secondCallFinishes (fun i => if i < 2 then selectError else socketReady) 0 := by
  have before : ∀ m < 1, (calls secondCallFinishes m 0).2 ≠ 0 := by decide
  exact (multiLoop_returns_iff rfl before _).mpr ⟨3, by decide⟩

theorem persistentError_never_returns :
    (calls secondCallFinishes 1 0).2 = 0 ∧
      ¬ Returns secondCallFinishes (fun _ => selectError) 0 := by
  refine ⟨rfl, ?_⟩
  intro returns
  obtain ⟨k, s, returned, _⟩ := returns
  have before : ∀ m < 1, (calls secondCallFinishes m 0).2 ≠ 0 := by decide
  have counted := (multiLoop_ends_iff rfl before _).mp ⟨s, returned⟩
  have none : ((List.range k).map fun _ => selectError).countP Round.answered = 0 := by
    apply List.countP_eq_zero.mpr
    intro round member
    obtain ⟨_, _, rfl⟩ := List.mem_map.mp member
    decide
  omega

end BinanceNativeApp.MultiLoop
