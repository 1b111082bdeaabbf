import BinanceNativeApp.Library.Containers

/-!
# JSON values and checked access to them

The value type is that of a reader which keeps an object's members in the
order of the text, repeated names included, and distinguishes the integers it
can hand out as a 64-bit unsigned number.  Every accessor has a precondition
on the kind of value it is applied to, and a computation that breaks one ends
there: `Checked` records which.  The reader itself stays a parameter; what is
asked of it is that no text it accepts contains a NUL, as the grammar of JSON
has it.
-/

set_option autoImplicit false

namespace BinanceNativeApp.Library.Json

open BinanceNativeApp.Library.Containers

universe u v

/-! ## Computations that stop at a broken precondition -/

inductive Violation where
  | notAnObject
  | noSuchMember
  | notAString
  | notAUint64
  | notAnArray
  deriving DecidableEq, Repr

abbrev Checked (α : Type u) : Type u := Except Violation α

/-- The computation breaks no precondition. -/
def Passes {α : Type u} (computation : Checked α) : Prop := ∃ result, computation = .ok result

section Checked
variable {α β : Type u}

theorem bind_eq_ok_iff {first : Checked α} {next : α → Checked β} {result : β} :
    first >>= next = .ok result ↔ ∃ value, first = .ok value ∧ next value = .ok result := by
  cases first <;> simp [bind, Except.bind]

theorem pure_eq_ok_iff {value result : α} :
    (pure value : Checked α) = .ok result ↔ value = result := by
  simp [pure, Except.pure]

theorem passes_pure (value : α) : Passes (pure value : Checked α) := ⟨value, rfl⟩

theorem passes_bind {first : Checked α} {next : α → Checked β} :
    Passes (first >>= next) ↔ ∃ value, first = .ok value ∧ Passes (next value) := by
  constructor
  · intro passes
    obtain ⟨result, ran⟩ := passes
    obtain ⟨value, firstRan, nextRan⟩ := bind_eq_ok_iff.mp ran
    exact ⟨value, firstRan, result, nextRan⟩
  · intro passes
    obtain ⟨value, firstRan, result, nextRan⟩ := passes
    exact ⟨result, bind_eq_ok_iff.mpr ⟨value, firstRan, nextRan⟩⟩

end Checked

/-- A loop passes when each of its rounds does, provided that what the rounds
before it left behind has no say in whether a round passes. -/
theorem passes_foldlM {State : Type u} {Element : Type v} {body : State → Element → Checked State}
    {good : Element → Prop} (elements : List Element) (state : State)
    (round : ∀ state, ∀ element ∈ elements, Passes (body state element) ↔ good element) :
    Passes (elements.foldlM body state) ↔ ∀ element ∈ elements, good element := by
  induction elements generalizing state with
  | nil => exact iff_of_true (passes_pure state) (by simp)
  | cons element rest ih =>
      rw [List.foldlM_cons, passes_bind, List.forall_mem_cons]
      have later : ∀ next, Passes (rest.foldlM body next) ↔ ∀ other ∈ rest, good other :=
        fun next => ih next fun state other member =>
          round state other (List.mem_cons_of_mem element member)
      constructor
      · intro ran
        obtain ⟨next, ran, passes⟩ := ran
        exact ⟨(round state element List.mem_cons_self).mp ⟨next, ran⟩, (later next).mp passes⟩
      · intro allGood
        obtain ⟨goodHere, goodLater⟩ := allGood
        obtain ⟨next, ran⟩ := (round state element List.mem_cons_self).mpr goodHere
        exact ⟨next, ran, (later next).mpr goodLater⟩

theorem foldlM_eq_ok {State : Type u} {Element : Type v} {body : State → Element → Checked State}
    {round : State → Element → State} {elements : List Element}
    (passes : ∀ state, ∀ element ∈ elements, body state element = .ok (round state element))
    (state : State) : elements.foldlM body state = .ok (elements.foldl round state) := by
  induction elements generalizing state with
  | nil => rfl
  | cons element rest ih =>
      rw [List.foldlM_cons, passes state element List.mem_cons_self]
      exact ih (fun state other member => passes state other (List.mem_cons_of_mem element member))
        (round state element)

/-! ## Values -/

/-- `unsigned` are the integers from 0 up to 2^64, `negative` those from
-2^63 up to 0; every other number is a double, given by its bits. -/
inductive Number where
  | unsigned (value : UInt64)
  | negative (value : Int64)
  | double (bits : UInt64)
  deriving DecidableEq, Repr

inductive Value where
  | null
  | bool (value : Bool)
  | number (value : Number)
  | string (characters : Bytes)
  | array (elements : List Value)
  | object (members : List (Bytes × Value))
  deriving Repr

namespace Value

def ofInt64 (value : Int64) : Value :=
  .number (if 0 ≤ value then .unsigned value.toUInt64 else .negative value)

/-- The first member of that name, if the value is an object. -/
def member (name : Bytes) : Value → Option Value
  | .object members => members.lookup name
  | _ => none

/-! ### Accessors -/

def hasMember (value : Value) (name : Bytes) : Checked Bool :=
  match value with
  | .object members => .ok (members.lookup name).isSome
  | _ => .error .notAnObject

def subscript (value : Value) (name : Bytes) : Checked Value :=
  match value with
  | .object members =>
      match members.lookup name with
      | some found => .ok found
      | none => .error .noSuchMember
  | _ => .error .notAnObject

def getString : Value → Checked Bytes
  | .string characters => .ok characters
  | _ => .error .notAString

def getUint64 : Value → Checked UInt64
  | .number (.unsigned value) => .ok value
  | _ => .error .notAUint64

def getArray : Value → Checked (List Value)
  | .array elements => .ok elements
  | _ => .error .notAnArray

/-- A member of the same name that is there already stays where it is. -/
def addMember (value : Value) (name : Bytes) (added : Value) : Checked Value :=
  match value with
  | .object members => .ok (.object (members ++ [(name, added)]))
  | _ => .error .notAnObject

theorem hasMember_eq_ok_iff {value : Value} {name : Bytes} {answer : Bool} :
    value.hasMember name = .ok answer ↔
      ∃ members, value = .object members ∧ (members.lookup name).isSome = answer := by
  cases value <;> simp [hasMember]

theorem subscript_eq_ok_iff {value found : Value} {name : Bytes} :
    value.subscript name = .ok found ↔ value.member name = some found := by
  cases value with
  | object members => cases here : members.lookup name <;> simp [subscript, member, here]
  | _ => simp [subscript, member]

theorem getString_eq_ok_iff {value : Value} {characters : Bytes} :
    value.getString = .ok characters ↔ value = .string characters := by
  cases value <;> simp [getString]

theorem getUint64_eq_ok_iff {value : Value} {result : UInt64} :
    value.getUint64 = .ok result ↔ value = .number (.unsigned result) := by
  cases value with
  | number stored => cases stored <;> simp [getUint64]
  | _ => simp [getUint64]

theorem getArray_eq_ok_iff {value : Value} {elements : List Value} :
    value.getArray = .ok elements ↔ value = .array elements := by
  cases value <;> simp [getArray]

theorem addMember_eq_ok_iff {value added result : Value} {name : Bytes} :
    value.addMember name added = .ok result ↔
      ∃ members, value = .object members ∧ result = .object (members ++ [(name, added)]) := by
  cases value <;> simp [addMember, eq_comm]

theorem member_append_self {members : List (Bytes × Value)} {name : Bytes} (added : Value)
    (absent : members.lookup name = none) :
    (Value.object (members ++ [(name, added)])).member name = some added := by
  simp [member, List.lookup_append, absent]

theorem member_append_of_ne (members : List (Bytes × Value)) {name other : Bytes} (added : Value)
    (different : other ≠ name) :
    (Value.object (members ++ [(name, added)])).member other = members.lookup other := by
  have misses : (other == name) = false := beq_eq_false_iff_ne.mpr different
  simp [member, List.lookup_append, List.lookup_cons, misses]

/-! ### An accessor applied to a member -/

def stringAt (value : Value) (name : Bytes) : Checked Bytes := do
  (← value.subscript name).getString

def uint64At (value : Value) (name : Bytes) : Checked UInt64 := do
  (← value.subscript name).getUint64

def arrayAt (value : Value) (name : Bytes) : Checked (List Value) := do
  (← value.subscript name).getArray

theorem stringAt_eq_ok_iff {value : Value} {name characters : Bytes} :
    value.stringAt name = .ok characters ↔ value.member name = some (.string characters) := by
  simp only [stringAt, bind_eq_ok_iff, subscript_eq_ok_iff, getString_eq_ok_iff]
  exact exists_eq_right

theorem uint64At_eq_ok_iff {value : Value} {name : Bytes} {result : UInt64} :
    value.uint64At name = .ok result ↔
      value.member name = some (.number (.unsigned result)) := by
  simp only [uint64At, bind_eq_ok_iff, subscript_eq_ok_iff, getUint64_eq_ok_iff]
  exact exists_eq_right

theorem arrayAt_eq_ok_iff {value : Value} {name : Bytes} {elements : List Value} :
    value.arrayAt name = .ok elements ↔ value.member name = some (.array elements) := by
  simp only [arrayAt, bind_eq_ok_iff, subscript_eq_ok_iff, getArray_eq_ok_iff]
  exact exists_eq_right

end Value

/-! ## Readers -/

/-- `read` answers for a whole text. -/
structure Reader where
  read : Bytes → Option Value
  clean : ∀ {text : Bytes} {value : Value}, read text = some value → 0 ∉ text

namespace Reader

/-- Parse the C string that starts at these characters; a text that is not
JSON leaves a null document. -/
def parse (reader : Reader) (characters : Bytes) : Value :=
  (reader.read (cString characters)).getD .null

def ofTable (known : List (Bytes × Value)) : Reader where
  read text := if 0 ∈ text then none else known.lookup text
  clean := by
    intro text value found
    split at found
    · cases found
    · assumption

theorem read_ofTable_self {text : Bytes} (value : Value) (known : List (Bytes × Value))
    (clean : 0 ∉ text) :
    (ofTable ((text, value) :: known)).read (cString text) = some value := by
  rw [cString_eq_self clean]
  simp [ofTable, clean]

variable {reader : Reader} {characters text : Bytes} {value : Value}

theorem parse_ofString (reader : Reader) (characters : Bytes) :
    reader.parse (StringView.ofString characters).memory = reader.parse characters := by
  simp only [parse]
  rw [← StringView.dataString, StringView.dataString_ofString]

theorem cString_of_read (found : reader.read text = some value) : cString text = text :=
  cString_eq_self (reader.clean found)

/-- What is parsed as anything but null stands in the text as a whole JSON
document. -/
theorem read_of_parse (parsed : reader.parse characters = value) (proper : value ≠ .null) :
    reader.read (cString characters) = some value := by
  cases found : reader.read (cString characters) with
  | none =>
      rw [parse, found] at parsed
      exact absurd parsed.symm proper
  | some document =>
      rw [parse, found] at parsed
      exact congrArg some parsed

theorem parse_of_read (found : reader.read (cString characters) = some value) :
    reader.parse characters = value := by
  rw [parse, found, Option.getD_some]

end Reader

end BinanceNativeApp.Library.Json
