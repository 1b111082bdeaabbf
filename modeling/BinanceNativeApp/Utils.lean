import Mathlib.Data.List.Basic
import BinanceNativeApp.Library.Containers

/-!
# Splitting and combining

`utils::split` cuts a string at every delimiter, `utils::combine` puts the
delimiter between the parts again.  `std::getline` does not report the empty
field behind a last delimiter, which is the only difference between `split`
and the list of all fields; what is known of that list carries over.
-/

set_option autoImplicit false

namespace BinanceNativeApp.Utils

open BinanceNativeApp.Library.Containers

/-- What the stream still holds is read up to the next delimiter, which is
taken out of the stream as well.  An exhausted stream fails. -/
def getline (tokenStream : Bytes) (delimiter : UInt8) : Option (Bytes × Bytes) :=
  match tokenStream with
  | [] => none
  | _ :: _ =>
      some (tokenStream.takeWhile (· ≠ delimiter),
        (tokenStream.dropWhile (· ≠ delimiter)).drop 1)

theorem getline_shortens {tokenStream token rest : Bytes} {delimiter : UInt8}
    (read : getline tokenStream delimiter = some (token, rest)) :
    rest.length < tokenStream.length := by
  cases tokenStream with
  | nil => cases read
  | cons first others =>
      obtain ⟨_, rfl⟩ := Prod.mk.inj (Option.some.inj read)
      have dropped := (List.dropWhile_sublist (· ≠ delimiter) (l := first :: others)).length_le
      simp only [List.length_drop, List.length_cons] at *
      omega

/-- `s` is what is left in `tokenStream`. -/
def split (s : Bytes) (delimiter : UInt8) : List Bytes :=
  match _read : getline s delimiter with
  | none => []
  | some (token, rest) => token :: split rest delimiter
termination_by s.length
decreasing_by exact getline_shortens _read

/-- `tolower` of the C locale. -/
def tolower (character : UInt8) : UInt8 :=
  if 65 ≤ character ∧ character ≤ 90 then character + 32 else character

def toLower (input : Bytes) : Bytes := input.map tolower

/-- `none` where `begin()` of an empty vector is dereferenced. -/
def combine (values : List Bytes) (delim : Bytes) : Option Bytes :=
  match values with
  | [] => none
  | first :: rest => some (rest.foldl (fun result value => result ++ cString delim ++ value) first)

/-! ## The fields of a string -/

theorem split_nil (delimiter : UInt8) : split [] delimiter = [] := by
  rw [split]
  rfl

theorem split_of_not_mem {s : Bytes} {delimiter : UInt8} (filled : s ≠ [])
    (absent : delimiter ∉ s) : split s delimiter = [s] := by
  have read : getline s delimiter = some (s, []) := by
    obtain ⟨first, others, rfl⟩ := List.exists_cons_of_ne_nil filled
    have whole : ∀ character ∈ first :: others, decide (character ≠ delimiter) = true := by
      intro character member
      exact decide_eq_true fun same => absent (same ▸ member)
    rw [getline, List.takeWhile_eq_self_iff.mpr whole, List.dropWhile_eq_nil_iff.mpr whole]
    rfl
  rw [split, read]
  simp only [split_nil]

theorem split_field {token : Bytes} {delimiter : UInt8} (absent : delimiter ∉ token)
    (rest : Bytes) :
    split (token ++ delimiter :: rest) delimiter = token :: split rest delimiter := by
  have before : ∀ character ∈ token, decide (character ≠ delimiter) = true := by
    intro character member
    exact decide_eq_true fun same => absent (same ▸ member)
  have read : getline (token ++ delimiter :: rest) delimiter = some (token, rest) := by
    obtain ⟨first, others, same⟩ := List.exists_cons_of_ne_nil
      (List.append_ne_nil_of_right_ne_nil token (List.cons_ne_nil delimiter rest))
    have taken : (token ++ delimiter :: rest).takeWhile (· ≠ delimiter) =
        token ++ (delimiter :: rest).takeWhile (· ≠ delimiter) :=
      List.takeWhile_append_of_pos before
    have dropped : (token ++ delimiter :: rest).dropWhile (· ≠ delimiter) =
        (delimiter :: rest).dropWhile (· ≠ delimiter) :=
      List.dropWhile_append_of_pos before
    rw [same] at taken dropped ⊢
    rw [getline, taken, dropped]
    simp
  rw [split, read]

/-- A string is empty, a single field, or a field with a delimiter and a
shorter string behind it. -/
@[elab_as_elim] theorem field_induction (delimiter : UInt8) {motive : Bytes → Prop} (s : Bytes)
    (empty : motive [])
    (single : ∀ field, field ≠ [] → delimiter ∉ field → motive field)
    (delimited : ∀ field rest, delimiter ∉ field → motive rest →
      motive (field ++ delimiter :: rest)) : motive s := by
  induction length : s.length using Nat.strong_induction_on generalizing s with
  | _ n shorter =>
      by_cases present : delimiter ∈ s
      · obtain ⟨field, rest, rfl, absent⟩ := List.eq_append_cons_of_mem present
        apply delimited field rest absent
        apply shorter rest.length _ rest rfl
        simp only [List.length_append, List.length_cons] at length
        omega
      · by_cases filled : s = []
        · rw [filled]
          exact empty
        · exact single s filled present

theorem split_eq_nil_iff (s : Bytes) (delimiter : UInt8) : split s delimiter = [] ↔ s = [] := by
  induction s using field_induction delimiter with
  | empty => simp [split_nil]
  | single field filled absent => simp [split_of_not_mem filled absent, filled]
  | delimited field rest absent _ => simp [split_field absent]

theorem not_mem_of_mem_split {s token : Bytes} {delimiter : UInt8}
    (member : token ∈ split s delimiter) : delimiter ∉ token := by
  induction s using field_induction delimiter with
  | empty => simp [split_nil] at member
  | single field filled absent =>
      rw [split_of_not_mem filled absent] at member
      rwa [List.mem_singleton.mp member]
  | delimited field rest absent ih =>
      rw [split_field absent] at member
      obtain rfl | later := List.mem_cons.mp member
      · exact absent
      · exact ih later

/-! ## One as the inverse of the other -/

theorem combine_cons (first : Bytes) (rest : List Bytes) (delim : Bytes) :
    combine (first :: rest) delim = some ((cString delim).intercalate (first :: rest)) := by
  rw [combine]
  induction rest generalizing first with
  | nil => rw [List.foldl_nil, List.intercalate_singleton]
  | cons second rest ih =>
      rw [List.foldl_cons, ih, List.intercalate_cons_cons]
      cases rest <;> simp

theorem combine_of_ne_nil {values : List Bytes} (filled : values ≠ []) {delimiter : UInt8}
    (visible : delimiter ≠ 0) :
    combine values [delimiter] = some ([delimiter].intercalate values) := by
  obtain ⟨first, rest, rfl⟩ := List.exists_cons_of_ne_nil filled
  have text : cString [delimiter] = [delimiter] := by
    apply cString_eq_self
    rw [List.mem_singleton]
    exact Ne.symm visible
  rw [combine_cons, text]

/-- What follows the last reported field. -/
def lastDelimiter (s : Bytes) (delimiter : UInt8) : Bytes :=
  if s.getLast? = some delimiter then [delimiter] else []

theorem intercalate_split {s : Bytes} {delimiter : UInt8} (filled : s ≠ []) :
    s = [delimiter].intercalate (split s delimiter) ++ lastDelimiter s delimiter := by
  induction s using field_induction delimiter with
  | empty => exact absurd rfl filled
  | single field _ absent =>
      have other : field.getLast? ≠ some delimiter :=
        fun last => absent (List.mem_of_getLast? last)
      rw [split_of_not_mem filled absent, List.intercalate_singleton, lastDelimiter,
        if_neg other, List.append_nil]
  | delimited field rest absent ih =>
      rw [split_field absent]
      by_cases ends : rest = []
      · subst ends
        simp [split_nil, lastDelimiter]
      · have more : split rest delimiter ≠ [] := mt (split_eq_nil_iff rest delimiter).mp ends
        have last : (field ++ delimiter :: rest).getLast? = rest.getLast? := by
          rw [List.getLast?_append_of_ne_nil _ (List.cons_ne_nil _ _),
            List.getLast?_cons_of_ne_nil ends]
        rw [List.intercalate_cons_of_ne_nil more, lastDelimiter, last, ← lastDelimiter,
          List.append_assoc, ← ih ends]
        simp

theorem split_intercalate {values : List Bytes} {delimiter : UInt8} (filled : values ≠ [])
    (apart : ∀ value ∈ values, delimiter ∉ value) (last : values.getLast? ≠ some []) :
    split ([delimiter].intercalate values) delimiter = values := by
  induction values with
  | nil => exact absurd rfl filled
  | cons value rest ih =>
      have absent : delimiter ∉ value := apart value List.mem_cons_self
      cases rest with
      | nil =>
          rw [List.intercalate_singleton]
          apply split_of_not_mem _ absent
          intro empty
          exact last (by rw [empty]; rfl)
      | cons next others =>
          rw [List.getLast?_cons_cons] at last
          rw [List.intercalate_cons_cons, List.append_assoc, List.singleton_append,
            split_field absent, ih (List.cons_ne_nil _ _) _ last]
          intro other member
          exact apart other (List.mem_cons_of_mem value member)

end BinanceNativeApp.Utils
