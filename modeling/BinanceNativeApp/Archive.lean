import BinanceNativeApp.Library.Containers

/-!
# `utils::gzip_inflate`

The archive is what libarchive answers to the calls made on it: one result of
`archive_read_open_memory`, for every `archive_read_next_header` its result
and those of the `archive_read_data_block` calls after it, and one result of
`archive_read_free`.  The loops answer `none` when the archive has no answer
left for them; `Outcomes` are the archives for which this does not happen.
The buffer that the data goes to is whatever has an `append`.
-/

set_option autoImplicit false

namespace BinanceNativeApp.Archive

open BinanceNativeApp.Library.Containers

def archiveEof : Int := 1

def archiveOk : Int := 0

def archiveFatal : Int := -30

/-- One answer of `archive_read_data_block`. -/
structure Block where
  result : Int
  buff : Bytes
  offset : Int
  deriving DecidableEq

/-- One answer of `archive_read_next_header`, with the answers to the reads of
that entry's data. -/
structure Header where
  result : Int
  blocks : List Block
  deriving DecidableEq

section Functions
variable {Buffer : Type} (append : Buffer → Bytes → Buffer)

def copyData : List Block → Buffer → Option (Int × Buffer)
  | [], _ => none
  | block :: rest, uncompressedBytes =>
      if block.result = archiveEof then
        some (archiveOk, uncompressedBytes)
      else if block.result < archiveOk then
        some (block.result, uncompressedBytes)
      else
        copyData rest (append uncompressedBytes block.buff)

/-- What `copy_data` answers is overwritten by the result of the next header. -/
def copyEntries : List Header → Buffer → Option Buffer
  | [], _ => none
  | header :: rest, uncompressedBytes =>
      if header.result = archiveOk then do
        let (_, copied) ← copyData append header.blocks uncompressedBytes
        copyEntries rest copied
      else
        some uncompressedBytes

end Functions

/-! ## Archives that answer every call -/

def Block.Last (block : Block) : Prop := block.result = archiveEof ∨ block.result < archiveOk

def Answered : List Header → Prop
  | [] => False
  | header :: rest =>
      header.result ≠ archiveOk ∨ (∃ block ∈ header.blocks, block.Last) ∧ Answered rest

structure Outcomes where
  opened : Int
  headers : List Header
  freed : Int
  answered : Answered headers

def gzipInflate {Buffer : Type} (append : Buffer → Bytes → Buffer) (archive : Outcomes)
    (uncompressedBytes : Buffer) : Option (Bool × Buffer) := do
  let copied ← copyEntries append archive.headers uncompressedBytes
  -- `reading_result` is that of the open call until the free call takes its place
  some (decide (archive.freed = archiveOk), copied)

section Returns
variable {Buffer : Type} {append : Buffer → Bytes → Buffer}

theorem copyData_returns {blocks : List Block} (last : ∃ block ∈ blocks, block.Last)
    (uncompressedBytes : Buffer) :
    ∃ result, copyData append blocks uncompressedBytes = some result := by
  induction blocks generalizing uncompressedBytes with
  | nil =>
      obtain ⟨block, member, _⟩ := last
      cases member
  | cons block rest ih =>
      rw [copyData]
      by_cases eof : block.result = archiveEof
      · exact ⟨_, if_pos eof⟩
      · by_cases failed : block.result < archiveOk
        · exact ⟨_, by rw [if_neg eof, if_pos failed]⟩
        · rw [if_neg eof, if_neg failed]
          apply ih
          obtain ⟨other, member, ends⟩ := last
          obtain rfl | later := List.mem_cons.mp member
          · exact absurd ends (not_or.mpr ⟨eof, failed⟩)
          · exact ⟨other, later, ends⟩

theorem copyEntries_returns {headers : List Header} (answered : Answered headers)
    (uncompressedBytes : Buffer) :
    ∃ copied, copyEntries append headers uncompressedBytes = some copied := by
  induction headers generalizing uncompressedBytes with
  | nil => exact absurd answered id
  | cons header rest ih =>
      rw [copyEntries]
      by_cases ok : header.result = archiveOk
      · rw [if_pos ok]
        obtain different | ⟨last, later⟩ := answered
        · exact absurd ok different
        · obtain ⟨result, copied⟩ := copyData_returns last uncompressedBytes
          obtain ⟨final, returned⟩ := ih later result.2
          exact ⟨final, by rw [copied]; exact returned⟩
      · exact ⟨_, if_neg ok⟩

/-- `gzip_inflate` always returns, and tells nothing but how the free went. -/
theorem gzipInflate_reports_free (archive : Outcomes) (uncompressedBytes : Buffer) :
    ∃ copied, gzipInflate append archive uncompressedBytes =
      some (decide (archive.freed = archiveOk), copied) := by
  obtain ⟨copied, returned⟩ := copyEntries_returns archive.answered uncompressedBytes
  exact ⟨copied, by rw [gzipInflate, returned]; rfl⟩

end Returns

/-! ## Archives read without an error -/

def DataRead : List Block → Prop
  | [] => False
  | block :: rest => block.result = archiveEof ∨ block.result = archiveOk ∧ DataRead rest

/-- Every header was read with `ARCHIVE_OK` until `ARCHIVE_EOF`, and so was
the data of every entry. -/
def EntriesRead : List Header → Prop
  | [] => False
  | header :: rest =>
      header.result = archiveEof ∨
        header.result = archiveOk ∧ DataRead header.blocks ∧ EntriesRead rest

def Outcomes.ReadWithoutError (archive : Outcomes) : Prop :=
  archive.opened = archiveOk ∧ EntriesRead archive.headers ∧ archive.freed = archiveOk

/-- The call returns true if and only if nothing went wrong on the way. -/
def ReportsHonestly {Buffer : Type} (append : Buffer → Bytes → Buffer) (archive : Outcomes)
    (uncompressedBytes : Buffer) : Prop :=
  ∃ reported copied,
    gzipInflate append archive uncompressedBytes = some (reported, copied) ∧
      (reported = true ↔ archive.ReadWithoutError)

theorem reportsHonestly_iff {Buffer : Type} (append : Buffer → Bytes → Buffer)
    (archive : Outcomes) (uncompressedBytes : Buffer) :
    ReportsHonestly append archive uncompressedBytes ↔
      archive.freed ≠ archiveOk ∨
        archive.opened = archiveOk ∧ EntriesRead archive.headers := by
  obtain ⟨copied, returned⟩ : ∃ copied, gzipInflate append archive uncompressedBytes =
      some (decide (archive.freed = archiveOk), copied) :=
    gzipInflate_reports_free archive uncompressedBytes
  have honest : ReportsHonestly append archive uncompressedBytes ↔
      (archive.freed = archiveOk ↔ archive.ReadWithoutError) := by
    constructor
    · intro honest
      obtain ⟨reported, others, same, agrees⟩ := honest
      rw [returned] at same
      obtain ⟨rfl, rfl⟩ := Prod.mk.inj (Option.some.inj same)
      exact decide_eq_true_iff.symm.trans agrees
    · intro agrees
      exact ⟨_, _, returned, decide_eq_true_iff.trans agrees⟩
  rw [honest, Outcomes.ReadWithoutError]
  by_cases freed : archive.freed = archiveOk
  · simp [freed]
  · simp [freed]

/-! ## An archive that is cut off -/

/-- The data of the only entry ends in a fatal error, after which no header
can be read either. -/
def truncated : Outcomes where
  opened := archiveOk
  headers := [⟨archiveOk, [⟨archiveOk, literal "bookT", 0⟩, ⟨archiveFatal, [], 5⟩]⟩,
    ⟨archiveFatal, []⟩]
  freed := archiveOk
  answered := .inr ⟨⟨_, .tail _ (.head _), .inr (by decide)⟩, .inl (by decide)⟩

theorem truncated_reported_inflated :
    ¬ ReportsHonestly List.append truncated ([] : Bytes) := by
  intro honest
  obtain ⟨reported, copied, returned, agrees⟩ := honest
  obtain ⟨rfl, rfl⟩ := Prod.mk.inj (Option.some.inj returned)
  obtain ⟨_, read, _⟩ := agrees.mp (by decide)
  obtain ended | ⟨_, data, _⟩ := read
  · exact absurd ended (by decide)
  · obtain eof | ⟨_, eof | ⟨ok, _⟩⟩ := data
    · exact absurd eof (by decide)
    · exact absurd eof (by decide)
    · exact absurd ok (by decide)

end BinanceNativeApp.Archive
