import BinanceNativeApp.Archive
import BinanceNativeApp.Capacity

/-!
# What `gzip_inflate` extracts

libarchive hands an entry out in blocks, each with the offset at which its
bytes stand; the offsets increase and the blocks do not overlap.  Between two
blocks of a sparse entry there may be a gap, which reads as zeros.  `copy_data`
appends the bytes and leaves the offset alone.
-/

set_option autoImplicit false

namespace BinanceNativeApp.Extraction

open BinanceNativeApp.Library.Containers
open BinanceNativeApp.Library.Memory
open BinanceNativeApp.Archive
open BinanceNativeApp.Buffer
open BinanceNativeApp.Buffer.BufferStruct
open BinanceNativeApp.Capacity

/-! ## The content of an archive -/

def dataBlocks (blocks : List Archive.Block) : List Archive.Block :=
  blocks.takeWhile fun block => block.result = archiveOk

def entries (headers : List Header) : List Header :=
  headers.takeWhile fun header => header.result = archiveOk

/-- The gap before the block reads as zeros. -/
def place (content : Bytes) (block : Archive.Block) : Bytes :=
  content ++ List.replicate (block.offset - content.length).toNat 0 ++ block.buff

def entryContent (header : Header) : Bytes := (dataBlocks header.blocks).foldl place []

def archiveContent (headers : List Header) : Bytes := (entries headers).flatMap entryContent

/-- The blocks follow one another from this position on. -/
def OrderedFrom (position : Int) : List Archive.Block → Prop
  | [] => True
  | block :: rest =>
      position ≤ block.offset ∧ OrderedFrom (block.offset + block.buff.length) rest

def Ordered (archive : Outcomes) : Prop :=
  ∀ header ∈ entries archive.headers, OrderedFrom 0 (dataBlocks header.blocks)

def ContiguousFrom (position : Int) : List Archive.Block → Prop
  | [] => True
  | block :: rest =>
      block.offset = position ∧ ContiguousFrom (block.offset + block.buff.length) rest

def Contiguous (archive : Outcomes) : Prop :=
  ∀ header ∈ entries archive.headers, ContiguousFrom 0 (dataBlocks header.blocks)

def entryChunks (header : Header) : List Bytes := (dataBlocks header.blocks).map (·.buff)

def archiveChunks (headers : List Header) : List Bytes := (entries headers).flatMap entryChunks

/-! ## Gaps -/

theorem place_foldl_of_contiguous (content : Bytes) {blocks : List Archive.Block}
    (contiguous : ContiguousFrom content.length blocks) :
    blocks.foldl place content = content ++ (blocks.map (·.buff)).flatten := by
  induction blocks generalizing content with
  | nil => simp
  | cons block rest ih =>
      obtain ⟨here, later⟩ := contiguous
      have placed : place content block = content ++ block.buff := by
        simp [place, here]
      have next : ContiguousFrom (content ++ block.buff).length rest := by
        rw [List.length_append, Int.natCast_add, ← here]
        exact later
      rw [List.foldl_cons, placed, ih _ next, List.map_cons, List.flatten_cons, List.append_assoc]

/-- A gap makes the content longer than what the blocks hold. -/
theorem length_place_foldl (content : Bytes) {blocks : List Archive.Block}
    (ordered : OrderedFrom content.length blocks) :
    content.length + (blocks.map (·.buff)).flatten.length ≤ (blocks.foldl place content).length ∧
      ((blocks.foldl place content).length =
          content.length + (blocks.map (·.buff)).flatten.length →
        ContiguousFrom content.length blocks) := by
  induction blocks generalizing content with
  | nil => simp [ContiguousFrom]
  | cons block rest ih =>
      obtain ⟨here, later⟩ := ordered
      have length : ((place content block).length : Int) = block.offset + block.buff.length := by
        simp only [place, List.length_append, List.length_replicate]
        omega
      rw [← length] at later
      obtain ⟨longer, exactly⟩ := ih _ later
      rw [List.foldl_cons, List.map_cons, List.flatten_cons, List.length_append]
      refine ⟨by omega, ?_⟩
      intro same
      refine ⟨by omega, ?_⟩
      rw [← length]
      exact exactly (by omega)

theorem content_of_contiguous {headers : List Header}
    (contiguous : ∀ header ∈ headers, ContiguousFrom 0 (dataBlocks header.blocks)) :
    headers.flatMap entryContent = (headers.flatMap entryChunks).flatten := by
  induction headers with
  | nil => rfl
  | cons header rest ih =>
      obtain ⟨here, later⟩ := List.forall_mem_cons.mp contiguous
      have entry : entryContent header = (entryChunks header).flatten :=
        place_foldl_of_contiguous [] here
      rw [List.flatMap_cons, List.flatMap_cons, List.flatten_append, entry, ih later]

theorem contiguous_of_length {headers : List Header}
    (ordered : ∀ header ∈ headers, OrderedFrom 0 (dataBlocks header.blocks)) :
    (headers.flatMap entryChunks).flatten.length ≤ (headers.flatMap entryContent).length ∧
      ((headers.flatMap entryContent).length = (headers.flatMap entryChunks).flatten.length →
        ∀ header ∈ headers, ContiguousFrom 0 (dataBlocks header.blocks)) := by
  induction headers with
  | nil => simp
  | cons header rest ih =>
      obtain ⟨here, later⟩ := List.forall_mem_cons.mp ordered
      have entry : ((entryChunks header).flatten.length ≤ (entryContent header).length) ∧
          ((entryContent header).length = (entryChunks header).flatten.length →
            ContiguousFrom 0 (dataBlocks header.blocks)) := by
        simpa [entryContent, entryChunks] using length_place_foldl [] here
      obtain ⟨restLonger, restExactly⟩ := ih later
      simp only [List.flatMap_cons, List.flatten_append, List.length_append]
      refine ⟨by omega, ?_⟩
      intro same
      exact List.forall_mem_cons.mpr ⟨entry.2 (by omega), restExactly (by omega)⟩

/-! ## What is appended -/

section Appending
variable {Destination : Type} (append : Destination → Bytes → Destination)

theorem copyData_read {blocks : List Archive.Block} (read : DataRead blocks)
    (uncompressedBytes : Destination) :
    copyData append blocks uncompressedBytes =
      some (archiveOk, ((dataBlocks blocks).map (·.buff)).foldl append uncompressedBytes) := by
  induction blocks generalizing uncompressedBytes with
  | nil => exact absurd read id
  | cons block rest ih =>
      rw [copyData, dataBlocks]
      obtain eof | ⟨ok, later⟩ := read
      · have other : ¬ block.result = archiveOk := by
          rw [eof]
          decide
        rw [if_pos eof, List.takeWhile_cons_of_neg (by simpa using other)]
        rfl
      · have more : ¬ block.result = archiveEof := by
          rw [ok]
          decide
        have fine : ¬ block.result < archiveOk := by
          rw [ok]
          decide
        rw [if_neg more, if_neg fine, ih later, List.takeWhile_cons_of_pos (by simpa using ok)]
        rfl

theorem copyEntries_read {headers : List Header} (read : EntriesRead headers)
    (uncompressedBytes : Destination) :
    copyEntries append headers uncompressedBytes =
      some ((archiveChunks headers).foldl append uncompressedBytes) := by
  induction headers generalizing uncompressedBytes with
  | nil => exact absurd read id
  | cons header rest ih =>
      rw [copyEntries, archiveChunks, entries]
      obtain eof | ⟨ok, data, later⟩ := read
      · have other : ¬ header.result = archiveOk := by
          rw [eof]
          decide
        rw [if_neg other, List.takeWhile_cons_of_neg (by simpa using other)]
        rfl
      · rw [if_pos ok, copyData_read append data, List.takeWhile_cons_of_pos (by simpa using ok),
          List.flatMap_cons, List.foldl_append]
        exact ih later _

end Appending

/-- The buffer as `copy_data` sees it, `none` once an append has left its
blocks. -/
def appendTo (w : Nat) (uncompressedBytes : Option BufferStruct) (content : Bytes) :
    Option BufferStruct := do
  let (_, s) ← append w true content (← uncompressedBytes)
  some s

theorem appendTo_none (w : Nat) (chunks : List Bytes) :
    chunks.foldl (appendTo w) none = none := by
  induction chunks with
  | nil => rfl
  | cons chunk rest ih => exact ih

theorem foldl_appendTo {w : Nat} (chunks : List Bytes) {s : BufferStruct} {content : Bytes}
    (holds : Holds w s content) :
    (DoublesInRange w (chunks.map (Call.mk true)) s.size s.maxSize →
      ∃ final, chunks.foldl (appendTo w) (some s) = some final ∧
        Holds w final (content ++ chunks.flatten)) ∧
    (¬ DoublesInRange w (chunks.map (Call.mk true)) s.size s.maxSize →
      chunks.foldl (appendTo w) (some s) = none) := by
  induction chunks generalizing s content with
  | nil => exact ⟨fun _ => ⟨s, rfl, by simpa using holds⟩, fun outside => absurd trivial outside⟩
  | cons chunk rest ih =>
      rw [List.map_cons, List.foldl_cons, List.flatten_cons, ← List.append_assoc]
      obtain ⟨next, appended, nextHolds, same⟩ | ⟨_, _, unavailable, _⟩ | ⟨outside, fails⟩ :=
        append_cases holds ⟨true, chunk⟩ (rest.map (Call.mk true)) Bool.noConfusion
      · have kept : appendTo w (some s) chunk = some next := by
          simp only [appendTo, Option.bind_eq_bind, Option.bind_some, appended]
        rw [same, kept]
        exact ih nextHolds
      · cases unavailable
      · have lost : appendTo w (some s) chunk = none := by
          simp only [appendTo, Option.bind_eq_bind, Option.bind_some, outside, Option.bind_none]
        rw [lost, appendTo_none]
        exact ⟨fun inRange => absurd inRange fails, fun _ => rfl⟩

def LeavesContent (w : Nat) (archive : Outcomes) (uncompressedBytes : BufferStruct)
    (previous : Bytes) : Prop :=
  ∃ reported left, gzipInflate (appendTo w) archive (some uncompressedBytes) =
      some (reported, some left) ∧
    Holds w left (previous ++ archiveContent archive.headers)

/-- For every archive that is read without an error, with blocks as libarchive
gives them out, and every buffer. -/
theorem gzipInflate_leaves_content_iff {w : Nat} {archive : Outcomes}
    {uncompressedBytes : BufferStruct} {previous : Bytes} (read : archive.ReadWithoutError)
    (ordered : Ordered archive) (holds : Holds w uncompressedBytes previous) :
    LeavesContent w archive uncompressedBytes previous ↔
      Contiguous archive ∧ DoublesInRange w ((archiveChunks archive.headers).map (Call.mk true))
        uncompressedBytes.size uncompressedBytes.maxSize := by
  obtain ⟨inside, outside⟩ := foldl_appendTo (archiveChunks archive.headers) holds
  have copied := copyEntries_read (appendTo w) read.2.1 (some uncompressedBytes)
  have returned : gzipInflate (appendTo w) archive (some uncompressedBytes) =
      some (decide (archive.freed = archiveOk),
        (archiveChunks archive.headers).foldl (appendTo w) (some uncompressedBytes)) := by
    rw [gzipInflate, copied]
    rfl
  rw [LeavesContent, returned]
  constructor
  · intro leaves
    obtain ⟨reported, left, same, leftHolds⟩ := leaves
    have final := (Prod.mk.inj (Option.some.inj same)).2
    have inRange : DoublesInRange w ((archiveChunks archive.headers).map (Call.mk true))
        uncompressedBytes.size uncompressedBytes.maxSize := by
      by_contra fails
      rw [outside fails] at final
      cases final
    obtain ⟨result, ran, resultHolds⟩ := inside inRange
    rw [ran] at final
    have equal := holds_unique leftHolds (Option.some.inj final ▸ resultHolds)
    have contents := List.append_cancel_left equal
    exact ⟨(contiguous_of_length ordered).2 (congrArg List.length contents), inRange⟩
  · intro both
    obtain ⟨contiguous, inRange⟩ := both
    obtain ⟨final, ran, finalHolds⟩ := inside inRange
    refine ⟨_, final, by rw [ran], ?_⟩
    rw [archiveContent, content_of_contiguous contiguous]
    exact finalHolds

def bookTicker : Outcomes where
  opened := archiveOk
  headers := [⟨archiveOk, [⟨archiveOk, literal "book", 0⟩, ⟨archiveOk, literal "Ticker", 4⟩,
    ⟨archiveEof, [], 10⟩]⟩, ⟨archiveEof, []⟩]
  freed := archiveOk
  answered := .inr ⟨⟨_, .tail _ (.tail _ (.head _)), .inl rfl⟩, .inl (by decide)⟩

theorem gzipInflate_leaves_content_iff_bookTicker :
    LeavesContent 64 bookTicker BufferStruct.default [] := by
  have read : bookTicker.ReadWithoutError :=
    ⟨rfl, .inr ⟨rfl, .inr ⟨rfl, .inr ⟨rfl, .inl rfl⟩⟩, .inl rfl⟩, rfl⟩
  have contiguous : Contiguous bookTicker := by
    intro header member
    rw [List.mem_singleton.mp member]
    exact ⟨rfl, rfl, trivial⟩
  have ordered : Ordered bookTicker := by
    intro header member
    rw [List.mem_singleton.mp member]
    exact ⟨Int.le_refl _, Int.le_refl _, trivial⟩
  exact (gzipInflate_leaves_content_iff read ordered (default_holds 64)).mpr
    ⟨contiguous, by decide⟩

/-- The only block of the entry stands behind a gap of five bytes. -/
def sparse : Outcomes where
  opened := archiveOk
  headers := [⟨archiveOk, [⟨archiveOk, literal "x", 5⟩, ⟨archiveEof, [], 6⟩]⟩, ⟨archiveEof, []⟩]
  freed := archiveOk
  answered := .inr ⟨⟨_, .tail _ (.head _), .inl rfl⟩, .inl (by decide)⟩

theorem sparse_gap_lost :
    sparse.ReadWithoutError ∧ Ordered sparse ∧
      ¬ LeavesContent 64 sparse BufferStruct.default [] := by
  refine ⟨⟨rfl, .inr ⟨rfl, .inr ⟨rfl, .inl rfl⟩, .inl rfl⟩, rfl⟩, ?_, ?_⟩
  · intro header member
    rw [List.mem_singleton.mp member]
    exact ⟨by decide, trivial⟩
  · intro leaves
    obtain ⟨reported, left, returned, holds⟩ := leaves
    have size := holds.size
    cases returned
    cases size

end BinanceNativeApp.Extraction
