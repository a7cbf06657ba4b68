import Stss.ForStd.Read
import Stss.ForStd.UnixPath
import Stss.Native.Effects

/-!
# Reading files in chunks

`shared_library/src/safe_read.rs` and `hash_file` of `client_core/src/file_hasher.rs`, on a
platform with pointers of 64 bits. What the operating system does with a file is an input.
-/

namespace Stss.Native

open ForStd

/-- `SafeReadError`. -/
inductive SafeReadError where
  | wrongExtension (path extension : List UInt8)
  | openNotFound (path : List UInt8)
  | openPermissionDenied (path : List UInt8)
  | openGeneric (path : List UInt8) (text : String)
  | metadata (path : List UInt8) (text : String)
  | memory (path : List UInt8) (text : String)
  | read (path : List UInt8) (text : String)
deriving DecidableEq, Repr

/-- The error of `File::open`, as far as its kinds are told apart. -/
inductive OpenError where
  | notFound
  | permissionDenied
  | other (text : String)
deriving DecidableEq, Repr

/-- What the outside decides about a file that is read.

* `opened`: its content, or why it cannot be opened.
* `metadata`: the length that its metadata declare.
* `allocates`: whether the allocator has the memory for that length.
* `reads`: the outcomes of the calls of `read`. -/
structure FileOutside where
  opened : Except OpenError (List UInt8)
  metadata : Except IoError UInt64
  allocates : Bool := true
  reads : Nat → ReadOutcome IoError

/-- `GenericSafeFileReader<CHUNK_SIZE>`. -/
structure GenericSafeFileReader (chunkSize : Nat) where
  reader : Take UInt8
  buffer : List UInt8
  filepath : List UInt8
  totalSize : UInt64
  size : buffer.length = chunkSize

namespace GenericSafeFileReader

variable {chunkSize : Nat} {β : Type}

/-- `GenericSafeFileReader::new`. -/
def new (chunkSize : Nat) (filepath : List UInt8) (expectedExtension : Option (List UInt8))
    (o : FileOutside) : Except SafeReadError (GenericSafeFileReader chunkSize) := do
  if let some extension := expectedExtension then
    if UnixPath.extension filepath ≠ some extension then
      throw (.wrongExtension filepath extension)
  let content ← o.opened.mapError fun
    | .notFound => .openNotFound filepath
    | .permissionDenied => .openPermissionDenied filepath
    | .other text => .openGeneric filepath text
  let fileLen ← o.metadata.mapError fun e => .metadata filepath e.description
  return ⟨⟨content, fileLen.toNat⟩, List.replicate chunkSize 0, filepath, fileLen,
    List.length_replicate⟩

/-- The bytes of a chunk are put into the buffer; what was behind them stays. -/
def fill (self : GenericSafeFileReader chunkSize) (chunk : List UInt8)
    (h : chunk.length ≤ chunkSize) : GenericSafeFileReader chunkSize :=
  { self with
    reader := self.reader.after chunk
    buffer := chunk ++ self.buffer.drop chunk.length
    size := by rw [List.length_append, List.length_drop, self.size]; omega }

/-- `GenericSafeFileReader::next_chunk`, where the call of `read` has the outcome `o`. -/
def nextChunk (self : GenericSafeFileReader chunkSize) (o : ReadOutcome IoError) :
    Option (Except SafeReadError (List UInt8)) × GenericSafeFileReader chunkSize :=
  match h : self.reader.read chunkSize o with
  | .ok bytes =>
    let self := self.fill bytes (Take.read_ok h).2.1
    match bytes.length with
    | 0 => (none, self)
    | bytesRead => (some (.ok (self.buffer.take bytesRead)), self)
  | .error e => (some (.error (.read self.filepath e.description)), self)

/-- A chunk was read, and the limit is smaller. -/
theorem nextChunk_ok {self self' : GenericSafeFileReader chunkSize} {o : ReadOutcome IoError}
    {chunk : List UInt8} (h : self.nextChunk o = (some (.ok chunk), self')) :
    self.reader.read chunkSize o = .ok chunk ∧ chunk ≠ [] ∧
      self'.reader = self.reader.after chunk ∧ self'.filepath = self.filepath := by
  unfold nextChunk at h
  split at h
  · rename_i bytes hread
    dsimp only at h
    split at h
    · cases h
    · rename_i hzero
      obtain ⟨hchunk, rfl⟩ := Prod.mk.inj h
      obtain rfl : (bytes ++ self.buffer.drop bytes.length).take bytes.length = chunk :=
        Except.ok.inj (Option.some.inj hchunk)
      rw [List.take_left]
      exact ⟨hread, fun hnil => hzero (by rw [hnil]; rfl), rfl, rfl⟩
  · cases h

theorem nextChunk_limit_lt {self self' : GenericSafeFileReader chunkSize}
    {o : ReadOutcome IoError} {chunk : List UInt8}
    (h : self.nextChunk o = (some (.ok chunk), self')) :
    self'.reader.limit < self.reader.limit := by
  obtain ⟨hread, hne, hreader, -⟩ := nextChunk_ok h
  rw [hreader]
  cases chunk with
  | nil => exact absurd rfl hne
  | cons a as => exact Take.limit_after_lt hread

/-- The loop `while let Some(chunk_result) = self.next_chunk()`, which passes every chunk to
    `f` and returns at the first error. -/
def forEachChunk (f : β → List UInt8 → β) (self : GenericSafeFileReader chunkSize)
    (reads : Nat → ReadOutcome IoError) (acc : β) : Except SafeReadError β :=
  match h : self.nextChunk (reads 0) with
  | (none, _) => .ok acc
  | (some (.error e), _) => .error e
  | (some (.ok chunk), self') => self'.forEachChunk f (fun k => reads (k + 1)) (f acc chunk)
termination_by self.reader.limit
decreasing_by exact nextChunk_limit_lt h

end GenericSafeFileReader

/-- `isize::MAX`. -/
def isizeMax : Nat := 2 ^ 63 - 1

/-- `try_reserve` on an empty vector of bytes. -/
def tryReserve (allocates : Bool) (additional : Nat) : Except String Unit :=
  if additional = 0 then .ok ()
  else if isizeMax < additional then
    .error "memory allocation failed because the computed capacity exceeded the collection's maximum"
  else if allocates then .ok ()
  else .error "memory allocation failed because the memory allocator returned an error"

/-- `GenericSafeFileReader::safe_read`. -/
def GenericSafeFileReader.safeRead {chunkSize : Nat} (self : GenericSafeFileReader chunkSize)
    (o : FileOutside) : Except SafeReadError (List UInt8) :=
  match tryReserve o.allocates self.totalSize.toNat with
  | .error text => .error (.memory self.filepath text)
  | .ok () => self.forEachChunk (· ++ ·) o.reads []

/-- `safe_read`. -/
def safeRead (rawPath : List UInt8) (expectedExtension : Option (List UInt8)) (o : FileOutside) :
    Except SafeReadError (List UInt8) := do
  let reader ← GenericSafeFileReader.new 8192 rawPath expectedExtension o
  reader.safeRead o

/-- `Sha256` of the crate `sha2`, as a hasher. -/
structure Hasher where
  State : Type
  new : State
  update : State → List UInt8 → State
  finalize : State → Sha256Hash

/-- The loop of `hash_file`. -/
def GenericSafeFileReader.hash {chunkSize : Nat} (self : GenericSafeFileReader chunkSize)
    (hasher : Hasher) (o : FileOutside) : Except SafeReadError Sha256Hash :=
  (self.forEachChunk hasher.update o.reads hasher.new).map hasher.finalize

/-- `hash_file`. -/
def hashFile (hasher : Hasher) (rawPath : List UInt8) (expectedExtension : Option (List UInt8))
    (o : FileOutside) : Except SafeReadError Sha256Hash := do
  let reader ← GenericSafeFileReader.new 8192 rawPath expectedExtension o
  reader.hash hasher o

end Stss.Native
