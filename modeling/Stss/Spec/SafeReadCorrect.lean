import Stss.ForStd.Except
import Stss.Native.SafeRead

/-!
# What reading in chunks returns

The buffer of a reader is written over from its beginning by every call of `read`, which may
deliver less than it was asked for. Whatever the calls deliver, the chunks are the answers of
`ForStd.Take.answers` one by one, and put together they are the first bytes of the file.
-/

namespace Stss.Spec

open Stss.Native ForStd

variable {chunkSize : Nat} {β : Type}

/-- What the loop over the chunks makes of the answers to its calls of `read`. -/
def collect (filepath : List UInt8) (f : β → List UInt8 → β) (acc : β) :
    List (Except IoError (List UInt8)) → Except SafeReadError β
  | [] => .ok acc
  | .ok [] :: _ => .ok acc
  | .ok (b :: bs) :: answers => collect filepath f (f acc (b :: bs)) answers
  | .error e :: _ => .error (.read filepath e.description)

/-- All chunks up to the end. -/
private theorem collect_ok (filepath : List UInt8) (f : β → List UInt8 → β)
    {chunks : List (List UInt8)} (hne : ∀ c ∈ chunks, c ≠ []) (acc : β) :
    collect filepath f acc (chunks.map .ok ++ [.ok []]) = .ok (chunks.foldl f acc) := by
  induction chunks generalizing acc with
  | nil => rfl
  | cons chunk chunks ih =>
    rw [List.forall_mem_cons] at hne
    cases chunk with
    | nil => exact absurd rfl hne.1
    | cons b bs => exact ih hne.2 _

/-- Nothing is kept of the chunks before a failure. -/
private theorem collect_error (filepath : List UInt8) (f : β → List UInt8 → β)
    {chunks : List (List UInt8)} (hne : ∀ c ∈ chunks, c ≠ []) (e : IoError) (acc : β) :
    collect filepath f acc (chunks.map .ok ++ [.error e]) =
      .error (.read filepath e.description) := by
  induction chunks generalizing acc with
  | nil => rfl
  | cons chunk chunks ih =>
    rw [List.forall_mem_cons] at hne
    cases chunk with
    | nil => exact absurd rfl hne.1
    | cons b bs => exact ih hne.2 _

/-- What is read of a file, as the answers to the calls for `chunkSize` bytes each. -/
def answersOf (chunkSize : Nat) (content : List UInt8) (totalSize : UInt64)
    (reads : Nat → ReadOutcome IoError) : List (Except IoError (List UInt8)) :=
  (Take.mk content totalSize.toNat).answers chunkSize reads

end Stss.Spec

namespace Stss.Native.GenericSafeFileReader

open ForStd Stss.Spec

variable {chunkSize : Nat} {β : Type}

private theorem nextChunk_none {self self' : GenericSafeFileReader chunkSize}
    {o : ReadOutcome IoError}
    (h : self.nextChunk o = (none, self')) : self.reader.read chunkSize o = .ok [] := by
  unfold nextChunk at h
  split at h
  · rename_i bytes hread
    dsimp only at h
    split at h
    · rename_i hzero
      rw [hread, List.length_eq_zero_iff.mp hzero]
    · cases h
  · cases h

private theorem nextChunk_error {self self' : GenericSafeFileReader chunkSize}
    {o : ReadOutcome IoError}
    {e : SafeReadError} (h : self.nextChunk o = (some (.error e), self')) :
    ∃ io, self.reader.read chunkSize o = .error io ∧ e = .read self.filepath io.description := by
  unfold nextChunk at h
  split at h
  · dsimp only at h
    split at h <;> cases h
  · rename_i io hread
    cases h
    exact ⟨io, hread, rfl⟩

/-- The loop sees exactly the bytes that `read` delivers, although the buffer behind them
    still holds those of earlier calls. -/
private theorem forEachChunk_eq (f : β → List UInt8 → β) (self : GenericSafeFileReader chunkSize)
    (reads : Nat → ReadOutcome IoError) (acc : β) :
    self.forEachChunk f reads acc =
      collect self.filepath f acc (self.reader.answers chunkSize reads) := by
  fun_induction forEachChunk f self reads acc with
  | case1 self reads acc self' h => rw [Take.answers_of_nil (nextChunk_none h)]; rfl
  | case2 self reads acc e self' h =>
    obtain ⟨io, hread, rfl⟩ := nextChunk_error h
    rw [Take.answers_of_error hread]
    rfl
  | case3 self reads acc chunk self' h ih =>
    obtain ⟨hread, hne, hreader, hpath⟩ := nextChunk_ok h
    rw [ih, Take.answers_of_chunk hread hne, hreader, hpath]
    cases chunk with
    | nil => exact absurd rfl hne
    | cons b bs => rfl

/-- Whether the loop over the chunks is still going on after so many calls of `next_chunk`. -/
def reading : Nat → GenericSafeFileReader chunkSize → (Nat → ReadOutcome IoError) → Bool
  | 0, _, _ => true
  | k + 1, self, reads =>
    match self.nextChunk (reads 0) with
    | (some (.ok _), self') => reading k self' fun k => reads (k + 1)
    | _ => false

/-- Every call of the loop but the last delivers at least one byte. -/
private theorem reading_eq_false {k : Nat} {self : GenericSafeFileReader chunkSize}
    {reads : Nat → ReadOutcome IoError}
    (h : (self.reader.rest.take self.reader.limit).length < k) : reading k self reads = false := by
  induction k generalizing self reads with
  | zero => omega
  | succ k ih =>
    rw [reading]
    split
    · rename_i chunk self' hnext
      obtain ⟨hread, hne, hreader, -⟩ := nextChunk_ok hnext
      have hlength := congrArg List.length (Take.take_after hread)
      have hpos := List.length_pos_of_ne_nil hne
      rw [List.length_append] at hlength
      apply ih
      rw [hreader]
      omega
    · rfl

private theorem length_zeros (n : Nat) : (List.replicate n (0 : UInt8)).length = n :=
  List.length_replicate

/-- A reader that has just been made. -/
def opened (chunkSize : Nat) (content : List UInt8) (totalSize : UInt64) (filepath : List UInt8) :
    GenericSafeFileReader chunkSize :=
  ⟨⟨content, totalSize.toNat⟩, List.replicate chunkSize 0, filepath, totalSize,
    length_zeros chunkSize⟩

/-- The extension is checked before anything else. -/
private theorem new_of_extension {filepath : List UInt8} {extension : Option (List UInt8)}
    (h : ∀ e, extension = some e → UnixPath.extension filepath = some e) (o : FileOutside) :
    new chunkSize filepath extension o = new chunkSize filepath none o := by
  cases extension with
  | none => rfl
  | some e => simp [new, h e rfl]

private theorem extension_of_new {filepath : List UInt8} {extension : Option (List UInt8)}
    {o : FileOutside} {self : GenericSafeFileReader chunkSize}
    (h : new chunkSize filepath extension o = .ok self) :
    ∀ e, extension = some e → UnixPath.extension filepath = some e := by
  rintro e rfl
  by_contra he
  simp only [new, he, ne_eq, not_false_eq_true, if_true] at h
  change Except.error (SafeReadError.wrongExtension filepath e) = .ok self at h
  cases h

/-- A file that can be opened for some size of chunks can be opened for every other. -/
theorem new_of_opened {filepath : List UInt8} {extension : Option (List UInt8)} {o : FileOutside}
    {content : List UInt8} {totalSize : UInt64}
    (hextension : ∀ e, extension = some e → UnixPath.extension filepath = some e)
    (hcontent : o.opened = .ok content) (hsize : o.metadata = .ok totalSize) :
    new chunkSize filepath extension o = .ok (opened chunkSize content totalSize filepath) := by
  rw [new_of_extension hextension]
  simp only [new, hcontent, hsize]
  rfl

/-- The loop of a reader that has just been made: the fold over chunks that are the first bytes
    of the file, or the error of the call that failed. -/
private theorem forEachChunk_opened (hchunk : 0 < chunkSize) (f : β → List UInt8 → β)
    (content : List UInt8) (totalSize : UInt64) (filepath : List UInt8)
    (reads : Nat → ReadOutcome IoError) (acc : β) :
    ((∀ e, .error e ∉ answersOf chunkSize content totalSize reads) →
      ∃ chunks : List (List UInt8), chunks.flatten = content.take totalSize.toNat ∧
        (opened chunkSize content totalSize filepath).forEachChunk f reads acc =
          .ok (chunks.foldl f acc)) ∧
    ∀ e, .error e ∈ answersOf chunkSize content totalSize reads →
      (opened chunkSize content totalSize filepath).forEachChunk f reads acc =
        .error (.read filepath e.description) := by
  -- the answers are chunks, and then the end of the file or an error
  obtain ⟨chunks, hne, -, hend⟩ := Take.answers_eq hchunk ⟨content, totalSize.toNat⟩ reads
  rw [forEachChunk_eq]
  rcases hend with ⟨hanswers, hflatten⟩ | ⟨e, hanswers⟩
  · refine ⟨fun _ => ⟨chunks, hflatten, ?_⟩, fun e he => ?_⟩
    · exact (congrArg _ hanswers).trans (collect_ok filepath f hne acc)
    · rw [answersOf, hanswers] at he
      simp at he
  · refine ⟨fun hok => ?_, fun e' he' => ?_⟩
    · exact absurd (by rw [answersOf, hanswers]; simp) (hok e)
    · rw [answersOf, hanswers] at he'
      obtain rfl : e' = e := by simpa using he'
      exact (congrArg _ hanswers).trans (collect_error filepath f hne _ acc)

theorem foldl_append (chunks : List (List UInt8)) (acc : List UInt8) :
    chunks.foldl (· ++ ·) acc = acc ++ chunks.flatten := by
  simpa using List.foldl_append_eq_append (f := id) (l := chunks)

private theorem safeRead_of_refused {self : GenericSafeFileReader chunkSize} {o : FileOutside}
    {text : String} (h : tryReserve o.allocates self.totalSize.toNat = .error text) :
    self.safeRead o = .error (.memory self.filepath text) := by
  simp only [safeRead, h]

/-- `safe_read`, once the memory is reserved. -/
theorem safeRead_opened (hchunk : 0 < chunkSize) {content : List UInt8} {totalSize : UInt64}
    {o : FileOutside} (hreserve : tryReserve o.allocates totalSize.toNat = .ok ())
    (filepath : List UInt8) :
    ((∀ e, .error e ∉ answersOf chunkSize content totalSize o.reads) →
      (opened chunkSize content totalSize filepath).safeRead o =
        .ok (content.take totalSize.toNat)) ∧
    ∀ e, .error e ∈ answersOf chunkSize content totalSize o.reads →
      (opened chunkSize content totalSize filepath).safeRead o =
        .error (.read filepath e.description) := by
  -- once the memory is there, reading is the loop that appends the chunks
  have hread : (opened chunkSize content totalSize filepath).safeRead o =
      (opened chunkSize content totalSize filepath).forEachChunk (· ++ ·) o.reads [] := by
    simp only [safeRead, opened, hreserve]
  obtain ⟨hok, herror⟩ :=
    forEachChunk_opened hchunk (· ++ ·) content totalSize filepath o.reads []
  rw [hread]
  refine ⟨fun h => ?_, herror⟩
  obtain ⟨chunks, hflatten, hloop⟩ := hok h
  rw [hloop, foldl_append, List.nil_append, hflatten]

/-- The loop of `hash_file`. -/
private theorem hash_opened (hchunk : 0 < chunkSize) {hasher : Hasher}
    {sha256 : List UInt8 → Sha256Hash} (hhasher : ∀ chunks : List (List UInt8),
      hasher.finalize (chunks.foldl hasher.update hasher.new) = sha256 chunks.flatten)
    (content : List UInt8) (totalSize : UInt64) (filepath : List UInt8) (o : FileOutside) :
    ((∀ e, .error e ∉ answersOf chunkSize content totalSize o.reads) →
      (opened chunkSize content totalSize filepath).hash hasher o =
        .ok (sha256 (content.take totalSize.toNat))) ∧
    ∀ e, .error e ∈ answersOf chunkSize content totalSize o.reads →
      (opened chunkSize content totalSize filepath).hash hasher o =
        .error (.read filepath e.description) := by
  obtain ⟨hok, herror⟩ :=
    forEachChunk_opened hchunk hasher.update content totalSize filepath o.reads hasher.new
  refine ⟨fun h => ?_, fun e he => by rw [hash, herror e he]; rfl⟩
  obtain ⟨chunks, hflatten, hloop⟩ := hok h
  rw [hash, hloop, ← hflatten, ← hhasher]
  rfl

end Stss.Native.GenericSafeFileReader

namespace Stss.Spec

open Stss.Native ForStd

/-- Reading in chunks loses nothing and ends. The loop calls `next_chunk` at most once for every
    byte and once more. Where no call of `read` fails, `safe_read` returns the first bytes of
    the file up to the declared length, if the memory for that length could be reserved, and
    `hash_file` their hash; where a call fails, its error is returned. A reservation that is
    refused makes `safe_read` fail before anything is read. -/
theorem chunked_reading {chunkSize : Nat} (hchunk : 0 < chunkSize)
    {hasher : Hasher} {sha256 : List UInt8 → Sha256Hash}
    (hhasher : ∀ chunks : List (List UInt8),
      hasher.finalize (chunks.foldl hasher.update hasher.new) = sha256 chunks.flatten)
    {filepath : List UInt8} {extension : Option (List UInt8)} {o : FileOutside}
    {reader : GenericSafeFileReader chunkSize}
    (hnew : GenericSafeFileReader.new chunkSize filepath extension o = .ok reader)
    {content : List UInt8} {totalSize : UInt64} (hcontent : o.opened = .ok content)
    (hsize : o.metadata = .ok totalSize) :
    let bytes := content.take (min totalSize.toNat content.length)
    let answers := answersOf chunkSize content totalSize o.reads
    let hashAnswers := answersOf 8192 content totalSize o.reads
    reader.reading (bytes.length + 1) o.reads = false ∧
      (tryReserve o.allocates totalSize.toNat = .ok () →
        ((∀ e, .error e ∉ answers) → reader.safeRead o = .ok bytes) ∧
        ∀ e, .error e ∈ answers → reader.safeRead o = .error (.read filepath e.description)) ∧
      (∀ text, tryReserve o.allocates totalSize.toNat = .error text →
        reader.safeRead o = .error (.memory filepath text)) ∧
      ((∀ e, .error e ∉ hashAnswers) →
        hashFile hasher filepath extension o = .ok (sha256 bytes)) ∧
      ∀ e, .error e ∈ hashAnswers →
        hashFile hasher filepath extension o = .error (.read filepath e.description) := by
  have hextension := GenericSafeFileReader.extension_of_new hnew
  obtain rfl : reader = .opened chunkSize content totalSize filepath :=
    Except.ok.inj (hnew.symm.trans
      (GenericSafeFileReader.new_of_opened hextension hcontent hsize))
  -- the hasher opens the file again, with chunks of its own size
  have hhash : hashFile hasher filepath extension o =
      (GenericSafeFileReader.opened 8192 content totalSize filepath).hash hasher o := by
    rw [hashFile, GenericSafeFileReader.new_of_opened hextension hcontent hsize]
    rfl
  rw [← List.take_eq_take_min, hhash]
  refine ⟨GenericSafeFileReader.reading_eq_false (Nat.lt_succ_self _), fun hreserve => ?_,
    fun text hreserve => ?_, ?_⟩
  · exact GenericSafeFileReader.safeRead_opened hchunk hreserve filepath
  · exact GenericSafeFileReader.safeRead_of_refused hreserve
  · exact GenericSafeFileReader.hash_opened (by decide) hhasher content totalSize filepath o

/-- A file of five bytes, four of them declared, of which one call after the other delivers
    more. -/
def shortReads : FileOutside where
  opened := .ok [1, 2, 3, 4, 5]
  metadata := .ok 4
  reads k := .delivers k

/-- A hash that keeps the first bytes. -/
def firstBytes (bytes : List UInt8) : Sha256Hash := ⟨Vector.ofFn fun i => bytes.getD i 0⟩

def firstBytesHasher : Hasher where
  State := List UInt8
  new := []
  update := (· ++ ·)
  finalize := firstBytes

theorem chunked_reading_short :
    (GenericSafeFileReader.opened 2 [1, 2, 3, 4, 5] 4 (utf8 "a.txt")).safeRead shortReads =
        .ok [1, 2, 3, 4] ∧
      hashFile firstBytesHasher (utf8 "a.txt") (some (utf8 "txt")) shortReads =
        .ok (firstBytes [1, 2, 3, 4]) := by
  have hnew : GenericSafeFileReader.new 2 (utf8 "a.txt") (some (utf8 "txt")) shortReads =
      .ok (.opened 2 [1, 2, 3, 4, 5] 4 (utf8 "a.txt")) :=
    GenericSafeFileReader.new_of_opened
      (fun e he => by obtain rfl := Option.some.inj he; decide) rfl rfl
  have hhasher (chunks : List (List UInt8)) : firstBytesHasher.finalize
      (chunks.foldl firstBytesHasher.update firstBytesHasher.new) = firstBytes chunks.flatten :=
    congrArg firstBytes (GenericSafeFileReader.foldl_append chunks [])
  have h := chunked_reading (by decide) hhasher hnew rfl rfl
  exact ⟨(h.2.1 rfl).1 (Take.answers_of_delivers fun k => ⟨k, rfl⟩),
    h.2.2.2.1 (Take.answers_of_delivers fun k => ⟨k, rfl⟩)⟩

/-- A file of three bytes with other metadata, such as a sparse file that is being cut. -/
def declares (totalSize : UInt64) (allocates : Bool) : FileOutside where
  opened := .ok [1, 2, 3]
  metadata := .ok totalSize
  allocates := allocates
  reads k := .delivers k

/-- The file can be opened and no call of `read` fails, but its bytes are not returned. -/
def ReadsNothing (totalSize : UInt64) (allocates : Bool) : Prop :=
  GenericSafeFileReader.new 8192 (utf8 "a.txt") none (declares totalSize allocates) =
      .ok (.opened 8192 [1, 2, 3] totalSize (utf8 "a.txt")) ∧
    (∀ e, .error e ∉ answersOf 8192 [1, 2, 3] totalSize (declares totalSize allocates).reads) ∧
    (GenericSafeFileReader.opened 8192 [1, 2, 3] totalSize (utf8 "a.txt")).safeRead
        (declares totalSize allocates) ≠ .ok [1, 2, 3]

private theorem readsNothing_of_refused {totalSize : UInt64} {allocates : Bool} {text : String}
    (h : tryReserve allocates totalSize.toNat = .error text) :
    ReadsNothing totalSize allocates := by
  refine ⟨rfl, Take.answers_of_delivers fun k => ⟨k, rfl⟩, ?_⟩
  rw [GenericSafeFileReader.safeRead_of_refused h]
  exact fun h => by cases h

/-- More than `isize::MAX` bytes are never reserved, fewer only if the allocator has them. -/
theorem safeRead_not_reserved :
    ReadsNothing 0x8000000000000000 true ∧ ReadsNothing 0x10000000000 false :=
  ⟨readsNothing_of_refused rfl, readsNothing_of_refused rfl⟩

end Stss.Spec
