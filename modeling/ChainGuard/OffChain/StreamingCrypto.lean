import ChainGuard.Library.ChunkQueue
import ChainGuard.Library.Guarded
import ChainGuard.OffChain.Js

/-! `streamingCrypto.service`: the two transforms, which encrypt a stream in frames of at most `chunkSize` bytes and
decrypt it, whatever the chunks that it comes in. What only counts memory or reports progress is left out. -/
namespace ChainGuard.OffChain.StreamingCrypto
open Guarded
set_option autoImplicit false

inductive Thrown
  | error (message : JsString)
  /-- By `DataView`, for an offset out of its buffer. -/
  | rangeError
  /-- A property of `undefined`. -/
  | typeError
  deriving DecidableEq

abbrev Result (α : Type) := Except Thrown α

/-! ## Views -/

/-- A view of a buffer. -/
structure Uint8Array where
  buffer : Bytes
  byteOffset : ℕ
  byteLength : ℕ
  inBounds : byteOffset + byteLength ≤ buffer.length

namespace Uint8Array

def contents (a : Uint8Array) : Bytes := (a.buffer.drop a.byteOffset).take a.byteLength

/-- A view of the whole of a buffer of its own. -/
def ofBytes (bytes : Bytes) : Uint8Array := ⟨bytes, 0, bytes.length, by rw [Nat.zero_add]⟩

/-- `a.subarray(begin)` -/
def subarray (a : Uint8Array) (start : ℕ) : Uint8Array :=
  ⟨a.buffer, a.byteOffset + min start a.byteLength, a.byteLength - min start a.byteLength, by
    have h := a.inBounds
    omega⟩

theorem contents_length (a : Uint8Array) : a.contents.length = a.byteLength := by
  have h := a.inBounds
  rw [contents, List.length_take, List.length_drop]
  omega

theorem contents_ofBytes (bytes : Bytes) : (ofBytes bytes).contents = bytes := by
  rw [contents, ofBytes, List.drop_zero, List.take_length]

theorem contents_subarray (a : Uint8Array) (start : ℕ) : (a.subarray start).contents = a.contents.drop start := by
  have hlength := a.contents_length
  rw [contents, contents, subarray]
  dsimp only
  rcases Nat.le_total start a.byteLength with h | h
  · rw [Nat.min_eq_left h, List.drop_take, List.drop_drop]
  · rw [Nat.min_eq_right h, Nat.sub_self, List.take_zero, List.drop_eq_nil_of_le]
    rw [contents] at hlength
    omega

end Uint8Array

/-- `drainChunks`: the bytes that are taken, and the list of the chunks after it. -/
def drainChunks : List Uint8Array → ℕ → Result (Bytes × List Uint8Array)
  | chunks, 0 => .ok ([], chunks)
  | [], _ + 1 => .error .typeError
  | head :: chunks, count + 1 =>
    if head.byteLength ≤ count + 1 then do
      let (out, chunks) ← drainChunks chunks (count + 1 - head.byteLength)
      return (head.contents ++ out, chunks)
    else return (head.contents.take (count + 1), head.subarray (count + 1) :: chunks)

def readUint32BE (bytes : Uint8Array) (offset : ℕ) : Result ℕ :=
  if bytes.byteOffset + offset + 4 ≤ bytes.buffer.length then
    .ok (natBE ((bytes.buffer.drop (bytes.byteOffset + offset)).take 4))
  else .error .rangeError

/-! ## Format -/

def STREAMING_CRYPTO_MAGIC : Bytes := [0x53, 0x56, 0x53, 0x43]
def STREAMING_CRYPTO_VERSION : UInt8 := 1
def STREAMING_CHUNK_SIZE : ℕ := 64 * 1024
def STREAMING_HEADER_SIZE : ℕ := 16
def STREAMING_IV_LENGTH : ℕ := 12
def STREAMING_TAG_LENGTH : ℕ := 16

/-- What a header may hold. -/
def MAX_CHUNK_SIZE : ℕ := 16 * 1024 * 1024

/-- AES-GCM under one key: of a vector, associated data and a text, with a tag at the end of what it gives. -/
structure AesGcm where
  encrypt : Bytes → Bytes → Bytes → Bytes
  decrypt : Bytes → Bytes → Bytes → Option Bytes

def throwIf (condition : Prop) [Decidable condition] (message : JsString) : Result Unit :=
  if condition then .error (.error message) else .ok ()

def chunkIndexAad (chunkIndex : ℕ) : Bytes := bytesBE 4 chunkIndex

def isStreamingEncryptedPrefix (bytes : Bytes) : Bool := STREAMING_CRYPTO_MAGIC.isPrefixOf bytes

def buildHeader (chunkSize : ℕ) : Bytes :=
  STREAMING_CRYPTO_MAGIC ++ [STREAMING_CRYPTO_VERSION, 0] ++ bytesBE 4 chunkSize ++ List.replicate 6 0

def parseHeader (header : Bytes) : Result ℕ := do
  throwIf (header.length < STREAMING_HEADER_SIZE) (js "Truncated streaming crypto header")
  throwIf (isStreamingEncryptedPrefix header = false)
    (js "Not a SpooVault streaming ciphertext (missing SVSC magic)")
  throwIf (header.getD 4 0 ≠ STREAMING_CRYPTO_VERSION)
    (js "Unsupported streaming crypto version: " ++ decimal (header.getD 4 0).toNat)
  let chunkSize ← readUint32BE (.ofBytes header) 6
  throwIf (chunkSize < 1 ∨ MAX_CHUNK_SIZE < chunkSize) (js "Invalid streaming chunk size: " ++ decimal chunkSize)
  return chunkSize

section Transforms
variable (aead : AesGcm)

/-! ## Encryption -/

structure EncryptState where
  pendingChunks : List Uint8Array
  pendingLen : ℕ
  chunkIndex : ℕ

/-- The random vector of a frame. -/
def ivOf (random : ℕ → Fin STREAMING_IV_LENGTH → UInt8) (chunkIndex : ℕ) : Bytes := List.ofFn (random chunkIndex)

/-- The frame of a piece, with the random vector that is drawn for it. -/
def encryptChunk (random : ℕ → Fin STREAMING_IV_LENGTH → UInt8) (chunkIndex : ℕ) (plaintext : Bytes) : Bytes :=
  let iv := ivOf random chunkIndex
  bytesBE 4 plaintext.length ++ (iv ++ aead.encrypt iv (chunkIndexAad chunkIndex) plaintext)

/-- `while (pendingLen >= chunkSize)`, so many rounds of it. -/
def encryptChunks (random : ℕ → Fin STREAMING_IV_LENGTH → UInt8) (chunkSize : ℕ) :
    ℕ → EncryptState → Result (List Bytes × EncryptState)
  | 0, s => .ok ([], s)
  | fuel + 1, s =>
    if s.pendingLen < chunkSize then .ok ([], s)
    else do
      let (plain, pendingChunks) ← drainChunks s.pendingChunks chunkSize
      let frame := encryptChunk aead random s.chunkIndex plain
      let (frames, s) ← encryptChunks random chunkSize fuel
        ⟨pendingChunks, s.pendingLen - chunkSize, s.chunkIndex + 1⟩
      return (frame :: frames, s)

/-- A piece of at least one byte leaves the list in each round, and as many rounds are enough. -/
def encryptTransform (random : ℕ → Fin STREAMING_IV_LENGTH → UInt8) (chunkSize : ℕ) (s : EncryptState)
    (chunk : Uint8Array) : Result (List Bytes × EncryptState) :=
  let s := { s with pendingChunks := s.pendingChunks ++ [chunk], pendingLen := s.pendingLen + chunk.byteLength }
  encryptChunks aead random chunkSize s.pendingLen s

def EncryptState.remaining (s : EncryptState) : Result Bytes :=
  if 0 < s.pendingLen then Prod.fst <$> drainChunks s.pendingChunks s.pendingLen else .ok []

def encryptFlush (random : ℕ → Fin STREAMING_IV_LENGTH → UInt8) (s : EncryptState) : Result Bytes := do
  return encryptChunk aead random s.chunkIndex (← s.remaining)

def encryptRest (random : ℕ → Fin STREAMING_IV_LENGTH → UInt8) (chunkSize : ℕ) :
    List Uint8Array → EncryptState → Result (List Bytes)
  | [], s => do return [← encryptFlush aead random s]
  | chunk :: chunks, s => do
    let (frames, s) ← encryptTransform aead random chunkSize s chunk
    return frames ++ (← encryptRest random chunkSize chunks s)

/-- What `createEncryptTransform` puts out for the chunks of a stream. -/
def encryptStream (random : ℕ → Fin STREAMING_IV_LENGTH → UInt8) (chunkSize : ℕ) (chunks : List Uint8Array) :
    Result (List Bytes) := do
  return buildHeader chunkSize :: (← encryptRest aead random chunkSize chunks ⟨[], 0, 0⟩)

/-! ## Decryption -/

structure DecryptState where
  bufferChunks : List Uint8Array
  bufferLen : ℕ
  headerParsed : Bool
  chunkSize : ℕ
  chunkIndex : ℕ
  finalized : Bool

/-- `take(n)` where the buffer holds so many bytes. -/
def DecryptState.take (s : DecryptState) (n : ℕ) : Result (Bytes × DecryptState) := do
  let (out, bufferChunks) ← drainChunks s.bufferChunks n
  return (out, { s with bufferChunks, bufferLen := s.bufferLen - n })

/-- `readUint32BE(bufferChunks[0], 0)` -/
def DecryptState.plaintextLen (s : DecryptState) : Result ℕ :=
  match s.bufferChunks with
  | [] => .error .typeError
  | head :: _ => readUint32BE head 0

def frameBodyLen (plaintextLen : ℕ) : ℕ := 4 + STREAMING_IV_LENGTH + plaintextLen + STREAMING_TAG_LENGTH

/-- `while (true)`, so many rounds of it. -/
def decryptFrames : ℕ → DecryptState → Result (List Bytes × DecryptState)
  | 0, s => .ok ([], s)
  | fuel + 1, s =>
    if s.bufferLen < 4 then .ok ([], s)
    else do
      let plaintextLen ← s.plaintextLen
      throwIf (s.chunkSize < plaintextLen)
        (js "Invalid streaming frame length " ++ decimal plaintextLen ++ js " (max " ++ decimal s.chunkSize ++ js ")")
      if s.bufferLen < frameBodyLen plaintextLen then return ([], s)
      else
        let (frame, s) ← s.take (frameBodyLen plaintextLen)
        let iv := (frame.drop 4).take STREAMING_IV_LENGTH
        let ciphertext := frame.drop (4 + STREAMING_IV_LENGTH)
        match aead.decrypt iv (chunkIndexAad s.chunkIndex) ciphertext with
        | none =>
          .error (.error (js "Streaming decryption failed at chunk " ++ decimal s.chunkIndex ++
            js " (wrong key or corrupted ciphertext)"))
        | some plaintext =>
          let s := { s with chunkIndex := s.chunkIndex + 1 }
          let output := if 0 < plaintext.length then [plaintext] else []
          if plaintextLen < s.chunkSize then do
            throwIf (0 < s.bufferLen) (js "Trailing bytes after final streaming crypto frame")
            return (output, { s with finalized := true })
          else
            let (rest, s) ← decryptFrames fuel s
            return (output ++ rest, s)

/-- A frame of at least 32 bytes leaves the buffer in each round that is not the last. -/
def decryptBuffered (s : DecryptState) : Result (List Bytes × DecryptState) := decryptFrames aead (s.bufferLen + 1) s

def decryptTransform (s : DecryptState) (chunk : Uint8Array) : Result (List Bytes × DecryptState) := do
  throwIf (s.finalized = true) (js "Unexpected data after final streaming crypto frame")
  let s := { s with bufferChunks := s.bufferChunks ++ [chunk], bufferLen := s.bufferLen + chunk.byteLength }
  if s.headerParsed then decryptBuffered aead s
  else if s.bufferLen < STREAMING_HEADER_SIZE then return ([], s)
  else do
    let (header, s) ← s.take STREAMING_HEADER_SIZE
    let chunkSize ← parseHeader header
    decryptBuffered aead { s with chunkSize, headerParsed := true }

def decryptFlush (s : DecryptState) : Result Unit := do
  throwIf (s.headerParsed = false) (js "Truncated streaming ciphertext (missing header)")
  throwIf (s.finalized = false) (js "Truncated streaming ciphertext (missing final frame)")
  throwIf (0 < s.bufferLen) (js "Trailing bytes after streaming ciphertext")

def decryptRest : List Uint8Array → DecryptState → Result (List Bytes)
  | [], s => do
    decryptFlush s
    return []
  | chunk :: chunks, s => do
    let (output, s) ← decryptTransform aead s chunk
    return output ++ (← decryptRest chunks s)

/-- What `createDecryptTransform` puts out for the chunks of a stream. -/
def decryptStream (chunks : List Uint8Array) : Result (List Bytes) :=
  decryptRest aead chunks ⟨[], 0, false, STREAMING_CHUNK_SIZE, 0, false⟩

end Transforms

/-! The bytes that the encryption of a stream gives, whatever its chunks: a header, and a frame for each piece of the
text. And what a stream of frames is, and which chunks of it the decryption gets through. -/
open ChunkQueue

variable {aead : AesGcm} {random : ℕ → Fin STREAMING_IV_LENGTH → UInt8}

/-! ## Taking bytes -/

def contentsOf (chunks : List Uint8Array) : List Bytes := chunks.map Uint8Array.contents

/-- The view goes to the end of its buffer, as one that has the buffer for its own does. -/
def EndsBuffer (a : Uint8Array) : Prop := a.byteOffset + a.byteLength = a.buffer.length

theorem endsBuffer_ofBytes (bytes : Bytes) : EndsBuffer (.ofBytes bytes) := Nat.zero_add _

theorem contentsOf_ofBytes (chunks : List Bytes) : contentsOf (chunks.map Uint8Array.ofBytes) = chunks := by
  rw [contentsOf, List.map_map]
  exact (List.map_congr_left fun c _ => Uint8Array.contents_ofBytes c).trans (List.map_id _)

theorem endsBuffer_of_mem {chunks : List Bytes} {a : Uint8Array} (ha : a ∈ chunks.map Uint8Array.ofBytes) :
    EndsBuffer a := by
  obtain ⟨c, _, rfl⟩ := List.mem_map.mp ha
  exact endsBuffer_ofBytes c

theorem EndsBuffer.subarray {a : Uint8Array} (h : EndsBuffer a) (start : ℕ) : EndsBuffer (a.subarray start) := by
  unfold EndsBuffer at h ⊢
  dsimp only [Uint8Array.subarray]
  omega

theorem drainChunks_ok {chunks : List Uint8Array} {n : ℕ} (hn : n ≤ (contentsOf chunks).flatten.length) :
    ∃ chunks', drainChunks chunks n = .ok ((contentsOf chunks).flatten.take n, chunks') ∧
      contentsOf chunks' = drained n (contentsOf chunks) ∧
      ((∀ a ∈ chunks, EndsBuffer a) → ∀ a ∈ chunks', EndsBuffer a) := by
  induction chunks generalizing n with
  | nil =>
    obtain rfl := Nat.le_zero.mp hn
    exact ⟨[], rfl, rfl, id⟩
  | cons head chunks ih =>
    have hlength := head.contents_length
    cases n with
    | zero => exact ⟨_, rfl, rfl, id⟩
    | succ n =>
      have hcontents : contentsOf (head :: chunks) = head.contents :: contentsOf chunks := rfl
      rw [hcontents] at hn ⊢
      rw [List.flatten_cons, List.length_append] at hn
      rw [drainChunks]
      rcases Nat.lt_or_ge (n + 1) head.byteLength with hlt | hle
      · have hgt : ¬ head.byteLength ≤ n + 1 := by omega
        refine ⟨head.subarray (n + 1) :: chunks, ?_, ?_, fun h => List.forall_mem_cons.mpr
          ⟨(h head List.mem_cons_self).subarray _, fun a ha => h a (List.mem_cons_of_mem _ ha)⟩⟩
        · rw [if_neg hgt, List.flatten_cons, List.take_append_of_le_length (by omega)]
          rfl
        · rw [drained_cons_lt (Nat.succ_pos n) (by omega), contentsOf, List.map_cons, Uint8Array.contents_subarray]
          rfl
      · obtain ⟨chunks', hdrain, hrest, hends⟩ := ih (n := n + 1 - head.byteLength) (by omega)
        refine ⟨chunks', ?_, ?_, fun h => hends fun a ha => h a (List.mem_cons_of_mem _ ha)⟩
        · have htake : head.contents.take (n + 1) = head.contents := List.take_of_length_le (by omega)
          rw [if_pos hle, hdrain, ok_bind, List.flatten_cons, List.take_append, htake, hlength]
          rfl
        · rw [hrest, drained_cons_le (Nat.succ_pos n) (by omega), hlength]

/-! ## The bytes of an encryption -/

def framesOf (aead : AesGcm) (random : ℕ → Fin STREAMING_IV_LENGTH → UInt8) : ℕ → List Bytes → List Bytes
  | _, [] => []
  | i, piece :: rest => encryptChunk aead random i piece :: framesOf aead random (i + 1) rest

def encryptedBytes (aead : AesGcm) (random : ℕ → Fin STREAMING_IV_LENGTH → UInt8) (chunkSize : ℕ) (plaintext : Bytes) :
    Bytes :=
  buildHeader chunkSize ++ (framesOf aead random 0 (pieces chunkSize plaintext)).flatten

structure EncryptState.Holds (s : EncryptState) (pending : Bytes) : Prop where
  bytes : (contentsOf s.pendingChunks).flatten = pending
  len : s.pendingLen = pending.length

theorem encryptChunks_ok (aead : AesGcm) (random : ℕ → Fin STREAMING_IV_LENGTH → UInt8) {chunkSize : ℕ}
    (hpos : 0 < chunkSize) {fuel : ℕ} {s : EncryptState} {pending : Bytes}
    (hs : s.Holds pending) (hfuel : pending.length ≤ fuel) :
    ∃ out s' pending', encryptChunks aead random chunkSize fuel s = .ok (out, s') ∧ s'.Holds pending' ∧
      pending'.length < chunkSize ∧
      ∀ rest, out ++ framesOf aead random s'.chunkIndex (pieces chunkSize (pending' ++ rest)) =
        framesOf aead random s.chunkIndex (pieces chunkSize (pending ++ rest)) := by
  induction fuel generalizing s pending with
  | zero => exact ⟨[], s, pending, rfl, hs, by omega, fun _ => rfl⟩
  | succ fuel ih =>
    rcases Nat.lt_or_ge pending.length chunkSize with hlt | hle
    · exact ⟨[], s, pending, if_pos (hs.len ▸ hlt), hs, hlt, fun _ => rfl⟩
    · obtain ⟨chunks', hdrain, hcontents, _⟩ := drainChunks_ok
        (show chunkSize ≤ (contentsOf s.pendingChunks).flatten.length by rw [hs.bytes]; exact hle)
      have hs' : EncryptState.Holds ⟨chunks', s.pendingLen - chunkSize, s.chunkIndex + 1⟩ (pending.drop chunkSize) := by
        refine ⟨?_, ?_⟩
        · rw [hcontents, drained_flatten, hs.bytes]
        · rw [List.length_drop, ← hs.len]
      obtain ⟨out, s', pending', hrun, hholds, hshort, hframes⟩ := ih hs' (by rw [List.length_drop]; omega)
      refine ⟨encryptChunk aead random s.chunkIndex (pending.take chunkSize) :: out, s', pending', ?_, hholds, hshort,
        fun rest => ?_⟩
      · rw [encryptChunks, if_neg (by rw [hs.len]; omega), hdrain, ok_bind, hs.bytes]
        dsimp only
        rw [hrun]
        rfl
      · have hle' : chunkSize ≤ (pending ++ rest).length := by rw [List.length_append]; omega
        rw [pieces_of_le hpos hle', List.take_append_of_le_length hle, List.drop_append_of_le_length hle, framesOf,
          List.cons_append, hframes rest]

theorem encryptRest_ok {chunkSize : ℕ} (hpos : 0 < chunkSize) (chunks : List Uint8Array) {s : EncryptState}
    {pending : Bytes} (hs : s.Holds pending) (hshort : pending.length < chunkSize) :
    encryptRest aead random chunkSize chunks s =
      .ok (framesOf aead random s.chunkIndex (pieces chunkSize (pending ++ (contentsOf chunks).flatten))) := by
  induction chunks generalizing s pending with
  | nil =>
    have hremaining : s.remaining = .ok pending := by
      rw [EncryptState.remaining]
      split
      · obtain ⟨chunks', hdrain, _⟩ := drainChunks_ok
          (show s.pendingLen ≤ (contentsOf s.pendingChunks).flatten.length by rw [hs.bytes, hs.len])
        rw [hdrain, hs.bytes, hs.len, List.take_length]
        rfl
      · next hzero =>
        have hlen := hs.len
        rw [List.length_eq_zero_iff.mp (by omega : pending.length = 0)]
    rw [encryptRest, encryptFlush, hremaining]
    simp only [contentsOf, List.map_nil, List.flatten_nil, List.append_nil, pieces_of_lt hshort]
    rfl
  | cons chunk chunks ih =>
    have hpushed : EncryptState.Holds { s with
        pendingChunks := s.pendingChunks ++ [chunk], pendingLen := s.pendingLen + chunk.byteLength }
        (pending ++ chunk.contents) := by
      refine ⟨?_, ?_⟩
      · rw [contentsOf, List.map_append, List.flatten_append, ← contentsOf, hs.bytes, List.map_singleton,
          List.flatten_singleton]
      · rw [List.length_append, chunk.contents_length, ← hs.len]
    obtain ⟨out, s', pending', hrun, hholds, hshort', hframes⟩ := encryptChunks_ok aead random hpos hpushed
      hpushed.len.ge
    have hbytes : (contentsOf (chunk :: chunks)).flatten = chunk.contents ++ (contentsOf chunks).flatten := rfl
    rw [encryptRest, encryptTransform]
    dsimp only at hrun ⊢
    rw [hrun, ok_bind]
    dsimp only
    rw [ih hholds hshort', ok_bind, hframes, List.append_assoc, hbytes]
    rfl

theorem encryptStream_ok (aead : AesGcm) (random : ℕ → Fin STREAMING_IV_LENGTH → UInt8) {chunkSize : ℕ}
    (hpos : 0 < chunkSize) (chunks : List Uint8Array) :
    ∃ out, encryptStream aead random chunkSize chunks = .ok out ∧
      out.flatten = encryptedBytes aead random chunkSize (contentsOf chunks).flatten := by
  have hempty : EncryptState.Holds ⟨[], 0, 0⟩ [] := ⟨rfl, rfl⟩
  rw [encryptStream, encryptRest_ok hpos chunks hempty hpos]
  exact ⟨_, rfl, rfl⟩

end ChainGuard.OffChain.StreamingCrypto
