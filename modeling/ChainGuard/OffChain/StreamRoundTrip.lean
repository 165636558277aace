import ChainGuard.OffChain.StreamDecryption

/-! The round trip of a stream: for which chunks of an encrypted stream its decryption gives the text back. -/
namespace ChainGuard.OffChain.StreamingCrypto
open Guarded ChunkQueue
set_option autoImplicit false

/-! ## Headers -/

theorem buildHeader_length (chunkSize : ℕ) : (buildHeader chunkSize).length = STREAMING_HEADER_SIZE := by
  rw [buildHeader, List.length_append, List.length_append, bytesBE_length, List.length_replicate]
  rfl

theorem parseHeader_buildHeader {chunkSize : ℕ} (hpos : 1 ≤ chunkSize) (hmax : chunkSize ≤ MAX_CHUNK_SIZE) :
    parseHeader (buildHeader chunkSize) = .ok chunkSize := by
  have hlength := buildHeader_length chunkSize
  have hmagic : isStreamingEncryptedPrefix (buildHeader chunkSize) = true := by
    rw [isStreamingEncryptedPrefix, List.isPrefixOf_iff_prefix, buildHeader, List.append_assoc, List.append_assoc]
    exact List.prefix_append _ _
  have hversion : (buildHeader chunkSize).getD 4 0 = STREAMING_CRYPTO_VERSION := rfl
  have hsize : readUint32BE (.ofBytes (buildHeader chunkSize)) 6 = .ok chunkSize := by
    have hbounds : (Uint8Array.ofBytes (buildHeader chunkSize)).byteOffset + 6 + 4 ≤
        (Uint8Array.ofBytes (buildHeader chunkSize)).buffer.length := hlength ▸ (by decide : 0 + 6 + 4 ≤ 16)
    have hfield : ((buildHeader chunkSize).drop 6).take 4 = bytesBE 4 chunkSize := by
      have hdrop : (buildHeader chunkSize).drop 6 = bytesBE 4 chunkSize ++ List.replicate 6 0 := by
        rw [buildHeader, List.append_assoc]
        exact List.drop_left' rfl
      rw [hdrop]
      exact List.take_left' (bytesBE_length 4 chunkSize)
    rw [readUint32BE, if_pos hbounds]
    show Except.ok (natBE (((buildHeader chunkSize).drop (0 + 6)).take 4)) = _
    rw [Nat.zero_add, hfield, natBE_bytesBE, Nat.mod_eq_of_lt (hmax.trans_lt MAX_CHUNK_SIZE_lt)]
  have hlong : ¬ (buildHeader chunkSize).length < STREAMING_HEADER_SIZE := hlength.not_lt
  have hlimits : ¬ (chunkSize < 1 ∨ MAX_CHUNK_SIZE < chunkSize) := by omega
  simp only [parseHeader, throwIf, if_neg hlong, hmagic, hversion, hsize, ok_bind, if_neg hlimits]
  rfl

/-! ## Frames of a text -/

variable {aead : AesGcm} {random : ℕ → Fin STREAMING_IV_LENGTH → UInt8} {chunkSize : ℕ}

/-- The cipher puts a tag at the end, and what it encrypts it decrypts. -/
structure AesGcm.Inverts (aead : AesGcm) : Prop where
  length : ∀ iv aad plaintext, (aead.encrypt iv aad plaintext).length = plaintext.length + STREAMING_TAG_LENGTH
  decrypt : ∀ iv aad plaintext, aead.decrypt iv aad (aead.encrypt iv aad plaintext) = some plaintext

theorem ivOf_length (random : ℕ → Fin STREAMING_IV_LENGTH → UInt8) (i : ℕ) :
    (ivOf random i).length = STREAMING_IV_LENGTH := List.length_ofFn

theorem framesOf_pieces (haead : aead.Inverts) (random : ℕ → Fin STREAMING_IV_LENGTH → UInt8) (hpos : 0 < chunkSize)
    (i : ℕ) (plaintext : Bytes) :
    Frames aead chunkSize i (framesOf aead random i (pieces chunkSize plaintext)) plaintext := by
  induction hn : plaintext.length / chunkSize generalizing i plaintext with
  | zero =>
    have hlt : plaintext.length < chunkSize := (Nat.div_eq_zero_iff_lt hpos).mp hn
    rw [pieces_of_lt hlt]
    exact .final (ivOf_length random i) (haead.length _ _ _) hlt (haead.decrypt _ _ _)
  | succ n ih =>
    have hle : chunkSize ≤ plaintext.length := by
      by_contra hlt
      rw [Nat.div_eq_of_lt (not_le.mp hlt)] at hn
      cases hn
    have hpiece : (plaintext.take chunkSize).length = chunkSize := List.length_take_of_le hle
    have hrest : (plaintext.drop chunkSize).length / chunkSize = n := by
      rw [Nat.div_eq_sub_div hpos hle, ← List.length_drop] at hn
      exact Nat.succ.inj hn
    have hframes := Frames.full (ivOf_length random i)
      ((haead.length _ _ (plaintext.take chunkSize)).trans (congrArg (· + _) hpiece)) (haead.decrypt _ _ _)
      (ih (i + 1) (plaintext.drop chunkSize) hrest)
    rw [List.take_append_drop] at hframes
    rw [pieces_of_le hpos hle, framesOf, encryptChunk, hpiece]
    exact hframes

theorem framesOf_take_length (haead : aead.Inverts) (hpos : 0 < chunkSize) (j : ℕ) {i : ℕ} {plaintext : Bytes}
    (hi : i ≤ plaintext.length / chunkSize) :
    ((framesOf aead random j (pieces chunkSize plaintext)).take i).flatten.length = i * frameBodyLen chunkSize := by
  induction i generalizing j plaintext with
  | zero => rw [List.take_zero, Nat.zero_mul]; rfl
  | succ i ih =>
    have hle : chunkSize ≤ plaintext.length := (Nat.le_div_iff_mul_le hpos).mp hi |> (Nat.le_mul_of_pos_left _ i.succ_pos).trans
    have hpiece : (plaintext.take chunkSize).length = chunkSize := List.length_take_of_le hle
    have hframe : (encryptChunk aead random j (plaintext.take chunkSize)).length = frameBodyLen chunkSize := by
      rw [encryptChunk, hpiece]
      exact frame_length (ivOf_length random j) ((haead.length _ _ _).trans (congrArg (· + _) hpiece))
    have hrest : i ≤ (plaintext.drop chunkSize).length / chunkSize := by
      rw [Nat.div_eq_sub_div hpos hle, ← List.length_drop] at hi
      exact Nat.le_of_succ_le_succ hi
    rw [pieces_of_le hpos hle, framesOf, List.take_succ_cons, List.flatten_cons, List.length_append, hframe, ih _ hrest,
      Nat.succ_mul, Nat.add_comm]

theorem framesOf_length (i : ℕ) (ps : List Bytes) : (framesOf aead random i ps).length = ps.length := by
  induction ps generalizing i with
  | nil => rfl
  | cons piece ps ih => rw [framesOf, List.length_cons, List.length_cons, ih]

/-! ## Chunks -/

theorem intact_iff (fs chunks : List Bytes) : Intact fs chunks ↔
    (∀ i < fs.length, 4 ≤ ((drained (fs.take i).flatten.length chunks).headD []).length) ∧
      drained fs.flatten.length chunks = [] := by
  induction fs generalizing chunks with
  | nil =>
    have hnone : drained (List.flatten ([] : List Bytes)).length chunks = chunks := drained_zero chunks
    rw [Intact, hnone]
    exact (and_iff_right fun i hi => absurd hi (Nat.not_lt_zero i)).symm
  | cons f fs ih =>
    rw [Intact, ih]
    have htail : ∀ n, drained n (drained f.length chunks) = drained (f.length + n) chunks := fun n =>
      drained_drained n f.length chunks
    simp only [htail, List.flatten_cons, List.length_append, ← and_assoc]
    refine and_congr_left fun _ => ⟨fun hboth i hi => ?_, fun hall => ⟨?_, fun i hi => ?_⟩⟩
    · obtain ⟨hfirst, hrest⟩ := hboth
      cases i with
      | zero =>
        have hnone : drained (List.take 0 (f :: fs)).flatten.length chunks = chunks := drained_zero chunks
        rwa [hnone]
      | succ i =>
        rw [List.take_succ_cons, List.flatten_cons, List.length_append]
        exact hrest i (Nat.lt_of_succ_lt_succ hi)
    · have hnone : drained (List.take 0 (f :: fs)).flatten.length chunks = chunks := drained_zero chunks
      have hzero := hall 0 (Nat.succ_pos _)
      rwa [hnone] at hzero
    · have hsucc := hall (i + 1) (Nat.succ_lt_succ hi)
      rwa [List.take_succ_cons, List.flatten_cons, List.length_append] at hsucc

/-- At the start of every frame, four bytes or more are left of the chunk that comes next; and the last chunk is not
empty. -/
def Readable (chunkSize plaintextLen : ℕ) (chunks : List Bytes) : Prop :=
  (∀ i ≤ plaintextLen / chunkSize,
    4 ≤ ((drained (STREAMING_HEADER_SIZE + i * frameBodyLen chunkSize) chunks).headD []).length) ∧
      chunks.getLast? ≠ some []

/-- Whatever the chunks of a text, its encryption succeeds; and the bytes that it gives are decrypted to the text
exactly for the chunks that are readable. -/
theorem decryptStream_iff (haead : aead.Inverts) (random : ℕ → Fin STREAMING_IV_LENGTH → UInt8) (hpos : 1 ≤ chunkSize)
    (hmax : chunkSize ≤ MAX_CHUNK_SIZE) (plaintextChunks : List Uint8Array) :
    ∃ encrypted, encryptStream aead random chunkSize plaintextChunks = .ok encrypted ∧
      ∀ chunks : List Bytes, chunks.flatten = encrypted.flatten →
        ((∃ output, decryptStream aead (chunks.map Uint8Array.ofBytes) = .ok output ∧
            output.flatten = (contentsOf plaintextChunks).flatten) ↔
          Readable chunkSize (contentsOf plaintextChunks).flatten.length chunks) := by
  obtain ⟨encrypted, hencrypted, hbytes⟩ := encryptStream_ok aead random hpos plaintextChunks
  refine ⟨encrypted, hencrypted, fun chunks hchunks => ?_⟩
  generalize hplain : (contentsOf plaintextChunks).flatten = plaintext at hbytes ⊢
  have hframes := framesOf_pieces haead random hpos 0 plaintext
  have htotal : chunks.flatten.length = STREAMING_HEADER_SIZE +
      (framesOf aead random 0 (pieces chunkSize plaintext)).flatten.length := by
    rw [hchunks, hbytes, encryptedBytes, List.length_append, buildHeader_length]
  have hverdict := decryptStream_verdict (parseHeader_buildHeader hpos hmax) (buildHeader_length chunkSize) hframes
    (fun _ => endsBuffer_of_mem) (by rw [contentsOf_ofBytes, hchunks, hbytes]; rfl)
  rw [contentsOf_ofBytes] at hverdict
  rw [hverdict.ok_iff, intact_iff, Readable, drained_drained, ← htotal, drained_all_iff, framesOf_length, pieces_length]
  refine and_congr_left fun _ => forall_congr' fun i => ?_
  rw [Nat.lt_succ_iff]
  refine imp_congr_right fun hi => ?_
  rw [framesOf_take_length haead hpos 0 hi, drained_drained]

/-- A cipher that leaves the text as it is and appends sixteen zeros. -/
def localAead : AesGcm where
  encrypt := fun _ _ plaintext => plaintext ++ List.replicate STREAMING_TAG_LENGTH 0
  decrypt := fun _ _ ciphertext => some (ciphertext.take (ciphertext.length - STREAMING_TAG_LENGTH))

theorem localAead_inverts : localAead.Inverts where
  length := fun _ _ plaintext => by rw [localAead, List.length_append, List.length_replicate]
  decrypt := fun _ _ plaintext => by
    have hlength : (plaintext ++ List.replicate STREAMING_TAG_LENGTH (0 : UInt8)).length - STREAMING_TAG_LENGTH =
        plaintext.length := by rw [List.length_append, List.length_replicate, Nat.add_sub_cancel]
    simp only [localAead, hlength, List.take_left]

/-- Three bytes in two chunks, encrypted two at a time. -/
theorem decryptStream_iff_three :
    ∃ encrypted, encryptStream localAead (fun _ _ => 0) 2 [.ofBytes [1], .ofBytes [2, 3]] = .ok encrypted ∧
      ∀ chunks : List Bytes, chunks.flatten = encrypted.flatten →
        ((∃ output, decryptStream localAead (chunks.map Uint8Array.ofBytes) = .ok output ∧
            output.flatten = (contentsOf [.ofBytes [1], .ofBytes [2, 3]]).flatten) ↔
          Readable 2 (contentsOf [.ofBytes [1], .ofBytes [2, 3]]).flatten.length chunks) :=
  decryptStream_iff localAead_inverts _ (by decide) (by decide) _

/-- One byte that is encrypted, in chunks of one byte each, and with an empty chunk at the end. -/
theorem decryptStream_fails : ∃ encrypted,
    encryptStream localAead (fun _ _ => 0) 64 [.ofBytes [7]] = .ok encrypted ∧
      decryptStream localAead (encrypted.flatten.map fun b => .ofBytes [b]) = .error .rangeError ∧
      decryptStream localAead [.ofBytes encrypted.flatten, .ofBytes []] =
        .error (.error (js "Unexpected data after final streaming crypto frame")) := by
  refine ⟨[buildHeader 64, encryptChunk localAead (fun _ _ => 0) 0 [7]], ?_, ?_, ?_⟩ <;> decide +kernel

/-! What a stream that is decrypted must have been, and which streams are decrypted where the key has encrypted one text
only: those of a header with a larger size come to an end after the first frame. -/

variable {aead : AesGcm} {random : ℕ → Fin STREAMING_IV_LENGTH → UInt8} {chunkSize : ℕ}

/-! ## Streams that are decrypted -/

theorem plaintextLen_ok {s : DecryptState} {chunks : List Bytes} (h : Buffered s.bufferChunks s.bufferLen chunks) {len : ℕ}
    (hlen : s.plaintextLen = .ok len) : 4 ≤ chunks.flatten.length ∧ chunks.flatten.take 4 = bytesBE 4 len := by
  have hcontents := h.contents
  cases hs : s.bufferChunks with
  | nil =>
    rw [DecryptState.plaintextLen, hs] at hlen
    cases hlen
  | cons head more =>
    rw [hs] at hcontents
    have hends := h.ends head (hs ▸ List.mem_cons_self)
    have hlength := head.contents_length
    unfold EndsBuffer at hends
    rw [DecryptState.plaintextLen, hs] at hlen
    dsimp only at hlen
    rw [readUint32BE] at hlen
    have hbounds : head.byteOffset + 0 + 4 ≤ head.buffer.length := by
      by_contra hout
      rw [if_neg hout] at hlen
      cases hlen
    rw [if_pos hbounds, Nat.add_zero] at hlen
    have hall : head.contents = head.buffer.drop head.byteOffset :=
      List.take_of_length_le (by rw [List.length_drop]; omega)
    have hfour : ((head.buffer.drop head.byteOffset).take 4).length = 4 := by
      rw [List.length_take, List.length_drop]
      omega
    have hread := bytesBE_natBE ((head.buffer.drop head.byteOffset).take 4)
    rw [hfour, Except.ok.inj hlen, ← hall] at hread
    rw [← hcontents, contentsOf, List.map_cons, List.flatten_cons, List.length_append,
      List.take_append_of_le_length (by omega)]
    exact ⟨by omega, hread.symm⟩

theorem decryptFrames_cases {fuel : ℕ} {s : DecryptState} {chunks : List Bytes}
    (h : Buffered s.bufferChunks s.bufferLen chunks) {result : List Bytes × DecryptState}
    (hrun : decryptFrames aead (fuel + 1) s = .ok result) : result = ([], s) ∨
      ∃ len iv ciphertext plaintext bufferChunks, len ≤ s.chunkSize ∧ iv.length = STREAMING_IV_LENGTH ∧
        ciphertext.length = len + STREAMING_TAG_LENGTH ∧
        chunks.flatten = (bytesBE 4 len ++ (iv ++ ciphertext)) ++ (drained (frameBodyLen len) chunks).flatten ∧
        aead.decrypt iv (chunkIndexAad s.chunkIndex) ciphertext = some plaintext ∧
        Buffered bufferChunks (s.bufferLen - frameBodyLen len) (drained (frameBodyLen len) chunks) ∧
        afterFrame aead fuel len plaintext { s with bufferChunks, bufferLen := s.bufferLen - frameBodyLen len } =
          .ok result := by
  rw [decryptFrames] at hrun
  split at hrun
  · exact Or.inl (Except.ok.inj hrun).symm
  obtain ⟨len, hlen, hrun⟩ := (bind_ok ..).mp hrun
  obtain ⟨_, hmax, hrun⟩ := (bind_ok ..).mp hrun
  rw [throwIf_ok, not_lt] at hmax
  split at hrun
  · exact Or.inl (Except.ok.inj hrun).symm
  next hfull =>
  rw [h.len, not_lt] at hfull
  obtain ⟨hfour, hfield⟩ := plaintextLen_ok h hlen
  obtain ⟨bufferChunks, htake, hbuffered⟩ := take_ok s h hfull
  rw [htake, ok_bind] at hrun
  dsimp only at hrun
  generalize hframe : chunks.flatten.take (frameBodyLen len) = frame at hrun
  have hlength : frame.length = frameBodyLen len := by rw [← hframe, List.length_take_of_le hfull]
  have hsplit : frame = bytesBE 4 len ++ ((frame.drop 4).take STREAMING_IV_LENGTH ++
      frame.drop (4 + STREAMING_IV_LENGTH)) := by
    have hfirst : frame.take 4 = bytesBE 4 len := by
      rw [← hframe, List.take_take, Nat.min_eq_left (four_le_frameBodyLen len), hfield]
    rw [← List.drop_drop, List.take_append_drop, ← hfirst, List.take_append_drop]
  have hiv : ((frame.drop 4).take STREAMING_IV_LENGTH).length = STREAMING_IV_LENGTH := by
    rw [List.length_take_of_le]
    rw [List.length_drop, hlength, frameBodyLen]
    omega
  have hciphertext : (frame.drop (4 + STREAMING_IV_LENGTH)).length = len + STREAMING_TAG_LENGTH := by
    rw [List.length_drop, hlength, frameBodyLen]
    omega
  split at hrun
  · cases hrun
  next plaintext hdecrypt =>
  refine Or.inr ⟨len, _, _, plaintext, bufferChunks, hmax, hiv, hciphertext, ?_, hdecrypt, hbuffered, hrun⟩
  rw [← hsplit, ← hframe, drained_flatten, List.take_append_drop]

/-- What the loop has put out is the text of frames that it has taken: of all that there were, or of some with those
that follow. -/
inductive Taken (aead : AesGcm) (s : DecryptState) (chunks : List Bytes) : List Bytes × DecryptState → Prop
  | waiting {output : List Bytes} {s' : DecryptState} {chunks' : List Bytes}
      (hbuffered : Buffered s'.bufferChunks s'.bufferLen chunks') (hparsed : s'.headerParsed = s.headerParsed)
      (hfinalized : s'.finalized = s.finalized) (hsize : s'.chunkSize = s.chunkSize)
      (hframes : ∀ {rest fs out}, Frames aead s.chunkSize s'.chunkIndex fs out → fs.flatten = chunks'.flatten ++ rest →
        ∃ fs', Frames aead s.chunkSize s.chunkIndex fs' (output.flatten ++ out) ∧
          fs'.flatten = chunks.flatten ++ rest) :
      Taken aead s chunks (output, s')
  | ended {output : List Bytes} {s' : DecryptState} (hfinalized : s'.finalized = true)
      (hframes : ∃ fs, Frames aead s.chunkSize s.chunkIndex fs output.flatten ∧ fs.flatten = chunks.flatten) :
      Taken aead s chunks (output, s')

theorem decryptFrames_taken {fuel : ℕ} {s : DecryptState} {chunks : List Bytes}
    (h : Buffered s.bufferChunks s.bufferLen chunks) {result : List Bytes × DecryptState}
    (hrun : decryptFrames aead fuel s = .ok result) : Taken aead s chunks result := by
  induction fuel generalizing s chunks result with
  | zero =>
    rw [← Except.ok.inj hrun]
    exact .waiting h rfl rfl rfl fun hframes hbytes => ⟨_, hframes, hbytes⟩
  | succ fuel ih =>
    rcases decryptFrames_cases h hrun with rfl |
      ⟨len, iv, ciphertext, plaintext, bufferChunks, hmax, hiv, hciphertext, hbytes, hdecrypt, hbuffered, hafter⟩
    · exact .waiting h rfl rfl rfl fun hframes hbytes => ⟨_, hframes, hbytes⟩
    rw [afterFrame] at hafter
    dsimp only at hafter
    split at hafter
    · next hlast =>
      obtain ⟨_, hnone, hafter⟩ := (bind_ok ..).mp hafter
      rw [throwIf_ok, hbuffered.len, Nat.pos_iff_ne_zero, not_not] at hnone
      obtain rfl := Except.ok.inj hafter
      refine .ended rfl ⟨[bytesBE 4 len ++ (iv ++ ciphertext)], ?_, ?_⟩
      · rw [flatten_output]
        exact .final hiv hciphertext hlast hdecrypt
      · rw [hbytes, List.length_eq_zero_iff.mp hnone, List.append_nil, List.flatten_singleton]
    · next hfull =>
      obtain rfl : len = s.chunkSize := le_antisymm hmax (not_lt.mp hfull)
      obtain ⟨⟨rest, s'⟩, hmore, hafter⟩ := (bind_ok ..).mp hafter
      obtain rfl := Except.ok.inj hafter
      dsimp only
      have hextend : ∀ {fs out}, Frames aead s.chunkSize (s.chunkIndex + 1) fs out →
          Frames aead s.chunkSize s.chunkIndex ((bytesBE 4 s.chunkSize ++ (iv ++ ciphertext)) :: fs)
            ((if 0 < plaintext.length then [plaintext] else []).flatten ++ out) := by
        intro fs out hframes
        rw [flatten_output]
        exact .full hiv hciphertext hdecrypt hframes
      have htaken := ih hbuffered hmore
      cases htaken with
      | waiting hbuffered' hparsed hfinalized hsize hframes =>
        refine .waiting hbuffered' hparsed hfinalized hsize fun hfs hflat => ?_
        obtain ⟨fs', hfs', hflat'⟩ := hframes hfs hflat
        refine ⟨(bytesBE 4 s.chunkSize ++ (iv ++ ciphertext)) :: fs', ?_, ?_⟩
        · rw [List.flatten_append, List.append_assoc]
          exact hextend hfs'
        · rw [List.flatten_cons, hflat', ← List.append_assoc, ← hbytes]
      | ended hfinalized hframes =>
        obtain ⟨fs, hfs, hflat⟩ := hframes
        refine .ended hfinalized ⟨(bytesBE 4 s.chunkSize ++ (iv ++ ciphertext)) :: fs, ?_, ?_⟩
        · rw [List.flatten_append]
          exact hextend hfs
        · rw [List.flatten_cons, hflat, ← hbytes]

theorem decryptRest_finalized {more : List Uint8Array} {s : DecryptState} (hs : s.finalized = true)
    {output : List Bytes} (hrun : decryptRest aead more s = .ok output) : more = [] ∧ output = [] := by
  cases more with
  | nil =>
    obtain ⟨_, _, hnone⟩ := (bind_ok ..).mp hrun
    exact ⟨rfl, (Except.ok.inj hnone).symm⟩
  | cons chunk more =>
    rw [decryptRest, decryptTransform, throwIf, if_pos hs] at hrun
    cases hrun

theorem decryptRest_cons_ok {chunk : Uint8Array} {more : List Uint8Array} {s : DecryptState} {output : List Bytes}
    (hrun : decryptRest aead (chunk :: more) s = .ok output) : ∃ first s' others,
      decryptTransform aead s chunk = .ok (first, s') ∧ decryptRest aead more s' = .ok others ∧
        first ++ others = output := by
  rw [decryptRest] at hrun
  obtain ⟨⟨first, s'⟩, htransform, hrun⟩ := (bind_ok ..).mp hrun
  obtain ⟨others, hrest, hrun⟩ := (bind_ok ..).mp hrun
  exact ⟨first, s', others, htransform, hrest, Except.ok.inj hrun⟩

theorem Taken.frames {s s' : DecryptState} {chunks first : List Bytes} (h : Taken aead s chunks (first, s'))
    {more : List Uint8Array} {others : List Bytes} (hrest : decryptRest aead more s' = .ok others)
    (hmore : ∀ {chunks'}, Buffered s'.bufferChunks s'.bufferLen chunks' → s'.headerParsed = s.headerParsed →
      s'.finalized = s.finalized → ∃ fs, Frames aead s'.chunkSize s'.chunkIndex fs others.flatten ∧
        fs.flatten = chunks'.flatten ++ (contentsOf more).flatten) :
    ∃ fs, Frames aead s.chunkSize s.chunkIndex fs (first ++ others).flatten ∧
      fs.flatten = chunks.flatten ++ (contentsOf more).flatten := by
  rw [List.flatten_append]
  cases h with
  | waiting hbuffered hparsed hfinalized hsize hframes =>
    obtain ⟨fs, hfs, hflat⟩ := hmore hbuffered hparsed hfinalized
    rw [hsize] at hfs
    exact hframes hfs hflat
  | ended hfinalized hframes =>
    obtain ⟨rfl, rfl⟩ := decryptRest_finalized hfinalized hrest
    obtain ⟨fs, hfs, hflat⟩ := hframes
    refine ⟨fs, ?_, ?_⟩
    · rwa [List.flatten_nil, List.append_nil]
    · rw [hflat, contentsOf, List.map_nil, List.flatten_nil, List.append_nil]

theorem decryptRest_frames {more : List Uint8Array} (hends : ∀ a ∈ more, EndsBuffer a) {s : DecryptState}
    {chunks : List Bytes} (h : Buffered s.bufferChunks s.bufferLen chunks) (hparsed : s.headerParsed = true)
    (hfinalized : s.finalized = false) {output : List Bytes} (hrun : decryptRest aead more s = .ok output) :
    ∃ fs, Frames aead s.chunkSize s.chunkIndex fs output.flatten ∧
      fs.flatten = chunks.flatten ++ (contentsOf more).flatten := by
  induction more generalizing s chunks output with
  | nil =>
    obtain ⟨_, hflush, _⟩ := (bind_ok ..).mp hrun
    simp only [decryptFlush, bind_ok, throwIf_ok] at hflush
    obtain ⟨_, _, _, hopen, _⟩ := hflush
    exact absurd hfinalized hopen
  | cons chunk more ih =>
    obtain ⟨first, s', others, htransform, hrest, rfl⟩ := decryptRest_cons_ok hrun
    rw [decryptTransform] at htransform
    obtain ⟨_, _, htransform⟩ := (bind_ok ..).mp htransform
    dsimp only at htransform
    rw [if_pos hparsed] at htransform
    have hends' : ∀ a ∈ more, EndsBuffer a := fun a ha => hends a (List.mem_cons_of_mem _ ha)
    have htaken := decryptFrames_taken (h.push (hends chunk List.mem_cons_self)) htransform
    rw [← flatten_push]
    exact htaken.frames hrest fun hbuffered hparsed' hfinalized' =>
      ih hends' hbuffered (hparsed'.trans hparsed) (hfinalized'.trans hfinalized) hrest

theorem decryptRest_header_frames {more : List Uint8Array} (hends : ∀ a ∈ more, EndsBuffer a) {s : DecryptState}
    {chunks : List Bytes} (h : Buffered s.bufferChunks s.bufferLen chunks) (hparsed : s.headerParsed = false)
    (hfinalized : s.finalized = false) (hindex : s.chunkIndex = 0) {output : List Bytes}
    (hrun : decryptRest aead more s = .ok output) :
    ∃ header size fs, parseHeader header = .ok size ∧ header.length = STREAMING_HEADER_SIZE ∧
      Frames aead size 0 fs output.flatten ∧
      header ++ fs.flatten = chunks.flatten ++ (contentsOf more).flatten := by
  induction more generalizing s chunks output with
  | nil =>
    obtain ⟨_, hflush, _⟩ := (bind_ok ..).mp hrun
    simp only [decryptFlush, bind_ok, throwIf_ok] at hflush
    obtain ⟨_, hheader, _⟩ := hflush
    exact absurd hparsed hheader
  | cons chunk more ih =>
    have hends' : ∀ a ∈ more, EndsBuffer a := fun a ha => hends a (List.mem_cons_of_mem _ ha)
    obtain ⟨first, s', others, htransform, hrest, rfl⟩ := decryptRest_cons_ok hrun
    rw [decryptTransform] at htransform
    obtain ⟨_, _, htransform⟩ := (bind_ok ..).mp htransform
    dsimp only at htransform
    rw [if_neg (by rw [hparsed]; decide)] at htransform
    have hpushed := h.push (hends chunk List.mem_cons_self)
    rw [← flatten_push]
    split at htransform
    · obtain ⟨rfl, rfl⟩ := Prod.mk.inj (Except.ok.inj htransform)
      exact ih hends' (by exact hpushed) (by exact hparsed) (by exact hfinalized) (by exact hindex) hrest
    next hready =>
    rw [hpushed.len, not_lt] at hready
    obtain ⟨bufferChunks, htake, hbuffered⟩ := take_ok { s with
      bufferChunks := s.bufferChunks ++ [chunk], bufferLen := s.bufferLen + chunk.byteLength } hpushed hready
    rw [htake, ok_bind] at htransform
    dsimp only at htransform
    obtain ⟨size, hsize, htransform⟩ := (bind_ok ..).mp htransform
    obtain ⟨fs, hfs, hflat⟩ := (decryptFrames_taken hbuffered htransform).frames hrest
      fun hbuffered' hparsed' hfinalized' =>
        decryptRest_frames hends' hbuffered' hparsed' (hfinalized'.trans hfinalized) hrest
    refine ⟨(chunks ++ [chunk.contents]).flatten.take STREAMING_HEADER_SIZE, size, fs, hsize,
      List.length_take_of_le hready, hindex ▸ hfs, ?_⟩
    rw [hflat, ← List.append_assoc, drained_flatten, List.take_append_drop]

theorem decryptStream_frames {chunks : List Bytes} {output : List Bytes}
    (hrun : decryptStream aead (chunks.map Uint8Array.ofBytes) = .ok output) :
    ∃ header size fs, parseHeader header = .ok size ∧ header.length = STREAMING_HEADER_SIZE ∧
      Frames aead size 0 fs output.flatten ∧ header ++ fs.flatten = chunks.flatten := by
  have hempty : Buffered [] 0 [] := ⟨rfl, fun a ha => absurd ha List.not_mem_nil, rfl⟩
  have hframes := decryptRest_header_frames (fun _ => endsBuffer_of_mem) hempty rfl rfl rfl hrun
  rwa [contentsOf_ofBytes, List.flatten_nil, List.nil_append] at hframes

end ChainGuard.OffChain.StreamingCrypto
