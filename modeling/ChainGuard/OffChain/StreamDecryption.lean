import ChainGuard.OffChain.StreamingCrypto

/-! The decryption of a stream of frames, in whatever chunks it comes: it succeeds exactly when the length of every
frame is in one chunk when it is read, and nothing follows the last frame. -/
namespace ChainGuard.OffChain.StreamingCrypto
open Guarded ChunkQueue
set_option autoImplicit false

/-! ## Frames -/

/-- Frames from an index on, each of which decrypts, and the text of all of them: the last one is shorter than the
others. -/
inductive Frames (aead : AesGcm) (chunkSize : ℕ) : ℕ → List Bytes → Bytes → Prop
  | final {i len : ℕ} {iv ciphertext plaintext : Bytes} (hiv : iv.length = STREAMING_IV_LENGTH)
      (hciphertext : ciphertext.length = len + STREAMING_TAG_LENGTH) (hlen : len < chunkSize)
      (hdecrypt : aead.decrypt iv (chunkIndexAad i) ciphertext = some plaintext) :
      Frames aead chunkSize i [bytesBE 4 len ++ (iv ++ ciphertext)] plaintext
  | full {i : ℕ} {iv ciphertext plaintext out : Bytes} {fs : List Bytes} (hiv : iv.length = STREAMING_IV_LENGTH)
      (hciphertext : ciphertext.length = chunkSize + STREAMING_TAG_LENGTH)
      (hdecrypt : aead.decrypt iv (chunkIndexAad i) ciphertext = some plaintext) (hrest : Frames aead chunkSize (i + 1) fs out) :
      Frames aead chunkSize i ((bytesBE 4 chunkSize ++ (iv ++ ciphertext)) :: fs) (plaintext ++ out)

/-- Each frame's length is in one chunk when the frames before it have been taken, and no chunk is left over. -/
def Intact : List Bytes → List Bytes → Prop
  | [], chunks => chunks = []
  | f :: fs, chunks => 4 ≤ (chunks.headD []).length ∧ Intact fs (drained f.length chunks)

variable {aead : AesGcm} {chunkSize : ℕ}

theorem frame_length {len : ℕ} {iv ciphertext : Bytes} (hiv : iv.length = STREAMING_IV_LENGTH)
    (hciphertext : ciphertext.length = len + STREAMING_TAG_LENGTH) :
    (bytesBE 4 len ++ (iv ++ ciphertext)).length = frameBodyLen len := by
  rw [List.length_append, List.length_append, bytesBE_length, hiv, hciphertext, frameBodyLen]
  omega

theorem four_le_frameBodyLen (len : ℕ) : 4 ≤ frameBodyLen len := by
  unfold frameBodyLen
  omega

/-! ## One round -/

structure Buffered (bufferChunks : List Uint8Array) (bufferLen : ℕ) (chunks : List Bytes) : Prop where
  contents : contentsOf bufferChunks = chunks
  ends : ∀ a ∈ bufferChunks, EndsBuffer a
  len : bufferLen = chunks.flatten.length

theorem Buffered.push {bufferChunks : List Uint8Array} {bufferLen : ℕ} {chunks : List Bytes}
    (h : Buffered bufferChunks bufferLen chunks) {chunk : Uint8Array} (hchunk : EndsBuffer chunk) :
    Buffered (bufferChunks ++ [chunk]) (bufferLen + chunk.byteLength) (chunks ++ [chunk.contents]) where
  contents := by rw [contentsOf, List.map_append, ← contentsOf, h.contents, List.map_singleton]
  ends := fun a ha => (List.mem_append.mp ha).elim (h.ends a) fun ha => List.mem_singleton.mp ha ▸ hchunk
  len := by rw [List.flatten_append, List.length_append, List.flatten_singleton, chunk.contents_length, h.len]

theorem take_ok (s : DecryptState) {chunks : List Bytes} (h : Buffered s.bufferChunks s.bufferLen chunks) {n : ℕ}
    (hn : n ≤ chunks.flatten.length) : ∃ bufferChunks,
      s.take n = .ok (chunks.flatten.take n, { s with bufferChunks, bufferLen := s.bufferLen - n }) ∧
      Buffered bufferChunks (s.bufferLen - n) (drained n chunks) := by
  obtain ⟨chunks', hdrain, hcontents, hends⟩ := drainChunks_ok
    (show n ≤ (contentsOf s.bufferChunks).flatten.length by rwa [h.contents])
  rw [h.contents] at hdrain hcontents
  refine ⟨chunks', ?_, hcontents, hends h.ends, ?_⟩
  · rw [DecryptState.take, hdrain]
    rfl
  · rw [drained_flatten, List.length_drop, h.len]

theorem plaintextLen_eq (s : DecryptState) {chunks : List Bytes} (h : Buffered s.bufferChunks s.bufferLen chunks)
    (hfour : 4 ≤ chunks.flatten.length) {len : ℕ} (hlen : len < 256 ^ 4) {rest tail : Bytes}
    (hbytes : chunks.flatten ++ rest = bytesBE 4 len ++ tail) :
    s.plaintextLen = if 4 ≤ (chunks.headD []).length then .ok len else .error .rangeError := by
  have hcontents := h.contents
  cases hs : s.bufferChunks with
  | nil =>
    rw [hs] at hcontents
    rw [← hcontents] at hfour
    exact absurd hfour (by decide)
  | cons head more =>
    rw [hs] at hcontents
    obtain rfl := hcontents.symm
    have hends := h.ends head (hs ▸ List.mem_cons_self)
    have hlength := head.contents_length
    unfold EndsBuffer at hends
    have hiff : head.byteOffset + 0 + 4 ≤ head.buffer.length ↔ 4 ≤ head.contents.length := by omega
    rw [DecryptState.plaintextLen, hs]
    dsimp only
    rw [readUint32BE]
    show (if _ then _ else _) = if 4 ≤ head.contents.length then _ else _
    by_cases hhead : 4 ≤ head.contents.length
    · have hall : (head.buffer.drop head.byteOffset).take head.byteLength = head.buffer.drop head.byteOffset :=
        List.take_of_length_le (by rw [List.length_drop]; omega)
      have hfield : (bytesBE 4 len).take 4 = bytesBE 4 len := List.take_of_length_le (bytesBE_length 4 len).le
      have hread : head.contents.take 4 = bytesBE 4 len := by
        have hbegins := congrArg (List.take 4) hbytes
        rw [contentsOf, List.map_cons, List.flatten_cons, List.append_assoc, List.take_append_of_le_length hhead,
          List.take_append_of_le_length (by rw [bytesBE_length]), hfield] at hbegins
        exact hbegins
      rw [Uint8Array.contents, hall] at hread
      rw [if_pos (hiff.mpr hhead), if_pos hhead, Nat.add_zero, hread, natBE_bytesBE, Nat.mod_eq_of_lt hlen]
    · rw [if_neg (mt hiff.mp hhead), if_neg hhead]

def afterFrame (aead : AesGcm) (fuel plaintextLen : ℕ) (plaintext : Bytes) (s : DecryptState) :
    Result (List Bytes × DecryptState) :=
  let s := { s with chunkIndex := s.chunkIndex + 1 }
  let output := if 0 < plaintext.length then [plaintext] else []
  if plaintextLen < s.chunkSize then do
    throwIf (0 < s.bufferLen) (js "Trailing bytes after final streaming crypto frame")
    return (output, { s with finalized := true })
  else do
    let (rest, s) ← decryptFrames aead fuel s
    return (output ++ rest, s)

theorem decryptFrames_waits (s : DecryptState) (fuel : ℕ) {chunks : List Bytes}
    (h : Buffered s.bufferChunks s.bufferLen chunks) {len : ℕ} (hlen : len < 256 ^ 4) (hmax : len ≤ s.chunkSize)
    {rest tail : Bytes} (hbytes : chunks.flatten ++ rest = bytesBE 4 len ++ tail)
    (hshort : chunks.flatten.length < frameBodyLen len)
    (hhead : 4 ≤ chunks.flatten.length → 4 ≤ (chunks.headD []).length) :
    decryptFrames aead (fuel + 1) s = .ok ([], s) := by
  rcases Nat.lt_or_ge chunks.flatten.length 4 with hlt | hge
  · exact if_pos (h.len ▸ hlt)
  · rw [decryptFrames, if_neg (by rw [h.len]; omega), plaintextLen_eq s h hge hlen hbytes, if_pos (hhead hge), ok_bind,
      throwIf, if_neg (not_lt.mpr hmax), ok_bind, if_pos (h.len ▸ hshort)]
    rfl

theorem decryptFrames_throws (s : DecryptState) (fuel : ℕ) {chunks : List Bytes}
    (h : Buffered s.bufferChunks s.bufferLen chunks) {len : ℕ} (hlen : len < 256 ^ 4) {rest tail : Bytes}
    (hbytes : chunks.flatten ++ rest = bytesBE 4 len ++ tail) (hfour : 4 ≤ chunks.flatten.length)
    (hhead : ¬ 4 ≤ (chunks.headD []).length) : decryptFrames aead (fuel + 1) s = .error .rangeError := by
  rw [decryptFrames, if_neg (by rw [h.len]; omega), plaintextLen_eq s h hfour hlen hbytes, if_neg hhead]
  rfl

theorem decryptFrames_takes (s : DecryptState) (fuel : ℕ) {chunks : List Bytes}
    (h : Buffered s.bufferChunks s.bufferLen chunks) {len : ℕ} (hlen : len < 256 ^ 4) (hmax : len ≤ s.chunkSize)
    {iv ciphertext plaintext rest tail : Bytes} (hiv : iv.length = STREAMING_IV_LENGTH)
    (hciphertext : ciphertext.length = len + STREAMING_TAG_LENGTH)
    (hbytes : chunks.flatten ++ rest = (bytesBE 4 len ++ (iv ++ ciphertext)) ++ tail)
    (hfull : frameBodyLen len ≤ chunks.flatten.length) (hhead : 4 ≤ (chunks.headD []).length)
    (hdecrypt : aead.decrypt iv (chunkIndexAad s.chunkIndex) ciphertext = some plaintext) :
    ∃ bufferChunks, Buffered bufferChunks (s.bufferLen - frameBodyLen len) (drained (frameBodyLen len) chunks) ∧
      decryptFrames aead (fuel + 1) s =
        afterFrame aead fuel len plaintext { s with bufferChunks, bufferLen := s.bufferLen - frameBodyLen len } := by
  have hframe := frame_length hiv hciphertext
  have hfour := four_le_frameBodyLen len
  have htake : chunks.flatten.take (frameBodyLen len) = bytesBE 4 len ++ (iv ++ ciphertext) := by
    have hbegins := congrArg (List.take (frameBodyLen len)) hbytes
    rwa [List.take_append_of_le_length hfull, List.take_append_of_le_length hframe.ge, List.take_of_length_le hframe.le]
      at hbegins
  obtain ⟨bufferChunks, hrun, hbuffered⟩ := take_ok s h hfull
  refine ⟨bufferChunks, hbuffered, ?_⟩
  have hdropField : (bytesBE 4 len ++ (iv ++ ciphertext)).drop 4 = iv ++ ciphertext :=
    List.drop_left' (bytesBE_length 4 len)
  have hdrop : (bytesBE 4 len ++ (iv ++ ciphertext)).drop (4 + STREAMING_IV_LENGTH) = ciphertext := by
    rw [← List.drop_drop, hdropField, List.drop_left' hiv]
  rw [List.append_assoc] at hbytes
  rw [decryptFrames, if_neg (by rw [h.len]; omega), plaintextLen_eq s h (by omega) hlen hbytes, if_pos hhead, ok_bind,
    throwIf, if_neg (not_lt.mpr hmax), ok_bind, if_neg (by rw [h.len]; omega), hrun, ok_bind]
  dsimp only
  rw [htake, hdropField, hdrop, List.take_left' hiv, hdecrypt]
  rfl

/-! ## The loop -/

/-- After the header, and before the last frame. -/
abbrev reading (bufferChunks : List Uint8Array) (bufferLen chunkSize i : ℕ) : DecryptState :=
  ⟨bufferChunks, bufferLen, true, chunkSize, i, false⟩

/-- How far the loop gets on the chunks that are there, with the bytes of `rest` to come: it throws, waits for the
frames that are left, or ends. -/
inductive Progress (aead : AesGcm) (chunkSize : ℕ) (fs : List Bytes) (out : Bytes) (chunks : List Bytes) (rest : Bytes) :
    Result (List Bytes × DecryptState) → Prop
  | thrown {e : Thrown} (hbroken : ∀ ds : List Bytes, ¬ Intact fs (chunks ++ ds)) :
      Progress aead chunkSize fs out chunks rest (.error e)
  | waiting {output fs' chunks' : List Bytes} {bufferChunks : List Uint8Array} {bufferLen i : ℕ} {out' : Bytes}
      (hbuffered : Buffered bufferChunks bufferLen chunks') (hframes : Frames aead chunkSize i fs' out')
      (hbytes : chunks'.flatten ++ rest = fs'.flatten) (hshort : chunks'.flatten.length < (fs'.headD []).length)
      (hout : output.flatten ++ out' = out) (hintact : ∀ ds, Intact fs (chunks ++ ds) ↔ Intact fs' (chunks' ++ ds)) :
      Progress aead chunkSize fs out chunks rest (.ok (output, reading bufferChunks bufferLen chunkSize i))
  | ended {output : List Bytes} {bufferChunks : List Uint8Array} {i : ℕ} (hrest : rest = []) (hout : output.flatten = out)
      (hintact : drained chunks.flatten.length chunks = [] → ∀ ds, Intact fs (chunks ++ ds) ↔ ds = []) :
      Progress aead chunkSize fs out chunks rest (.ok (output, ⟨bufferChunks, 0, true, chunkSize, i, true⟩))

theorem flatten_output (plaintext : Bytes) : (if 0 < plaintext.length then [plaintext] else []).flatten = plaintext := by
  split
  · exact List.flatten_singleton
  · next h => rw [List.length_eq_zero_iff.mp (Nat.eq_zero_of_not_pos h), List.flatten_nil]

theorem headD_append {chunks : List Bytes} (h : 0 < chunks.flatten.length) (ds : List Bytes) :
    (chunks ++ ds).headD [] = chunks.headD [] := by
  cases chunks with
  | nil => exact absurd h (by decide)
  | cons c chunks => rfl

theorem decryptFrames_short {i len : ℕ} {iv ciphertext out rest : Bytes} {fs : List Bytes}
    (hframes : Frames aead chunkSize i ((bytesBE 4 len ++ (iv ++ ciphertext)) :: fs) out)
    (hiv : iv.length = STREAMING_IV_LENGTH) (hciphertext : ciphertext.length = len + STREAMING_TAG_LENGTH)
    (hle : len ≤ chunkSize) (hmax : chunkSize < 256 ^ 4) (fuel : ℕ) {bufferChunks : List Uint8Array} {bufferLen : ℕ}
    {chunks : List Bytes} (h : Buffered bufferChunks bufferLen chunks)
    (hbytes : chunks.flatten ++ rest = ((bytesBE 4 len ++ (iv ++ ciphertext)) :: fs).flatten)
    (hready : ¬ (frameBodyLen len ≤ chunks.flatten.length ∧ 4 ≤ (chunks.headD []).length)) :
    Progress aead chunkSize ((bytesBE 4 len ++ (iv ++ ciphertext)) :: fs) out chunks rest
      (decryptFrames aead (fuel + 1) (reading bufferChunks bufferLen chunkSize i)) := by
  have hframe := frame_length hiv hciphertext
  have hlen : len < 256 ^ 4 := hle.trans_lt hmax
  have hfour := four_le_frameBodyLen len
  have hfields : chunks.flatten ++ rest = bytesBE 4 len ++ (iv ++ ciphertext ++ fs.flatten) := by
    rw [hbytes, List.flatten_cons, List.append_assoc]
  by_cases hbroken : 4 ≤ chunks.flatten.length ∧ ¬ 4 ≤ (chunks.headD []).length
  · rw [decryptFrames_throws (reading bufferChunks bufferLen chunkSize i) fuel h hlen hfields hbroken.1 hbroken.2]
    refine .thrown fun ds hintact => hbroken.2 ?_
    rw [← headD_append (Nat.zero_lt_of_lt hbroken.1) ds]
    exact hintact.1
  · have hhead : 4 ≤ chunks.flatten.length → 4 ≤ (chunks.headD []).length := fun h4 =>
      by_contra fun hlt => hbroken ⟨h4, hlt⟩
    have hshort : chunks.flatten.length < frameBodyLen len := by
      by_contra! hfull
      exact hready ⟨hfull, hhead (hfour.trans hfull)⟩
    rw [decryptFrames_waits (reading bufferChunks bufferLen chunkSize i) fuel h hlen hle hfields hshort hhead]
    exact .waiting h hframes hbytes (by rwa [List.headD_cons, hframe]) rfl fun _ => Iff.rfl

theorem intact_drained {len : ℕ} {iv ciphertext : Bytes} (hiv : iv.length = STREAMING_IV_LENGTH)
    (hciphertext : ciphertext.length = len + STREAMING_TAG_LENGTH) {chunks : List Bytes}
    (hready : frameBodyLen len ≤ chunks.flatten.length ∧ 4 ≤ (chunks.headD []).length) (fs ds : List Bytes) :
    Intact ((bytesBE 4 len ++ (iv ++ ciphertext)) :: fs) (chunks ++ ds) ↔
      Intact fs (drained (frameBodyLen len) chunks ++ ds) := by
  have hpos : 0 < chunks.flatten.length := (Nat.zero_lt_of_lt (four_le_frameBodyLen len)).trans_le hready.1
  rw [Intact, headD_append hpos, frame_length hiv hciphertext, drained_append hready.1]
  exact and_iff_right hready.2

theorem decryptFrames_progress {i : ℕ} {fs : List Bytes} {out : Bytes} (hframes : Frames aead chunkSize i fs out)
    (hmax : chunkSize < 256 ^ 4) {fuel : ℕ} {bufferChunks : List Uint8Array} {bufferLen : ℕ} {chunks : List Bytes}
    {rest : Bytes} (h : Buffered bufferChunks bufferLen chunks) (hbytes : chunks.flatten ++ rest = fs.flatten)
    (hfuel : chunks.flatten.length < fuel) :
    Progress aead chunkSize fs out chunks rest
      (decryptFrames aead fuel (reading bufferChunks bufferLen chunkSize i)) := by
  induction hframes generalizing fuel bufferChunks bufferLen chunks with
  | @final i len iv ciphertext plaintext hiv hciphertext hlen hdecrypt =>
    obtain ⟨fuel, rfl⟩ := Nat.exists_eq_succ_of_ne_zero (Nat.ne_of_gt (Nat.zero_lt_of_lt hfuel))
    by_cases hready : frameBodyLen len ≤ chunks.flatten.length ∧ 4 ≤ (chunks.headD []).length
    · have hlength := congrArg List.length hbytes
      rw [List.flatten_singleton, frame_length hiv hciphertext, List.length_append] at hlength
      have hrest : rest = [] := List.length_eq_zero_iff.mp (by omega)
      obtain ⟨bufferChunks', _, hrun⟩ := decryptFrames_takes (reading bufferChunks bufferLen chunkSize i) fuel h
        (hlen.trans hmax) hlen.le hiv hciphertext (hbytes.trans List.flatten_cons) hready.1 hready.2 hdecrypt
      have hnone : bufferLen - frameBodyLen len = 0 := by rw [h.len]; omega
      rw [hrun, afterFrame]
      dsimp only
      rw [if_pos hlen, hnone]
      refine .ended hrest (flatten_output _) fun hall ds => ?_
      have hdrained : drained (frameBodyLen len) chunks = [] := by
        have hsame : frameBodyLen len = chunks.flatten.length := by omega
        rw [hsame, hall]
      rw [intact_drained hiv hciphertext hready, hdrained, List.nil_append]
      exact Iff.rfl
    · exact decryptFrames_short (.final hiv hciphertext hlen hdecrypt) hiv hciphertext hlen.le hmax fuel h hbytes hready
  | @full i iv ciphertext plaintext out fs hiv hciphertext hdecrypt hrest ih =>
    obtain ⟨fuel, rfl⟩ := Nat.exists_eq_succ_of_ne_zero (Nat.ne_of_gt (Nat.zero_lt_of_lt hfuel))
    by_cases hready : frameBodyLen chunkSize ≤ chunks.flatten.length ∧ 4 ≤ (chunks.headD []).length
    · obtain ⟨bufferChunks', hbuffered, hrun⟩ := decryptFrames_takes (reading bufferChunks bufferLen chunkSize i) fuel h
        hmax le_rfl hiv hciphertext (hbytes.trans List.flatten_cons) hready.1 hready.2 hdecrypt
      -- what is left are the other frames
      have hbytes' : (drained (frameBodyLen chunkSize) chunks).flatten ++ rest = fs.flatten := by
        have hdrop := congrArg (List.drop (frameBodyLen chunkSize)) hbytes
        rwa [List.drop_append_of_le_length hready.1, List.flatten_cons, List.drop_left' (frame_length hiv hciphertext),
          ← drained_flatten] at hdrop
      have hfuel' : (drained (frameBodyLen chunkSize) chunks).flatten.length < fuel := by
        have hpos := four_le_frameBodyLen chunkSize
        rw [drained_flatten, List.length_drop]
        omega
      have hintact := intact_drained hiv hciphertext hready fs
      have hprogress := ih hbuffered hbytes' hfuel'
      rw [hrun, afterFrame]
      dsimp only
      rw [if_neg (lt_irrefl _)]
      generalize decryptFrames aead fuel _ = result at hprogress ⊢
      cases hprogress with
      | thrown hbroken => exact .thrown fun ds => mt (hintact ds).mp (hbroken ds)
      | waiting hbuffered' hframes' hbytes'' hshort hout hintact' =>
        refine .waiting hbuffered' hframes' hbytes'' hshort ?_ fun ds => (hintact ds).trans (hintact' ds)
        rw [List.flatten_append, flatten_output, List.append_assoc, hout]
      | ended hrest' hout hintact' =>
        refine .ended hrest' ?_ fun hall ds => (hintact ds).trans (hintact' ?_ ds)
        · rw [List.flatten_append, flatten_output, hout]
        · rw [drained_flatten, List.length_drop, drained_drained, Nat.add_sub_cancel' hready.1, hall]
    · exact decryptFrames_short (.full hiv hciphertext hdecrypt hrest) hiv hciphertext le_rfl hmax fuel h hbytes hready

/-! ## The whole stream -/

/-- The text is put out if the chunks leave the frames intact, and an error is thrown otherwise. -/
def Verdict (fs : List Bytes) (out : Bytes) (chunks : List Bytes) (result : Result (List Bytes)) : Prop :=
  (Intact fs chunks ∧ ∃ output, result = .ok output ∧ output.flatten = out) ∨
    (¬ Intact fs chunks ∧ ∃ e, result = .error e)

theorem Verdict.ok_iff {fs : List Bytes} {out : Bytes} {chunks : List Bytes} {result : Result (List Bytes)}
    (h : Verdict fs out chunks result) : (∃ output, result = .ok output ∧ output.flatten = out) ↔ Intact fs chunks := by
  rcases h with ⟨hintact, hok⟩ | ⟨hbroken, e, rfl⟩
  · exact iff_of_true hok hintact
  · exact iff_of_false (fun ⟨_, hok, _⟩ => by cases hok) hbroken

theorem Progress.verdict {fs : List Bytes} {out : Bytes} {chunks : List Bytes} {rest : Bytes}
    {result : Result (List Bytes × DecryptState)} (h : Progress aead chunkSize fs out chunks rest result)
    {more : List Uint8Array} (hrest : (contentsOf more).flatten = rest)
    (hlast : rest = [] → drained chunks.flatten.length chunks = [])
    (hmore : ∀ {bufferChunks bufferLen i fs' out' chunks'}, Buffered bufferChunks bufferLen chunks' →
      Frames aead chunkSize i fs' out' → chunks'.flatten ++ rest = fs'.flatten →
      chunks'.flatten.length < (fs'.headD []).length →
      Verdict fs' out' (chunks' ++ contentsOf more) (decryptRest aead more (reading bufferChunks bufferLen chunkSize i))) :
    Verdict fs out (chunks ++ contentsOf more)
      (result >>= fun (output, s) => do return output ++ (← decryptRest aead more s)) := by
  cases h with
  | thrown hbroken => exact Or.inr ⟨hbroken _, _, rfl⟩
  | @waiting output _ _ _ _ _ _ hbuffered hframes hbytes hshort hout hintact =>
    rcases hmore hbuffered hframes hbytes hshort with ⟨hintact', output', hrun, hout'⟩ | ⟨hbroken, e, hrun⟩
    · refine Or.inl ⟨(hintact _).mpr hintact', output ++ output', ?_, ?_⟩
      · rw [ok_bind]
        dsimp only
        rw [hrun]
        rfl
      · rw [List.flatten_append, hout', hout]
    · refine Or.inr ⟨mt (hintact _).mp hbroken, e, ?_⟩
      rw [ok_bind]
      dsimp only
      rw [hrun]
      rfl
  | @ended output bufferChunks i hnil hout hintact =>
    cases more with
    | nil =>
      refine Or.inl ⟨(hintact (hlast hnil) _).mpr rfl, output, ?_, hout⟩
      rw [ok_bind]
      exact congrArg Except.ok (List.append_nil output)
    | cons chunk more => exact Or.inr ⟨mt (hintact (hlast hnil) _).mp (List.cons_ne_nil _ _), _, rfl⟩

theorem contentsOf_push (chunks : List Bytes) (chunk : Uint8Array) (more : List Uint8Array) :
    chunks ++ contentsOf (chunk :: more) = chunks ++ [chunk.contents] ++ contentsOf more := by
  rw [List.append_assoc, List.singleton_append]
  rfl

theorem flatten_push (chunks : List Bytes) (chunk : Uint8Array) (more : List Uint8Array) :
    (chunks ++ [chunk.contents]).flatten ++ (contentsOf more).flatten =
      chunks.flatten ++ (contentsOf (chunk :: more)).flatten := by
  rw [← List.flatten_append, ← List.flatten_append, contentsOf_push]

theorem drained_pushed {chunks : List Bytes} {chunk : Bytes} (h : chunk ≠ []) :
    drained (chunks ++ [chunk]).flatten.length (chunks ++ [chunk]) = [] := by
  rw [drained_all_iff, List.getLast?_concat]
  exact fun heq => h (Option.some.inj heq)

theorem headD_length_le (fs : List Bytes) : (fs.headD []).length ≤ fs.flatten.length := by
  cases fs with
  | nil => exact le_rfl
  | cons f fs => rw [List.headD_cons, List.flatten_cons, List.length_append]; exact Nat.le_add_right _ _

theorem decryptRest_verdict (hmax : chunkSize < 256 ^ 4) {more : List Uint8Array} (hends : ∀ a ∈ more, EndsBuffer a)
    {i : ℕ} {fs : List Bytes} {out : Bytes} (hframes : Frames aead chunkSize i fs out) {bufferChunks : List Uint8Array}
    {bufferLen : ℕ} {chunks : List Bytes} (h : Buffered bufferChunks bufferLen chunks)
    (hbytes : chunks.flatten ++ (contentsOf more).flatten = fs.flatten)
    (hshort : chunks.flatten.length < (fs.headD []).length) :
    Verdict fs out (chunks ++ contentsOf more) (decryptRest aead more (reading bufferChunks bufferLen chunkSize i)) := by
  have hfirst := headD_length_le fs
  induction more generalizing i fs out bufferChunks bufferLen chunks with
  | nil =>
    have hlength := congrArg List.length hbytes
    rw [contentsOf, List.map_nil, List.flatten_nil, List.append_nil] at hlength
    omega
  | cons chunk more ih =>
    have hpushed := h.push (hends chunk List.mem_cons_self)
    have hbytes' := (flatten_push chunks chunk more).trans hbytes
    have hprogress := decryptFrames_progress hframes hmax hpushed hbytes'
      (Nat.lt_succ_self (chunks ++ [chunk.contents]).flatten.length)
    rw [← hpushed.len] at hprogress
    rw [contentsOf_push]
    refine hprogress.verdict rfl (fun hnil => drained_pushed fun hempty => ?_) fun hbuffered hframes' hbytes'' hshort' =>
      ih (fun a ha => hends a (List.mem_cons_of_mem _ ha)) hframes' hbuffered hbytes'' hshort' (headD_length_le _)
    have hlength := congrArg List.length hbytes'
    rw [hnil, hempty, List.append_nil, List.flatten_append, List.flatten_singleton, List.append_nil] at hlength
    omega

theorem throwIf_ok {condition : Prop} [Decidable condition] {message : JsString} {u : Unit} :
    throwIf condition message = .ok u ↔ ¬ condition := by
  by_cases h : condition
  · rw [throwIf, if_pos h]
    exact iff_of_false (fun herror => by cases herror) (not_not.mpr h)
  · rw [throwIf, if_neg h]
    exact iff_of_true rfl h

theorem parseHeader_le {header : Bytes} (h : parseHeader header = .ok chunkSize) :
    1 ≤ chunkSize ∧ chunkSize ≤ MAX_CHUNK_SIZE := by
  simp only [parseHeader, bind_ok, throwIf_ok] at h
  obtain ⟨_, _, _, _, _, _, size, _, _, hlimits, h⟩ := h
  rw [← Except.ok.inj h]
  omega

theorem MAX_CHUNK_SIZE_lt : MAX_CHUNK_SIZE < 256 ^ 4 := by decide

theorem decryptRest_header {header : Bytes} (hheader : parseHeader header = .ok chunkSize)
    (hlength : header.length = STREAMING_HEADER_SIZE) {fs : List Bytes} {out : Bytes}
    (hframes : Frames aead chunkSize 0 fs out) {more : List Uint8Array} (hends : ∀ a ∈ more, EndsBuffer a)
    {bufferChunks : List Uint8Array} {bufferLen size : ℕ} {chunks : List Bytes}
    (h : Buffered bufferChunks bufferLen chunks)
    (hbytes : chunks.flatten ++ (contentsOf more).flatten = header ++ fs.flatten)
    (hshort : chunks.flatten.length < STREAMING_HEADER_SIZE) :
    Verdict fs out (drained STREAMING_HEADER_SIZE (chunks ++ contentsOf more))
      (decryptRest aead more ⟨bufferChunks, bufferLen, false, size, 0, false⟩) := by
  have hmax := (parseHeader_le hheader).2.trans_lt MAX_CHUNK_SIZE_lt
  induction more generalizing bufferChunks bufferLen chunks with
  | nil =>
    have htotal := congrArg List.length hbytes
    rw [contentsOf, List.map_nil, List.flatten_nil, List.append_nil, List.length_append, hlength] at htotal
    omega
  | cons chunk more ih =>
    have hpushed := h.push (hends chunk List.mem_cons_self)
    have hends' : ∀ a ∈ more, EndsBuffer a := fun a ha => hends a (List.mem_cons_of_mem _ ha)
    have hbytes' := (flatten_push chunks chunk more).trans hbytes
    have hsize : bufferLen + chunk.byteLength = (chunks ++ [chunk.contents]).flatten.length := hpushed.len
    rw [contentsOf_push, decryptRest, decryptTransform]
    rcases Nat.lt_or_ge (chunks ++ [chunk.contents]).flatten.length STREAMING_HEADER_SIZE with hlt | hge
    · have hwaits : bufferLen + chunk.byteLength < STREAMING_HEADER_SIZE := hsize ▸ hlt
      dsimp only
      rw [throwIf, if_neg (by decide), ok_bind, if_neg (by decide), if_pos hwaits, pure_bind]
      dsimp only
      have hrest := ih hends' hpushed hbytes' hlt
      generalize decryptRest aead more _ = result at hrest ⊢
      cases result <;> exact hrest
    · have hready : ¬ bufferLen + chunk.byteLength < STREAMING_HEADER_SIZE := by omega
      have htake : (chunks ++ [chunk.contents]).flatten.take STREAMING_HEADER_SIZE = header := by
        have hbegins := congrArg (List.take STREAMING_HEADER_SIZE) hbytes'
        rwa [List.take_append_of_le_length hge, List.take_left' hlength] at hbegins
      obtain ⟨bufferChunks', hrun, hbuffered⟩ := take_ok ⟨_, _, false, size, 0, false⟩ hpushed hge
      have hbytes'' : (drained STREAMING_HEADER_SIZE (chunks ++ [chunk.contents])).flatten ++ (contentsOf more).flatten =
          fs.flatten := by
        have hdrop := congrArg (List.drop STREAMING_HEADER_SIZE) hbytes'
        rwa [List.drop_append_of_le_length hge, List.drop_left' hlength, ← drained_flatten] at hdrop
      have hprogress := decryptFrames_progress hframes hmax hbuffered hbytes''
        (Nat.lt_succ_self _)
      rw [← hbuffered.len] at hprogress
      rw [drained_append hge]
      dsimp only at hrun hprogress ⊢
      rw [throwIf, if_neg (by decide), ok_bind, if_neg (by decide), if_neg hready, hrun, ok_bind]
      dsimp only
      rw [htake, hheader, ok_bind]
      refine hprogress.verdict rfl (fun _ => ?_) fun hbuffered' hframes' hbytes₃ hshort' =>
        decryptRest_verdict hmax hends' hframes' hbuffered' hbytes₃ hshort'
      rw [drained_drained, drained_flatten, List.length_drop, Nat.add_sub_cancel' hge]
      refine drained_pushed fun hempty => ?_
      rw [hempty, List.flatten_append, List.flatten_singleton, List.append_nil] at hge
      omega

theorem decryptStream_verdict {header : Bytes} (hheader : parseHeader header = .ok chunkSize)
    (hlength : header.length = STREAMING_HEADER_SIZE) {fs : List Bytes} {out : Bytes}
    (hframes : Frames aead chunkSize 0 fs out) {chunks : List Uint8Array} (hends : ∀ a ∈ chunks, EndsBuffer a)
    (hbytes : (contentsOf chunks).flatten = header ++ fs.flatten) :
    Verdict fs out (drained STREAMING_HEADER_SIZE (contentsOf chunks)) (decryptStream aead chunks) := by
  have hempty : Buffered [] 0 [] := ⟨rfl, fun a ha => absurd ha List.not_mem_nil, rfl⟩
  have hverdict : Verdict fs out (drained STREAMING_HEADER_SIZE ([] ++ contentsOf chunks)) (decryptStream aead chunks) :=
    decryptRest_header hheader hlength hframes hends hempty hbytes (by decide)
  rwa [List.nil_append] at hverdict

end ChainGuard.OffChain.StreamingCrypto
