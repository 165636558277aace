import ChainGuard.OffChain.StreamRoundTrip

/-! Streams that are decrypted with a key that has encrypted one text: which of them give that text. The size in the
header is not authenticated, and a larger one makes the first frame the last. -/
namespace ChainGuard.OffChain.StreamingCrypto
open Guarded ChunkQueue
set_option autoImplicit false

/-! ## A key for one text -/

section Ideal
variable (aead : AesGcm) (random : ℕ → Fin STREAMING_IV_LENGTH → UInt8) (chunkSize : ℕ) (plaintext : Bytes)

def pieceAt (i : ℕ) : Bytes := (plaintext.drop (i * chunkSize)).take chunkSize

def sealedAt (i : ℕ) : Bytes := aead.encrypt (ivOf random i) (chunkIndexAad i) (pieceAt chunkSize plaintext i)

/-- What was encrypted is decrypted, and nothing else is. -/
structure AesGcm.IdealFor : Prop where
  length : ∀ i ≤ plaintext.length / chunkSize,
    (sealedAt aead random chunkSize plaintext i).length = (pieceAt chunkSize plaintext i).length + STREAMING_TAG_LENGTH
  decrypt : ∀ i ≤ plaintext.length / chunkSize,
    aead.decrypt (ivOf random i) (chunkIndexAad i) (sealedAt aead random chunkSize plaintext i) =
      some (pieceAt chunkSize plaintext i)
  produced : ∀ iv aad ciphertext text, aead.decrypt iv aad ciphertext = some text →
    ∃ i ≤ plaintext.length / chunkSize, iv = ivOf random i ∧ aad = chunkIndexAad i ∧
      ciphertext = sealedAt aead random chunkSize plaintext i

end Ideal

variable {aead : AesGcm} {random : ℕ → Fin STREAMING_IV_LENGTH → UInt8} {chunkSize : ℕ} {plaintext : Bytes}

theorem chunkIndexAad_eq_iff {i j : ℕ} : chunkIndexAad i = chunkIndexAad j ↔ i % 256 ^ 4 = j % 256 ^ 4 := by
  constructor
  · intro h
    have hvalue := congrArg natBE h
    rwa [chunkIndexAad, chunkIndexAad, natBE_bytesBE, natBE_bytesBE] at hvalue
  · intro h
    have hi := bytesBE_natBE (bytesBE 4 i)
    have hj := bytesBE_natBE (bytesBE 4 j)
    rw [bytesBE_length, natBE_bytesBE] at hi hj
    rw [chunkIndexAad, chunkIndexAad, ← hi, ← hj, h]

theorem pieceAt_length_le (i : ℕ) : (pieceAt chunkSize plaintext i).length ≤ chunkSize := List.length_take_le _ _

theorem pieceAt_length_full {i : ℕ} (hi : i < plaintext.length / chunkSize) :
    (pieceAt chunkSize plaintext i).length = chunkSize := pieces_length_full hi

theorem pieceAt_length_last (hpos : 0 < chunkSize) :
    (pieceAt chunkSize plaintext (plaintext.length / chunkSize)).length < chunkSize := pieces_length_last hpos

theorem pieceAt_last (hpos : 0 < chunkSize) {i : ℕ} (hi : i ≤ plaintext.length / chunkSize)
    (hshort : (pieceAt chunkSize plaintext i).length < chunkSize) :
    pieceAt chunkSize plaintext i = plaintext.drop (i * chunkSize) := by
  have hlast : i = plaintext.length / chunkSize := by
    by_contra hne
    exact hshort.ne (pieceAt_length_full (lt_of_le_of_ne hi hne))
  have hmod := Nat.mod_lt plaintext.length hpos
  have hdiv := Nat.div_add_mod' plaintext.length chunkSize
  rw [pieceAt, List.take_of_length_le]
  rw [List.length_drop, hlast]
  omega

theorem pieceAt_append (i : ℕ) :
    pieceAt chunkSize plaintext i ++ plaintext.drop ((i + 1) * chunkSize) = plaintext.drop (i * chunkSize) := by
  rw [pieceAt, Nat.succ_mul, ← List.drop_drop, List.take_append_drop]

theorem AesGcm.IdealFor.piece (haead : aead.IdealFor random chunkSize plaintext) {i : ℕ} {iv ciphertext text : Bytes}
    (hdecrypt : aead.decrypt iv (chunkIndexAad i) ciphertext = some text) :
    ∃ j ≤ plaintext.length / chunkSize, i % 256 ^ 4 = j % 256 ^ 4 ∧ text = pieceAt chunkSize plaintext j ∧
      ciphertext.length = (pieceAt chunkSize plaintext j).length + STREAMING_TAG_LENGTH := by
  obtain ⟨j, hj, rfl, haad, rfl⟩ := haead.produced _ _ _ _ hdecrypt
  rw [haad, haead.decrypt j hj] at hdecrypt
  exact ⟨j, hj, chunkIndexAad_eq_iff.mp haad, (Option.some.inj hdecrypt).symm, haead.length j hj⟩

/-! ## Fewer than 2^32 full frames -/

section Few
variable (haead : aead.IdealFor random chunkSize plaintext) (hpos : 0 < chunkSize)
  (hfew : plaintext.length / chunkSize < 256 ^ 4)

include haead hfew in
theorem piece_of_index {i : ℕ} (hi : i < 256 ^ 4) {iv ciphertext text : Bytes}
    (hdecrypt : aead.decrypt iv (chunkIndexAad i) ciphertext = some text) :
    i ≤ plaintext.length / chunkSize ∧ text = pieceAt chunkSize plaintext i ∧
      ciphertext.length = (pieceAt chunkSize plaintext i).length + STREAMING_TAG_LENGTH := by
  obtain ⟨j, hj, hsame, htext, hlength⟩ := haead.piece hdecrypt
  rw [Nat.mod_eq_of_lt hi, Nat.mod_eq_of_lt (hj.trans_lt hfew)] at hsame
  exact hsame ▸ ⟨hj, htext, hlength⟩

include haead hpos hfew in
theorem frames_same {i : ℕ} (hi : i ≤ plaintext.length / chunkSize) {fs : List Bytes} {out : Bytes}
    (hframes : Frames aead chunkSize i fs out) : out = plaintext.drop (i * chunkSize) := by
  induction hframes with
  | @final i len iv ciphertext text hiv hciphertext hlen hdecrypt =>
    obtain ⟨_, rfl, hlength⟩ := piece_of_index haead hfew (hi.trans_lt hfew) hdecrypt
    exact pieceAt_last hpos hi (by omega)
  | @full i iv ciphertext text out fs hiv hciphertext hdecrypt hrest ih =>
    obtain ⟨_, rfl, hlength⟩ := piece_of_index haead hfew (hi.trans_lt hfew) hdecrypt
    have hne : i ≠ plaintext.length / chunkSize := by
      rintro rfl
      have hlast : (pieceAt chunkSize plaintext (plaintext.length / chunkSize)).length < chunkSize :=
        pieceAt_length_last hpos
      omega
    rw [ih (lt_of_le_of_ne hi hne), pieceAt_append]

include haead hpos hfew in
theorem frames_smaller {size : ℕ} (hsize : size < chunkSize) {fs : List Bytes} {out : Bytes}
    (hframes : Frames aead size 0 fs out) : out = plaintext := by
  have hzero : (0 : ℕ) < 256 ^ 4 := by decide
  have hwhole : (pieceAt chunkSize plaintext 0).length < chunkSize → pieceAt chunkSize plaintext 0 = plaintext := by
    intro hshort
    rw [pieceAt_last hpos (Nat.zero_le _) hshort, Nat.zero_mul, List.drop_zero]
  cases hframes with
  | final hiv hciphertext hlen hdecrypt =>
    obtain ⟨_, rfl, hlength⟩ := piece_of_index haead hfew hzero hdecrypt
    exact hwhole (by omega)
  | full hiv hciphertext hdecrypt hrest =>
    obtain ⟨_, rfl, hlength⟩ := piece_of_index haead hfew hzero hdecrypt
    have hshort : (pieceAt chunkSize plaintext 0).length < chunkSize := by omega
    have hquotient : plaintext.length / chunkSize = 0 := by
      have hlt : plaintext.length < chunkSize := by rwa [hwhole hshort] at hshort
      exact Nat.div_eq_of_lt hlt
    -- there is no piece with the next index
    have hone : (0 : ℕ) + 1 ≤ plaintext.length / chunkSize := by
      cases hrest with
      | final _ _ _ hdecrypt' => exact (piece_of_index haead hfew (by decide) hdecrypt').1
      | full _ _ hdecrypt' _ => exact (piece_of_index haead hfew (by decide) hdecrypt').1
    omega

include haead hfew in
theorem frames_larger {size : ℕ} (hsize : chunkSize < size) {fs : List Bytes} {out : Bytes}
    (hframes : Frames aead size 0 fs out) : out = plaintext.take chunkSize := by
  have hzero : (0 : ℕ) < 256 ^ 4 := by decide
  cases hframes with
  | final hiv hciphertext hlen hdecrypt =>
    obtain ⟨_, rfl, _⟩ := piece_of_index haead hfew hzero hdecrypt
    rw [pieceAt, Nat.zero_mul, List.drop_zero]
  | full hiv hciphertext hdecrypt hrest =>
    obtain ⟨_, _, hlength⟩ := piece_of_index haead hfew hzero hdecrypt
    have hle : (pieceAt chunkSize plaintext 0).length ≤ chunkSize := pieceAt_length_le 0
    omega

include haead hpos hfew in
theorem decryptStream_exact_iff {chunks output : List Bytes}
    (hrun : decryptStream aead (chunks.map Uint8Array.ofBytes) = .ok output) :
    ∃ size, parseHeader (chunks.flatten.take STREAMING_HEADER_SIZE) = .ok size ∧
      (output.flatten = plaintext ↔ size ≤ chunkSize ∨ plaintext.length ≤ chunkSize) := by
  obtain ⟨header, size, fs, hheader, hlength, hframes, hbytes⟩ := decryptStream_frames hrun
  refine ⟨size, by rw [← hbytes, List.take_left' hlength, hheader], ?_⟩
  rcases Nat.lt_trichotomy size chunkSize with hlt | rfl | hgt
  · exact iff_of_true (frames_smaller haead hpos hfew hlt hframes) (Or.inl hlt.le)
  · refine iff_of_true ?_ (Or.inl le_rfl)
    rw [frames_same haead hpos hfew (Nat.zero_le _) hframes, Nat.zero_mul, List.drop_zero]
  · rw [frames_larger haead hfew hgt hframes, List.take_eq_self_iff]
    exact (or_iff_right (not_le.mpr hgt)).symm

end Few

/-! ## Streams that give something else -/

theorem intact_single {i : ℕ} {fs : List Bytes} {out : Bytes} (hframes : Frames aead chunkSize i fs out) :
    Intact fs [fs.flatten] := by
  induction hframes with
  | @final i len iv ciphertext text hiv hciphertext hlen hdecrypt =>
    have hlength := frame_length hiv hciphertext
    have hfour := four_le_frameBodyLen len
    rw [Intact, Intact, List.flatten_singleton, List.headD_cons, hlength,
      drained_cons_le (by omega) hlength.le, hlength, Nat.sub_self, drained_zero]
    exact ⟨hfour, rfl⟩
  | @full i iv ciphertext text out fs hiv hciphertext hdecrypt hrest ih =>
    have hlength := frame_length hiv hciphertext
    have hfour := four_le_frameBodyLen chunkSize
    have hmore : 0 < fs.flatten.length := by
      cases hrest with
      | final hiv' hciphertext' =>
        rw [List.flatten_singleton, frame_length hiv' hciphertext']
        exact Nat.lt_of_lt_of_le (by decide) (four_le_frameBodyLen _)
      | full hiv' hciphertext' =>
        rw [List.flatten_cons, List.length_append, frame_length hiv' hciphertext']
        have hfour' := four_le_frameBodyLen chunkSize
        omega
    rw [Intact, List.flatten_cons, List.headD_cons, List.length_append, hlength,
      drained_cons_lt (by omega) (by rw [List.length_append, hlength]; omega), List.drop_left' hlength]
    exact ⟨by omega, ih⟩

theorem decryptStream_single {size : ℕ} (hpos : 1 ≤ size) (hmax : size ≤ MAX_CHUNK_SIZE) {fs : List Bytes} {out : Bytes}
    (hframes : Frames aead size 0 fs out) : ∃ output,
      decryptStream aead ([buildHeader size ++ fs.flatten].map Uint8Array.ofBytes) = .ok output ∧
        output.flatten = out := by
  have hlength := buildHeader_length size
  have hintact := intact_single hframes
  have hbytes : (contentsOf ([buildHeader size ++ fs.flatten].map Uint8Array.ofBytes)).flatten =
      buildHeader size ++ fs.flatten := by rw [contentsOf_ofBytes, List.flatten_singleton]
  have hverdict := decryptStream_verdict (parseHeader_buildHeader hpos hmax) hlength hframes
    (fun _ => endsBuffer_of_mem) hbytes
  refine hverdict.ok_iff.mpr ?_
  have hmore : 0 < fs.flatten.length := by
    have hhead : 4 ≤ ([fs.flatten].headD []).length := by
      cases hframes <;> exact hintact.1
    exact Nat.zero_lt_of_lt hhead
  rw [contentsOf_ofBytes, drained_cons_lt (by decide) (by rw [List.length_append, hlength]; omega),
    List.drop_left' hlength]
  exact hintact

section Others
variable (haead : aead.IdealFor random chunkSize plaintext) (hpos : 0 < chunkSize)

include haead in
theorem frames_last {size i j : ℕ} (hj : j ≤ plaintext.length / chunkSize) (hsame : i % 256 ^ 4 = j % 256 ^ 4)
    (hshort : (pieceAt chunkSize plaintext j).length < size) :
    Frames aead size i [encryptChunk aead random j (pieceAt chunkSize plaintext j)] (pieceAt chunkSize plaintext j) := by
  refine .final (ivOf_length random j) (haead.length j hj) hshort ?_
  rw [chunkIndexAad_eq_iff.mpr hsame]
  exact haead.decrypt j hj

include haead hpos in
/-- Frames up to one with the associated data of the last, which follows in its place. -/
theorem frames_spliced (hmany : 256 ^ 4 ≤ plaintext.length / chunkSize) {d i : ℕ}
    (hi : i + d = plaintext.length / chunkSize - 256 ^ 4) : ∃ fs out, Frames aead chunkSize i fs out ∧
      out.length = d * chunkSize + (pieceAt chunkSize plaintext (plaintext.length / chunkSize)).length := by
  induction d generalizing i with
  | zero =>
    have hsame : i % 256 ^ 4 = plaintext.length / chunkSize % 256 ^ 4 := by omega
    exact ⟨_, _, frames_last haead le_rfl hsame (pieceAt_length_last hpos), by rw [Nat.zero_mul, Nat.zero_add]⟩
  | succ d ih =>
    obtain ⟨fs, out, hframes, hlength⟩ := ih (show i + 1 + d = _ by omega)
    have hi' : i < plaintext.length / chunkSize := by omega
    have hfull : (pieceAt chunkSize plaintext i).length = chunkSize := pieceAt_length_full hi'
    refine ⟨_, _, .full (ivOf_length random i) ((haead.length i hi'.le).trans (congrArg (· + _) hfull))
      (haead.decrypt i hi'.le) hframes, ?_⟩
    rw [List.length_append, hfull, hlength, Nat.succ_mul]
    omega

include haead in
theorem exists_truncated (hsize : chunkSize < MAX_CHUNK_SIZE) (hlong : chunkSize < plaintext.length) :
    ∃ chunks output : List Bytes, decryptStream aead (chunks.map Uint8Array.ofBytes) = .ok output ∧ output.flatten ≠ plaintext := by
  have hle : (pieceAt chunkSize plaintext 0).length ≤ chunkSize := pieceAt_length_le 0
  obtain ⟨output, hrun, hout⟩ := decryptStream_single (Nat.succ_pos chunkSize) hsize
    (frames_last haead (Nat.zero_le _) rfl (Nat.lt_succ_of_le hle))
  refine ⟨_, output, hrun, fun heq => ?_⟩
  rw [← heq, hout] at hlong
  omega

include haead hpos in
theorem exists_spliced (hmax : chunkSize ≤ MAX_CHUNK_SIZE) (hmany : 256 ^ 4 ≤ plaintext.length / chunkSize) :
    ∃ chunks output : List Bytes, decryptStream aead (chunks.map Uint8Array.ofBytes) = .ok output ∧ output.flatten ≠ plaintext := by
  obtain ⟨fs, out, hframes, hlength⟩ := frames_spliced haead hpos hmany (Nat.zero_add _)
  obtain ⟨output, hrun, hout⟩ := decryptStream_single hpos hmax hframes
  refine ⟨_, output, hrun, fun heq => ?_⟩
  -- the frames that are left out make the text longer
  have hshort := hlength
  rw [← hout, heq, Nat.sub_mul, pieceAt, List.length_take, List.length_drop] at hshort
  have hskipped : 0 < 256 ^ 4 * chunkSize := Nat.mul_pos (by decide) hpos
  have hall : 256 ^ 4 * chunkSize ≤ plaintext.length / chunkSize * chunkSize := Nat.mul_le_mul_right _ hmany
  have hdiv := Nat.div_add_mod' plaintext.length chunkSize
  have hmod := Nat.mod_lt plaintext.length hpos
  omega

end Others

/-- With a key that has encrypted one text in pieces of `chunkSize` bytes: a stream that is decrypted gives the text
exactly if its header states no larger size or the text is one piece; and every stream does exactly if the text is one
piece, or the size is the largest there is and the index of no frame has wrapped around. -/
theorem decryptStream_authentic_iff (haead : aead.IdealFor random chunkSize plaintext) (hpos : 1 ≤ chunkSize)
    (hmax : chunkSize ≤ MAX_CHUNK_SIZE) :
    (plaintext.length < 2 ^ 32 * chunkSize → ∀ chunks output : List Bytes,
      decryptStream aead (chunks.map Uint8Array.ofBytes) = .ok output →
        ∃ size, parseHeader (chunks.flatten.take STREAMING_HEADER_SIZE) = .ok size ∧
          (output.flatten = plaintext ↔ size ≤ chunkSize ∨ plaintext.length ≤ chunkSize)) ∧
      ((∀ chunks output : List Bytes, decryptStream aead (chunks.map Uint8Array.ofBytes) = .ok output →
        output.flatten = plaintext) ↔
        plaintext.length ≤ chunkSize ∨ chunkSize = MAX_CHUNK_SIZE ∧ plaintext.length < 2 ^ 32 * chunkSize) := by
  have hfew : plaintext.length < 2 ^ 32 * chunkSize → plaintext.length / chunkSize < 256 ^ 4 := fun hlt =>
    Nat.div_lt_of_lt_mul (by rwa [Nat.mul_comm] at hlt)
  refine ⟨fun hlt chunks output hrun => decryptStream_exact_iff haead hpos (hfew hlt) hrun, fun hall => ?_, fun h => ?_⟩
  · by_contra hnot
    rw [not_or, not_le, not_and_or] at hnot
    obtain ⟨hlong, hsize | hmany⟩ := hnot
    · obtain ⟨chunks, output, hrun, hne⟩ := exists_truncated haead (lt_of_le_of_ne hmax hsize) hlong
      exact hne (hall chunks output hrun)
    · have hwraps : 256 ^ 4 ≤ plaintext.length / chunkSize := (Nat.le_div_iff_mul_le hpos).mpr (not_lt.mp hmany)
      obtain ⟨chunks, output, hrun, hne⟩ := exists_spliced haead hpos hmax hwraps
      exact hne (hall chunks output hrun)
  · intro chunks output hrun
    have hlt : plaintext.length < 2 ^ 32 * chunkSize := by omega
    obtain ⟨size, hheader, hiff⟩ := decryptStream_exact_iff haead hpos (hfew hlt) hrun
    refine hiff.mpr (h.symm.imp_left fun hlargest => ?_)
    exact hlargest.1 ▸ (parseHeader_le hheader).2

/-- A cipher that appends sixteen zeros, and decrypts what it has encrypted of one text. -/
def recordingAead (random : ℕ → Fin STREAMING_IV_LENGTH → UInt8) (chunkSize : ℕ) (plaintext : Bytes) : AesGcm where
  encrypt := localAead.encrypt
  decrypt := fun iv aad ciphertext =>
    ((List.range (plaintext.length / chunkSize + 1)).find? fun i =>
      iv = ivOf random i ∧ aad = chunkIndexAad i ∧ ciphertext = sealedAt localAead random chunkSize plaintext i).map
        (pieceAt chunkSize plaintext)

theorem recordingAead_idealFor (random : ℕ → Fin STREAMING_IV_LENGTH → UInt8) (chunkSize : ℕ) (plaintext : Bytes) :
    (recordingAead random chunkSize plaintext).IdealFor random chunkSize plaintext where
  length := fun i _ => localAead_inverts.length (ivOf random i) (chunkIndexAad i) _
  decrypt := fun i hi => by
    have hmem : i ∈ List.range (plaintext.length / chunkSize + 1) := List.mem_range.mpr (Nat.lt_succ_of_le hi)
    cases hfind : (List.range (plaintext.length / chunkSize + 1)).find? fun j =>
        ivOf random i = ivOf random j ∧ chunkIndexAad i = chunkIndexAad j ∧
          sealedAt localAead random chunkSize plaintext i = sealedAt localAead random chunkSize plaintext j with
    | none => exact absurd (decide_eq_true ⟨rfl, rfl, rfl⟩) (List.find?_eq_none.mp hfind i hmem)
    | some j =>
      have hfound := List.find?_some hfind
      obtain ⟨_, _, hsame⟩ := of_decide_eq_true hfound
      have hpiece : pieceAt chunkSize plaintext i = pieceAt chunkSize plaintext j := List.append_cancel_right hsame
      exact (congrArg (Option.map _) hfind).trans (congrArg some hpiece.symm)
  produced := fun iv aad ciphertext text h => by
    obtain ⟨i, hfind, _⟩ := Option.map_eq_some_iff.mp h
    have hfound := List.find?_some hfind
    exact ⟨i, Nat.le_of_lt_succ (List.mem_range.mp (List.mem_of_find?_eq_some hfind)), of_decide_eq_true hfound⟩

/-- Three bytes in pieces of two. -/
theorem decryptStream_authentic_iff_three :
    (1 ≤ 2 ∧ 2 ≤ MAX_CHUNK_SIZE) ∧
      (([1, 2, 3] : Bytes).length < 2 ^ 32 * 2 → ∀ chunks output : List Bytes,
        decryptStream (recordingAead (fun _ _ => 0) 2 [1, 2, 3]) (chunks.map Uint8Array.ofBytes) = .ok output →
          ∃ size, parseHeader (chunks.flatten.take STREAMING_HEADER_SIZE) = .ok size ∧
            (output.flatten = [1, 2, 3] ↔ size ≤ 2 ∨ ([1, 2, 3] : Bytes).length ≤ 2)) ∧
        ((∀ chunks output : List Bytes,
          decryptStream (recordingAead (fun _ _ => 0) 2 [1, 2, 3]) (chunks.map Uint8Array.ofBytes) = .ok output →
            output.flatten = [1, 2, 3]) ↔
          ([1, 2, 3] : Bytes).length ≤ 2 ∨ 2 = MAX_CHUNK_SIZE ∧ ([1, 2, 3] : Bytes).length < 2 ^ 32 * 2) :=
  ⟨by decide, decryptStream_authentic_iff (recordingAead_idealFor _ _ _) (by decide) (by decide)⟩

/-- A header that states three bytes, and the first frame of two: what is decrypted is the first two bytes. -/
theorem decryptStream_truncated :
    (recordingAead (fun _ _ => 0) 2 [1, 2, 3]).IdealFor (fun _ _ => 0) 2 [1, 2, 3] ∧
      decryptStream (recordingAead (fun _ _ => 0) 2 [1, 2, 3])
        ([buildHeader 3 ++ encryptChunk localAead (fun _ _ => 0) 0 [1, 2]].map Uint8Array.ofBytes) = .ok [[1, 2]] :=
  ⟨recordingAead_idealFor _ _ _, by decide +kernel⟩

end ChainGuard.OffChain.StreamingCrypto
