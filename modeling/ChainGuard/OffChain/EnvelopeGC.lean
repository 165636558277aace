import Mathlib.Data.Nat.Digits.Defs
import ChainGuard.OffChain.Js

/-! `keyEnvelopeGC`: what the collector of key envelopes unpins, for one account or over all pins, and the searches of
`keyInbox` that it relies on. Telemetry and the requests' headers are left out, and a run sees one time. -/
namespace ChainGuard.OffChain.EnvelopeGC
set_option autoImplicit false

/-! ## Pins -/

def ENVELOPE_NAME : JsString := js "spoovault-beneficiary-key-envelope"

def ENVELOPE_TYPE : JsString := js "beneficiary_key_envelope"

/-- A row of the list of pins; what it lacks is the empty string. -/
structure PinRow where
  ipfs_pin_hash : JsString
  name : JsString
  type : JsString
  beneficiary : JsString
  documentId : JsString
  issuedAt : JsString
  deriving DecidableEq

/-- What the services take from `crypto-js` and from the language. -/
structure Runtime where
  SHA256 : JsString → JsString
  toLowerCase : JsString → JsString
  /-- `Number(s)` is finite and not zero. -/
  validNumber : JsString → Bool
  /-- `Date.parse`, `none` for `NaN`. -/
  parse : JsString → Option ℤ
  validNumber_decimal : ∀ n, 0 < n → n < 2 ^ 256 → validNumber (decimal n) = true

section Inbox
variable (rt : Runtime)

def normalizeAddress (value : JsString) : JsString := rt.toLowerCase (trim value)

def hashAddress (value : JsString) : JsString := rt.SHA256 (normalizeAddress rt value)

def isKeyEnvelope (row : PinRow) : Bool :=
  decide (row.ipfs_pin_hash ≠ [] ∧ row.name = ENVELOPE_NAME ∧ row.type = ENVELOPE_TYPE)

def isEnvelopeFor (beneficiaryAddress : JsString) (documentId : ℕ) (row : PinRow) : Bool :=
  isKeyEnvelope row && decide (normalizeAddress rt row.beneficiary = hashAddress rt beneficiaryAddress ∧
    row.documentId = decimal documentId)

/-- The loop over the rows of a page, up to as many results as are wanted. -/
def searchRows (accept : PinRow → Bool) (maxMatches : ℕ) : List PinRow → List PinRow → List PinRow
  | [], results => results
  | row :: rows, results =>
    if accept row then
      if maxMatches ≤ results.length + 1 then results ++ [row] else searchRows accept maxMatches rows (results ++ [row])
    else searchRows accept maxMatches rows results

def pageLimit : ℕ := 100

def searchPages (accept : PinRow → Bool) (maxMatches : ℕ) (pins : List PinRow) : ℕ → ℕ → List PinRow → List PinRow
  | 0, _, results => results
  | left + 1, page, results =>
    if results.length < maxMatches then
      match (pins.drop (page * pageLimit)).take pageLimit with
      | [] => results
      | rows => searchPages accept maxMatches pins left (page + 1) (searchRows accept maxMatches rows results)
    else results

/-- With the limit of a hundred that the collector asks for. -/
def listAllKeyEnvelopes (pins : List PinRow) : List PinRow := searchPages isKeyEnvelope 100 pins 10 0 []

def findEnvelopeHashesForBeneficiaryAndDoc (pins : List PinRow) (beneficiaryAddress : JsString) (documentId : ℕ) :
    List JsString :=
  (searchPages (isEnvelopeFor rt beneficiaryAddress documentId) 30 pins 6 0 []).map (·.ipfs_pin_hash)

end Inbox

/-! ## Requests -/

structure AccessRequestData where
  status : ℕ
  /-- `none` where it is not finite. -/
  expiresAt : Option ℤ
  deriving DecidableEq

def isRequestExpiredOrRejected (request : Option AccessRequestData) (nowSec : ℤ) : Bool :=
  match request with
  | none => false
  | some request =>
    decide (request.status = 2 ∨ request.status = 3) ||
      (decide (request.status = 0) && request.expiresAt.any fun expiresAt => decide (expiresAt ≤ nowSec))

/-- The latest requests on chain. The contract reads an address in any spelling, and no two users have one hash. -/
structure Requests (rt : Runtime) where
  latest : (user : JsString) → (documentId : ℕ) → Option AccessRequestData
  sameUser : ∀ user user', hashAddress rt user = hashAddress rt user' → latest user = latest user'

/-! ## Collection -/

inductive Unpinning
  | unpinned
  /-- The pin is removed, and the request fails. -/
  | answerLost
  | refused
  deriving DecidableEq

/-- The calls that fail, a search by its place among the documents. -/
structure Failures where
  requests : Bool
  request : (documentId : ℕ) → Bool
  list : Bool
  search : ℕ → Bool
  unpin : JsString → Unpinning

def Failures.removes (fails : Failures) (hash : JsString) : Bool := decide (fails.unpin hash ≠ .refused)

/-- `account` is empty where it is absent. -/
structure Options where
  account : JsString := []
  documentIds : List ℕ := []

structure Surroundings (rt : Runtime) where
  configured : Bool
  /-- `Date.now()` -/
  now : ℤ
  requests : Requests rt
  fails : Failures

/-- The pins and the variables of a run. -/
structure Sweep where
  pins : List PinRow
  scannedCount : ℕ := 0
  unpinnedHashes : List JsString := []
  failedHashes : List JsString := []

def Sweep.attempted (s : Sweep) : List JsString := s.unpinnedHashes ++ s.failedHashes

def thirtyDaysMs : ℤ := 30 * 24 * 60 * 60 * 1000

section Collection
variable {rt : Runtime} (around : Surroundings rt) (dryRun : Bool)

def Surroundings.nowSec : ℤ := around.now / 1000

def collect (s : Sweep) (hash : JsString) : Sweep :=
  if dryRun then { s with unpinnedHashes := s.unpinnedHashes ++ [hash] }
  else match around.fails.unpin hash with
    | .unpinned =>
      { s with
        pins := s.pins.filter fun row => decide (row.ipfs_pin_hash ≠ hash)
        unpinnedHashes := s.unpinnedHashes ++ [hash] }
    | .answerLost =>
      { s with
        pins := s.pins.filter fun row => decide (row.ipfs_pin_hash ≠ hash)
        failedHashes := s.failedHashes ++ [hash] }
    | .refused => { s with failedHashes := s.failedHashes ++ [hash] }

/-- What `getLatestRequestsForUser` has for the document. -/
def latestRequest (account : JsString) (documentId : ℕ) : Option AccessRequestData :=
  if around.fails.request documentId then none else around.requests.latest account documentId

def sweepDocuments (account : JsString) : List ℕ → Sweep → Sweep
  | [], s => s
  | docId :: docIds, s =>
    let s := { s with scannedCount := s.scannedCount + 1 }
    if isRequestExpiredOrRejected (latestRequest around account docId) around.nowSec then
      if around.fails.search s.scannedCount then s
      else sweepDocuments account docIds
        ((findEnvelopeHashesForBeneficiaryAndDoc rt s.pins account docId).foldl (collect around dryRun) s)
    else sweepDocuments account docIds s

def sweepEnvelopes (s : Sweep) (item : PinRow) : Sweep :=
  if !rt.validNumber item.documentId then collect around dryRun s item.ipfs_pin_hash
  else if (rt.parse item.issuedAt).any fun issuedAt => decide (around.now - issuedAt > thirtyDaysMs) then
    collect around dryRun s item.ipfs_pin_hash
  else s

def runGarbageCollection (opts : Options) (pins : List PinRow) : Sweep :=
  if !around.configured then { pins }
  else if opts.account ≠ [] then
    if opts.documentIds = [] ∨ around.fails.requests = true then { pins }
    else sweepDocuments around dryRun opts.account opts.documentIds { pins }
  else if around.fails.list then { pins }
  else
    let allEnvelopes := listAllKeyEnvelopes pins
    allEnvelopes.foldl (sweepEnvelopes around dryRun) { pins, scannedCount := allEnvelopes.length }

end Collection
/-! ## Searches -/

theorem take_filter_isPrefix {α : Type} (p : α → Bool) (n : ℕ) (l : List α) :
    ((l.take n).filter p).IsPrefix ((l.filter p).take n) := by
  have hsplit : l.filter p = (l.take n).filter p ++ (l.drop n).filter p := by
    rw [← List.filter_append, List.take_append_drop]
  have hlength : ((l.take n).filter p).length ≤ n := (List.length_filter_le _ _).trans (List.length_take_le _ _)
  rw [hsplit, List.take_append, List.take_of_length_le hlength]
  exact List.prefix_append _ _

theorem searchRows_eq (accept : PinRow → Bool) (maxMatches : ℕ) (rows results : List PinRow)
    (h : results.length < maxMatches) : searchRows accept maxMatches rows results =
      (results ++ rows.filter accept).take maxMatches := by
  induction rows generalizing results with
  | nil => simp [searchRows, List.take_of_length_le h.le]
  | cons row rows ih =>
    rw [searchRows]
    by_cases haccept : accept row = true
    · rw [if_pos haccept, List.filter_cons_of_pos haccept]
      split
      · next hfull =>
        have hone : maxMatches - results.length = 1 := by omega
        rw [List.take_append, List.take_of_length_le h.le, hone]
        rfl
      · next hroom =>
        rw [ih _ (by simpa using hroom), List.append_assoc, List.singleton_append]
    · rw [if_neg haccept, List.filter_cons_of_neg haccept]
      exact ih results h

/-- What a search over so many pages finds. -/
def window (accept : PinRow → Bool) (maxMatches pages : ℕ) (pins : List PinRow) : List PinRow :=
  ((pins.take (pages * pageLimit)).filter accept).take maxMatches

theorem searchPages_eq (accept : PinRow → Bool) (maxMatches : ℕ) (pins : List PinRow) (left page : ℕ) :
    searchPages accept maxMatches pins left page (window accept maxMatches page pins) =
      window accept maxMatches (page + left) pins := by
  induction left generalizing page with
  | zero => rfl
  | succ left ih =>
    have htake : pins.take ((page + 1) * pageLimit) =
        pins.take (page * pageLimit) ++ (pins.drop (page * pageLimit)).take pageLimit := by
      rw [Nat.succ_mul, List.take_add]
    have hpage : window accept maxMatches (page + 1) pins =
        (window accept maxMatches page pins ++ ((pins.drop (page * pageLimit)).take pageLimit).filter accept).take
          maxMatches := by
      rw [window, window, htake, List.filter_append, List.take_append, List.take_append, List.take_take,
        Nat.min_self, List.length_take]
      congr 2
      omega
    have hnext : page + (left + 1) = page + 1 + left := by omega
    rw [searchPages, hnext]
    split
    · next hroom =>
      split
      · next hempty =>
        have hall : pins.length ≤ page * pageLimit := by
          have hlength := congrArg List.length hempty
          simp only [List.length_take, List.length_drop, List.length_nil, pageLimit] at hlength ⊢
          omega
        have hmore : pins.length ≤ (page + 1 + left) * pageLimit := by
          simp only [pageLimit] at hall ⊢
          omega
        rw [window, window, List.take_of_length_le hall, List.take_of_length_le hmore]
      · rw [searchRows_eq accept maxMatches _ _ hroom, ← hpage]
        exact ih (page + 1)
    · next hfull =>
      have hprefix : (window accept maxMatches page pins).IsPrefix (window accept maxMatches (page + 1 + left) pins) := by
        apply List.IsPrefix.take
        apply List.IsPrefix.filter
        apply List.take_prefix_take_left
        simp only [pageLimit]
        omega
      have hlength : (window accept maxMatches (page + 1 + left) pins).length ≤ maxMatches := List.length_take_le _ _
      exact hprefix.eq_of_length_le (by omega)

theorem mem_of_mem_window {accept : PinRow → Bool} {maxMatches pages : ℕ} {pins : List PinRow} {row : PinRow}
    (h : row ∈ window accept maxMatches pages pins) : row ∈ pins ∧ accept row = true := by
  obtain ⟨hrow, haccept⟩ := List.mem_filter.mp (List.mem_of_mem_take h)
  exact ⟨List.mem_of_mem_take hrow, haccept⟩

/-- What is found and kept is still found when other pins are gone. -/
theorem window_filter {accept keep : PinRow → Bool} {maxMatches pages : ℕ} {pins : List PinRow} {row : PinRow}
    (h : row ∈ window accept maxMatches pages pins) (hkeep : keep row = true) :
    row ∈ window accept maxMatches pages (pins.filter keep) := by
  have hfound : row ∈ (window accept maxMatches pages pins).filter keep := List.mem_filter.mpr ⟨h, hkeep⟩
  have hrows : (((pins.take (pages * pageLimit)).filter accept).filter keep).IsPrefix
      (((pins.filter keep).take (pages * pageLimit)).filter accept) := by
    rw [List.filter_comm]
    exact (take_filter_isPrefix keep _ pins).filter accept
  exact (hrows.take maxMatches).subset ((take_filter_isPrefix keep maxMatches _).subset hfound)

theorem listAllKeyEnvelopes_eq (pins : List PinRow) : listAllKeyEnvelopes pins = window isKeyEnvelope 100 10 pins := by
  have h := searchPages_eq isKeyEnvelope 100 pins 10 0
  rw [listAllKeyEnvelopes]
  simpa [window] using h

theorem findEnvelopeHashes_eq (rt : Runtime) (pins : List PinRow) (beneficiaryAddress : JsString) (documentId : ℕ) :
    findEnvelopeHashesForBeneficiaryAndDoc rt pins beneficiaryAddress documentId =
      (window (isEnvelopeFor rt beneficiaryAddress documentId) 30 6 pins).map (·.ipfs_pin_hash) := by
  have h := searchPages_eq (isEnvelopeFor rt beneficiaryAddress documentId) 30 pins 6 0
  rw [findEnvelopeHashesForBeneficiaryAndDoc]
  simpa [window] using congrArg (List.map (·.ipfs_pin_hash)) h

/-! ## Live envelopes -/

def Live (request : Option AccessRequestData) (nowSec : ℤ) : Prop :=
  ∃ data, request = some data ∧
    (data.status = 1 ∨ data.status = 0 ∧ ∀ expiresAt, data.expiresAt = some expiresAt → nowSec < expiresAt)

theorem not_live {request : Option AccessRequestData} {nowSec : ℤ}
    (h : isRequestExpiredOrRejected request nowSec = true) : ¬ Live request nowSec := by
  intro ⟨data, hrequest, hlive⟩
  subst hrequest
  rw [isRequestExpiredOrRejected, Bool.or_eq_true, decide_eq_true_eq, Bool.and_eq_true, decide_eq_true_eq] at h
  rcases h with hstatus | ⟨hpending, hexpired⟩
  · omega
  · obtain ⟨expiresAt, hexpiresAt, hle⟩ := (Option.any_eq_true _ _).mp hexpired
    rcases hlive with happroved | ⟨-, hlater⟩
    · omega
    · have hlt := hlater expiresAt hexpiresAt
      rw [decide_eq_true_eq] at hle
      omega

/-- The pins, each with a hash of its own, the envelopes among them with well-formed metadata. -/
structure Pins (rt : Runtime) where
  rows : List PinRow
  distinct : (rows.map (·.ipfs_pin_hash)).Nodup
  wellFormed : ∀ row ∈ rows, isKeyEnvelope row = true → (rt.parse row.issuedAt).isSome ∧
    ∃ documentId, 0 < documentId ∧ documentId < 2 ^ 256 ∧ row.documentId = decimal documentId

section Safety
variable {rt : Runtime} (around : Surroundings rt) (opts : Options) (pins : Pins rt)

def LiveEnvelope (row : PinRow) : Prop :=
  isKeyEnvelope row = true ∧ ∃ user documentId, normalizeAddress rt row.beneficiary = hashAddress rt user ∧
    row.documentId = decimal documentId ∧ Live (around.requests.latest user documentId) around.nowSec

/-- No run removes a live envelope, and a dry run reports what a real one attempts. -/
structure Safe : Prop where
  keeps : ∀ dryRun, ∀ row ∈ pins.rows, LiveEnvelope around row →
    row ∈ (runGarbageCollection around dryRun opts pins.rows).pins
  reports : ∀ hash, hash ∈ (runGarbageCollection around true opts pins.rows).unpinnedHashes ↔
    hash ∈ (runGarbageCollection around false opts pins.rows).attempted

def isOld (row : PinRow) : Bool :=
  (rt.parse row.issuedAt).any fun issuedAt => decide (around.now - issuedAt > thirtyDaysMs)

def without (removed : List JsString) (rows : List PinRow) : List PinRow :=
  rows.filter fun row => decide (row.ipfs_pin_hash ∉ removed)

/-- Without the pins that were found for earlier documents and could be removed, no search finds an envelope that it
does not find with them. -/
def Settled (account : JsString) (rows : List PinRow) : List ℕ → ℕ → List JsString → Prop
  | [], _, _ => True
  | docId :: docIds, scanned, removed =>
    if isRequestExpiredOrRejected (latestRequest around account docId) around.nowSec then
      around.fails.search (scanned + 1) = true ∨
        (findEnvelopeHashesForBeneficiaryAndDoc rt (without removed rows) account docId ⊆
          findEnvelopeHashesForBeneficiaryAndDoc rt rows account docId ∧
        Settled account rows docIds (scanned + 1) (removed ++
          (findEnvelopeHashesForBeneficiaryAndDoc rt rows account docId).filter around.fails.removes))
    else Settled account rows docIds (scanned + 1) removed

/-- A sweep of all pins reaches no live envelope of more than thirty days, unless its removal fails; and in the run of an
account the searches are settled. -/
def Spares : Prop :=
  if !around.configured then True
  else if opts.account ≠ [] then
    opts.documentIds = [] ∨ around.fails.requests = true ∨ Settled around opts.account pins.rows opts.documentIds 0 []
  else around.fails.list = true ∨ ∀ row ∈ listAllKeyEnvelopes pins.rows,
    LiveEnvelope around row → isOld around row = true → around.fails.removes row.ipfs_pin_hash = false

/-! ### One hash -/

variable {around}

theorem collect_dry (s : Sweep) (hash : JsString) :
    collect around true s hash = { s with unpinnedHashes := s.unpinnedHashes ++ [hash] } := rfl

theorem collect_real (around : Surroundings rt) (s : Sweep) (hash : JsString) :
    (collect around false s hash).pins = s.pins.filter (fun row =>
      decide ¬ (row.ipfs_pin_hash = hash ∧ around.fails.removes hash = true)) ∧
    (collect around false s hash).scannedCount = s.scannedCount ∧
    ∀ h, h ∈ (collect around false s hash).attempted ↔ h ∈ s.attempted ∨ h = hash := by
  rw [collect, if_neg Bool.false_ne_true, Failures.removes]
  cases hfate : around.fails.unpin hash <;> simp [Sweep.attempted, or_comm, or_left_comm]

/-! ### A list of hashes -/

theorem collectAll_dry (hashes : List JsString) (s : Sweep) : hashes.foldl (collect around true) s =
    { s with unpinnedHashes := s.unpinnedHashes ++ hashes } := by
  induction hashes generalizing s with
  | nil => simp
  | cons hash hashes ih => simp [ih, collect_dry]

theorem collectAll_real (around : Surroundings rt) (hashes : List JsString) (s : Sweep) :
    (hashes.foldl (collect around false) s).pins = without (hashes.filter around.fails.removes) s.pins ∧
    (hashes.foldl (collect around false) s).scannedCount = s.scannedCount ∧
    ∀ h, h ∈ (hashes.foldl (collect around false) s).attempted ↔ h ∈ s.attempted ∨ h ∈ hashes := by
  induction hashes generalizing s with
  | nil => simp [without]
  | cons hash hashes ih =>
    obtain ⟨hpins, hscanned, hattempted⟩ := collect_real around s hash
    obtain ⟨hpins', hscanned', hattempted'⟩ := ih (collect around false s hash)
    rw [List.foldl_cons]
    refine ⟨?_, hscanned'.trans hscanned, fun h => ?_⟩
    · rw [hpins', hpins, without, without, List.filter_filter]
      apply List.filter_congr
      intro row _
      by_cases hremoves : around.fails.removes hash = true
      · simp [hremoves, Bool.and_comm]
      · simp [hremoves]
    · rw [hattempted', hattempted, List.mem_cons, or_assoc]

/-! ### The sweep of all pins -/

theorem sweepEnvelopes_eq (dryRun : Bool) (s : Sweep) (item : PinRow)
    (hvalid : rt.validNumber item.documentId = true) : sweepEnvelopes around dryRun s item =
      if isOld around item then collect around dryRun s item.ipfs_pin_hash else s := by
  rw [sweepEnvelopes, hvalid, Bool.not_true, if_neg Bool.false_ne_true, isOld]

theorem sweepAll_eq (dryRun : Bool) (items : List PinRow)
    (hvalid : ∀ item ∈ items, rt.validNumber item.documentId = true) (s : Sweep) :
    items.foldl (sweepEnvelopes around dryRun) s =
      ((items.filter (isOld around)).map (·.ipfs_pin_hash)).foldl (collect around dryRun) s := by
  induction items generalizing s with
  | nil => rfl
  | cons item items ih =>
    obtain ⟨hitem, hitems⟩ := List.forall_mem_cons.mp hvalid
    rw [List.foldl_cons, sweepEnvelopes_eq dryRun s item hitem, ih hitems]
    by_cases hold : isOld around item = true
    · rw [if_pos hold, List.filter_cons_of_pos hold]
      rfl
    · rw [if_neg hold, List.filter_cons_of_neg hold]

/-! ### The sweep of an account's documents -/

variable {account : JsString} {rows : List PinRow}

theorem mem_find {docId : ℕ} {hash : JsString}
    (h : hash ∈ findEnvelopeHashesForBeneficiaryAndDoc rt rows account docId) :
    ∃ row ∈ rows, row.ipfs_pin_hash = hash ∧ isEnvelopeFor rt account docId row = true := by
  rw [findEnvelopeHashes_eq] at h
  obtain ⟨row, hrow, hhash⟩ := List.mem_map.mp h
  obtain ⟨hmem, haccept⟩ := mem_of_mem_window hrow
  exact ⟨row, hmem, hhash, haccept⟩

theorem find_without {docId : ℕ} {removed : List JsString} {hash : JsString}
    (h : hash ∈ findEnvelopeHashesForBeneficiaryAndDoc rt rows account docId) (hkept : hash ∉ removed) :
    hash ∈ findEnvelopeHashesForBeneficiaryAndDoc rt (without removed rows) account docId := by
  rw [findEnvelopeHashes_eq] at h ⊢
  obtain ⟨row, hrow, rfl⟩ := List.mem_map.mp h
  exact List.mem_map_of_mem (window_filter hrow (by simpa using hkept))

theorem without_without (removed removed' : List JsString) (rows : List PinRow) :
    without removed' (without removed rows) = without (removed ++ removed') rows := by
  rw [without, without, without, List.filter_filter]
  apply List.filter_congr
  intro row _
  simp [Bool.and_comm]

/-- Where a search among the pins that are left finds nothing new, what it removes is what the search among all pins
would have removed. -/
theorem without_found {docId : ℕ} {removed : List JsString}
    (hfinds : findEnvelopeHashesForBeneficiaryAndDoc rt (without removed rows) account docId ⊆
      findEnvelopeHashesForBeneficiaryAndDoc rt rows account docId) :
    without (removed ++ (findEnvelopeHashesForBeneficiaryAndDoc rt (without removed rows) account docId).filter
      around.fails.removes) rows = without (removed ++ (findEnvelopeHashesForBeneficiaryAndDoc rt rows account
        docId).filter around.fails.removes) rows := by
  apply List.filter_congr
  intro row _
  by_cases hremoved : row.ipfs_pin_hash ∈ removed
  · simp [hremoved]
  · have hsame : row.ipfs_pin_hash ∈ findEnvelopeHashesForBeneficiaryAndDoc rt (without removed rows) account docId ↔
        row.ipfs_pin_hash ∈ findEnvelopeHashesForBeneficiaryAndDoc rt rows account docId :=
      ⟨fun h => hfinds h, fun h => find_without h hremoved⟩
    simp [hremoved, hsame]

theorem decimal_inj {m n : ℕ} (h : decimal m = decimal n) : m = n := by
  have hvalue := decimalValue_decimal m
  rw [h, decimalValue_decimal] at hvalue
  exact (Option.some.inj hvalue).symm

theorem not_found_of_live {row : PinRow} (hlive : LiveEnvelope around row) {docId : ℕ}
    (hdead : isRequestExpiredOrRejected (latestRequest around account docId) around.nowSec = true) :
    ¬ isEnvelopeFor rt account docId row = true := by
  intro hfor
  rw [isEnvelopeFor, Bool.and_eq_true, decide_eq_true_eq] at hfor
  obtain ⟨-, user, documentId, huser, hdocument, hrequest⟩ := hlive
  obtain ⟨-, haccount, hdocId⟩ := hfor
  cases decimal_inj (hdocId.symm.trans hdocument)
  rw [around.requests.sameUser user account (huser.symm.trans haccount)] at hrequest
  apply not_live hdead
  rw [latestRequest]
  split
  · next hfails =>
    rw [latestRequest, if_pos hfails] at hdead
    cases hdead
  · exact hrequest

theorem Pins.eq_of_hash {pins : Pins rt} {row row' : PinRow} (hrow : row ∈ pins.rows) (hrow' : row' ∈ pins.rows)
    (h : row.ipfs_pin_hash = row'.ipfs_pin_hash) : row = row' :=
  List.inj_on_of_nodup_map pins.distinct hrow hrow' h

theorem mem_without {removed : List JsString} {row : PinRow} :
    row ∈ without removed rows ↔ row ∈ rows ∧ row.ipfs_pin_hash ∉ removed := by
  rw [without, List.mem_filter, decide_eq_true_eq]

theorem sweepDocuments_keeps {pins : Pins rt} {row : PinRow} (hlive : LiveEnvelope around row) (docIds : List ℕ)
    (s : Sweep) (hsubset : s.pins ⊆ pins.rows) (hrow : row ∈ s.pins) :
    row ∈ (sweepDocuments around false account docIds s).pins := by
  induction docIds generalizing s with
  | nil => exact hrow
  | cons docId docIds ih =>
    rw [sweepDocuments]
    split
    · next hdead =>
      split
      · exact hrow
      · obtain ⟨hpins, -, -⟩ := collectAll_real around (findEnvelopeHashesForBeneficiaryAndDoc rt s.pins
          account docId) { s with scannedCount := s.scannedCount + 1 }
        apply ih
        · rw [hpins]
          exact fun _ hmem => hsubset (mem_without.mp hmem).1
        · rw [hpins, mem_without]
          refine ⟨hrow, fun hremoved => ?_⟩
          obtain ⟨row', hrow', hhash, hfor⟩ := mem_find (List.mem_of_mem_filter hremoved)
          rw [pins.eq_of_hash (hsubset hrow') (hsubset hrow) hhash] at hfor
          exact not_found_of_live hlive hdead hfor
    · exact ih _ hsubset hrow

/-- Between two documents, a real run with the hashes that it has removed, and a dry run. -/
structure Together (rows : List PinRow) (removed : List JsString) (s dry : Sweep) : Prop where
  pins : s.pins = without removed rows
  dryPins : dry.pins = rows
  scanned : dry.scannedCount = s.scannedCount
  removed : removed ⊆ s.attempted
  attempted : ∀ hash, hash ∈ dry.unpinnedHashes ↔ hash ∈ s.attempted

theorem Together.next {removed : List JsString} {s dry : Sweep} (h : Together rows removed s dry) :
    Together rows removed { s with scannedCount := s.scannedCount + 1 }
      { dry with scannedCount := dry.scannedCount + 1 } :=
  ⟨h.pins, h.dryPins, by simp [h.scanned], h.removed, h.attempted⟩

theorem Together.collect (around : Surroundings rt) {removed : List JsString} {s dry : Sweep}
    (h : Together rows removed s dry) {docId : ℕ}
    (hfinds : findEnvelopeHashesForBeneficiaryAndDoc rt (without removed rows) account docId ⊆
      findEnvelopeHashesForBeneficiaryAndDoc rt rows account docId) :
    Together rows (removed ++ (findEnvelopeHashesForBeneficiaryAndDoc rt rows account docId).filter around.fails.removes)
      ((findEnvelopeHashesForBeneficiaryAndDoc rt s.pins account docId).foldl (collect around false) s)
      ((findEnvelopeHashesForBeneficiaryAndDoc rt dry.pins account docId).foldl (collect around true) dry) := by
  obtain ⟨hpins, hscanned, hattempted⟩ := collectAll_real around
    (findEnvelopeHashesForBeneficiaryAndDoc rt s.pins account docId) s
  have hsame : ∀ hash, hash ∈ s.attempted ∨ hash ∈ findEnvelopeHashesForBeneficiaryAndDoc rt s.pins account docId ↔
      hash ∈ s.attempted ∨ hash ∈ findEnvelopeHashesForBeneficiaryAndDoc rt rows account docId := by
    intro hash
    rw [h.pins]
    constructor
    · exact fun hold => hold.imp_right fun hfound => hfinds hfound
    · intro hold
      by_cases hmem : hash ∈ s.attempted
      · exact .inl hmem
      · refine hold.imp_right fun hfound => ?_
        exact find_without hfound fun hremoved => hmem (h.removed hremoved)
  rw [collectAll_dry]
  refine ⟨?_, h.dryPins, h.scanned.trans hscanned.symm, ?_, ?_⟩
  · rw [hpins, h.pins, without_without, without_found hfinds]
  · intro hash hremoved
    rw [hattempted, hsame]
    rcases List.mem_append.mp hremoved with hold | hnew
    · exact .inl (h.removed hold)
    · exact .inr (List.mem_of_mem_filter hnew)
  · intro hash
    rw [hattempted, hsame, List.mem_append, h.attempted, h.dryPins]

theorem sweepDocuments_attempted (docIds : List ℕ) (s : Sweep) :
    s.attempted ⊆ (sweepDocuments around false account docIds s).attempted := by
  induction docIds generalizing s with
  | nil => exact fun _ hash => hash
  | cons docId docIds ih =>
    rw [sweepDocuments]
    split
    · split
      · exact fun _ hash => hash
      · intro hash hmem
        apply ih
        rw [(collectAll_real around _ _).2.2]
        exact .inl hmem
    · exact fun _ hmem => ih { s with scannedCount := s.scannedCount + 1 } hmem

theorem sweepDocuments_dryPins (docIds : List ℕ) (dry : Sweep) :
    (sweepDocuments around true account docIds dry).pins = dry.pins := by
  induction docIds generalizing dry with
  | nil => rfl
  | cons docId docIds ih =>
    rw [sweepDocuments]
    split
    · split
      · rfl
      · rw [ih, collectAll_dry]
    · exact ih _

theorem collectAll_found (around : Surroundings rt) {s : Sweep} (docId : ℕ) (hpins : s.pins = rows)
    (hfound : ∀ hash ∈ s.unpinnedHashes, ∃ docId, hash ∈ findEnvelopeHashesForBeneficiaryAndDoc rt rows account docId) :
    ∀ hash ∈ ((findEnvelopeHashesForBeneficiaryAndDoc rt s.pins account docId).foldl (collect around true)
      s).unpinnedHashes, ∃ docId, hash ∈ findEnvelopeHashesForBeneficiaryAndDoc rt rows account docId := by
  intro hash hmem
  rw [collectAll_dry, List.mem_append] at hmem
  rcases hmem with hold | hnew
  · exact hfound hash hold
  · rw [← hpins]
    exact ⟨docId, hnew⟩

theorem sweepDocuments_dry (around : Surroundings rt) (docIds : List ℕ) (dry : Sweep) (hpins : dry.pins = rows)
    (hfound : ∀ hash ∈ dry.unpinnedHashes, ∃ docId, hash ∈ findEnvelopeHashesForBeneficiaryAndDoc rt rows account docId) :
    ∀ hash ∈ (sweepDocuments around true account docIds dry).unpinnedHashes,
      ∃ docId, hash ∈ findEnvelopeHashesForBeneficiaryAndDoc rt rows account docId := by
  induction docIds generalizing dry with
  | nil => exact hfound
  | cons docId docIds ih =>
    rw [sweepDocuments]
    split
    · split
      · exact hfound
      · apply ih
        · rw [collectAll_dry]
          exact hpins
        · exact collectAll_found around (s := { dry with scannedCount := dry.scannedCount + 1 }) docId hpins hfound
    · exact ih _ hpins hfound

theorem reports_of_settled (docIds : List ℕ) {removed : List JsString} {s dry : Sweep}
    (htogether : Together rows removed s dry) (hsettled : Settled around account rows docIds s.scannedCount removed) :
    ∀ hash, hash ∈ (sweepDocuments around true account docIds dry).unpinnedHashes ↔
      hash ∈ (sweepDocuments around false account docIds s).attempted := by
  induction docIds generalizing removed s dry with
  | nil => exact htogether.attempted
  | cons docId docIds ih =>
    have hnext := htogether.next
    rw [sweepDocuments, sweepDocuments]
    rw [Settled] at hsettled
    rw [htogether.scanned]
    split
    · next hdead =>
      rw [if_pos hdead] at hsettled
      split
      · exact htogether.attempted
      · next hsearch =>
        obtain ⟨hfinds, hrest⟩ := hsettled.resolve_left hsearch
        rw [htogether.scanned] at hnext
        apply ih (hnext.collect around hfinds)
        rw [(collectAll_real around _ _).2.1]
        exact hrest
    · next halive =>
      rw [if_neg halive] at hsettled
      rw [htogether.scanned] at hnext
      exact ih hnext hsettled

theorem found_once {pins : Pins rt} {docId docId' : ℕ} {removed : List JsString} {hash : JsString}
    (hnew : hash ∈ findEnvelopeHashesForBeneficiaryAndDoc rt (without removed pins.rows) account docId)
    (hother : hash ∈ findEnvelopeHashesForBeneficiaryAndDoc rt pins.rows account docId') :
    hash ∈ findEnvelopeHashesForBeneficiaryAndDoc rt pins.rows account docId := by
  obtain ⟨row, hrow, hhash, hfor⟩ := mem_find hnew
  obtain ⟨row', hrow', hhash', hfor'⟩ := mem_find hother
  rw [pins.eq_of_hash (mem_without.mp hrow).1 hrow' (hhash.trans hhash'.symm)] at hfor
  rw [isEnvelopeFor, Bool.and_eq_true, decide_eq_true_eq] at hfor hfor'
  rw [decimal_inj (hfor.2.2.symm.trans hfor'.2.2)]
  exact hother

theorem settled_of_reports (around : Surroundings rt) {pins : Pins rt} (docIds : List ℕ) {removed : List JsString}
    {s dry : Sweep} (htogether : Together pins.rows removed s dry)
    (hfound : ∀ hash ∈ dry.unpinnedHashes, ∃ docId,
      hash ∈ findEnvelopeHashesForBeneficiaryAndDoc rt pins.rows account docId)
    (hreports : ∀ hash ∈ (sweepDocuments around false account docIds s).attempted,
      hash ∈ (sweepDocuments around true account docIds dry).unpinnedHashes) :
    Settled around account pins.rows docIds s.scannedCount removed := by
  have hreported := sweepDocuments_dry around docIds dry htogether.dryPins hfound
  induction docIds generalizing removed s dry with
  | nil => trivial
  | cons docId docIds ih =>
    have hnext := htogether.next
    rw [htogether.scanned] at hnext
    rw [sweepDocuments, sweepDocuments, htogether.scanned] at hreports
    rw [sweepDocuments, htogether.scanned] at hreported
    rw [Settled]
    split
    · next hdead =>
      rw [if_pos hdead, if_pos hdead] at hreports
      rw [if_pos hdead] at hreported
      by_cases hsearch : around.fails.search (s.scannedCount + 1) = true
      · exact .inl hsearch
      · rw [if_neg hsearch, if_neg hsearch] at hreports
        rw [if_neg hsearch] at hreported
        have hfinds : findEnvelopeHashesForBeneficiaryAndDoc rt (without removed pins.rows) account docId ⊆
            findEnvelopeHashesForBeneficiaryAndDoc rt pins.rows account docId := by
          intro hash hnew
          have hattempted : hash ∈ (sweepDocuments around false account docIds
              ((findEnvelopeHashesForBeneficiaryAndDoc rt s.pins account docId).foldl (collect around false)
                { s with scannedCount := s.scannedCount + 1 })).attempted := by
            apply sweepDocuments_attempted
            rw [(collectAll_real around _ _).2.2, htogether.pins]
            exact .inr hnew
          obtain ⟨docId', hother⟩ := hreported hash (hreports hash hattempted)
          exact found_once hnew hother
        refine .inr ⟨hfinds, ?_⟩
        have hcollected := hnext.collect around hfinds
        have hfound' := collectAll_found around (s := { dry with scannedCount := s.scannedCount + 1 }) docId
          htogether.dryPins hfound
        have hsettled := ih hcollected hfound' hreports hreported
        rw [(collectAll_real around _ _).2.1] at hsettled
        exact hsettled
    · next halive =>
      rw [if_neg halive, if_neg halive] at hreports
      rw [if_neg halive] at hreported
      exact ih hnext hfound hreports hreported

/-! ### Every run -/

theorem listed_valid {pins : Pins rt} {row : PinRow} (h : row ∈ listAllKeyEnvelopes pins.rows) :
    row ∈ pins.rows ∧ rt.validNumber row.documentId = true := by
  rw [listAllKeyEnvelopes_eq] at h
  obtain ⟨hrow, henvelope⟩ := mem_of_mem_window h
  obtain ⟨-, documentId, hpos, hlt, hdocument⟩ := pins.wellFormed row hrow henvelope
  rw [hdocument]
  exact ⟨hrow, rt.validNumber_decimal documentId hpos hlt⟩

variable {opts : Options} {pins : Pins rt}

theorem run_all (dryRun : Bool) (hconfigured : around.configured = true) (haccount : opts.account = [])
    (hlist : ¬ around.fails.list = true) : runGarbageCollection around dryRun opts pins.rows =
      (((listAllKeyEnvelopes pins.rows).filter (isOld around)).map (·.ipfs_pin_hash)).foldl (collect around dryRun)
        { pins := pins.rows, scannedCount := (listAllKeyEnvelopes pins.rows).length } := by
  rw [runGarbageCollection, hconfigured, Bool.not_true, if_neg Bool.false_ne_true, haccount, if_neg (not_not.mpr rfl),
    if_neg hlist]
  exact sweepAll_eq dryRun _ (fun item hitem => (listed_valid hitem).2) _

theorem safe_all_iff (hconfigured : around.configured = true) (haccount : opts.account = [])
    (hlist : ¬ around.fails.list = true) : Safe around opts pins ↔ ∀ row ∈ listAllKeyEnvelopes pins.rows,
      LiveEnvelope around row → isOld around row = true → around.fails.removes row.ipfs_pin_hash = false := by
  have hreal := collectAll_real around (((listAllKeyEnvelopes pins.rows).filter (isOld around)).map
    (·.ipfs_pin_hash)) { pins := pins.rows, scannedCount := (listAllKeyEnvelopes pins.rows).length }
  obtain ⟨hpins, -, hattempted⟩ := hreal
  rw [← run_all false hconfigured haccount hlist] at hpins hattempted
  constructor
  · intro hsafe row hlisted hlive hold
    rw [Bool.eq_false_iff]
    intro hremoves
    have hkept := hsafe.keeps false row (listed_valid hlisted).1 hlive
    rw [hpins, mem_without] at hkept
    apply hkept.2
    exact List.mem_filter.mpr ⟨List.mem_map_of_mem (List.mem_filter.mpr ⟨hlisted, hold⟩), hremoves⟩
  · intro hspares
    refine ⟨fun dryRun row hrow hlive => ?_, fun hash => ?_⟩
    · cases dryRun with
      | true =>
        rw [run_all true hconfigured haccount hlist, collectAll_dry]
        exact hrow
      | false =>
        rw [hpins, mem_without]
        refine ⟨hrow, fun hremoved => ?_⟩
        obtain ⟨hmem, hremoves⟩ := List.mem_filter.mp hremoved
        obtain ⟨row', hmem', hhash⟩ := List.mem_map.mp hmem
        obtain ⟨hlisted, hold⟩ := List.mem_filter.mp hmem'
        cases pins.eq_of_hash (listed_valid hlisted).1 hrow hhash
        rw [hspares row hlisted hlive hold] at hremoves
        cases hremoves
    · rw [hattempted, run_all true hconfigured haccount hlist, collectAll_dry]
      simp [Sweep.attempted]

theorem safe_account_iff (hconfigured : around.configured = true) (haccount : opts.account ≠ [])
    (hdocuments : ¬ (opts.documentIds = [] ∨ around.fails.requests = true)) :
    Safe around opts pins ↔ Settled around opts.account pins.rows opts.documentIds 0 [] := by
  have hrun : ∀ dryRun, runGarbageCollection around dryRun opts pins.rows =
      sweepDocuments around dryRun opts.account opts.documentIds { pins := pins.rows } := by
    intro dryRun
    rw [runGarbageCollection, hconfigured, Bool.not_true, if_neg Bool.false_ne_true, if_pos haccount,
      if_neg hdocuments]
  have hstart : Together pins.rows [] { pins := pins.rows } { pins := pins.rows } :=
    ⟨by simp [without], rfl, rfl, List.nil_subset _, fun _ => by simp [Sweep.attempted]⟩
  constructor
  · intro hsafe
    apply settled_of_reports around opts.documentIds hstart (fun _ hmem => (nomatch hmem))
    intro hash hattempted
    rw [← hrun, hsafe.reports, hrun]
    exact hattempted
  · intro hsettled
    refine ⟨fun dryRun row hrow hlive => ?_, fun hash => ?_⟩
    · rw [hrun]
      cases dryRun with
      | true =>
        rw [sweepDocuments_dryPins]
        exact hrow
      | false => exact sweepDocuments_keeps hlive opts.documentIds _ (List.Subset.refl _) hrow
    · rw [hrun, hrun]
      exact reports_of_settled opts.documentIds hstart hsettled hash

/-- The collector is safe exactly where a sweep of all pins reaches no live envelope of more than thirty days, and the
searches for an account's documents find nothing new while the run goes on. -/
theorem safe_iff : Safe around opts pins ↔ Spares around opts pins := by
  have hidle : ∀ {t : Sweep}, t = { pins := pins.rows } → (∀ dryRun, runGarbageCollection around dryRun opts pins.rows =
      t) → Safe around opts pins := by
    intro t ht hrun
    subst ht
    refine ⟨fun dryRun row hrow _ => ?_, fun hash => ?_⟩
    · rw [hrun]
      exact hrow
    · rw [hrun, hrun]
      simp [Sweep.attempted]
  rw [Spares]
  by_cases hconfigured : around.configured = true
  · rw [hconfigured, Bool.not_true, if_neg Bool.false_ne_true]
    by_cases haccount : opts.account = []
    · rw [if_neg (not_not.mpr haccount)]
      by_cases hlist : around.fails.list = true
      · refine iff_of_true (hidle rfl fun dryRun => ?_) (.inl hlist)
        simp [runGarbageCollection, hconfigured, haccount, hlist]
      · rw [safe_all_iff hconfigured haccount hlist, or_iff_right hlist]
    · rw [if_pos haccount]
      by_cases hdocuments : opts.documentIds = [] ∨ around.fails.requests = true
      · refine iff_of_true (hidle rfl fun dryRun => ?_) (hdocuments.imp_right .inl)
        rw [runGarbageCollection, hconfigured, Bool.not_true, if_neg Bool.false_ne_true, if_pos haccount,
          if_pos hdocuments]
      · rw [safe_account_iff hconfigured haccount hdocuments, ← or_assoc, or_iff_right hdocuments]
  · rw [if_pos (by simpa using hconfigured)]
    refine iff_of_true (hidle rfl fun dryRun => ?_) trivial
    rw [runGarbageCollection, if_pos (by simpa using hconfigured)]

end Safety

/-! ## An approved request, and an envelope of two months -/

def beneficiaryHash : JsString := js "f57a7b1207cd7cd603837fd4c313d931b2e41003af05d7c6e5f367c1eb043101"

/-- The functions as they are on the envelope's values. -/
def sampleRuntime : Runtime where
  SHA256 s := if s = js "0xa1" then beneficiaryHash else []
  toLowerCase s := s.map fun c => if 65 ≤ c ∧ c ≤ 90 then c + 32 else c
  validNumber s := (decimalValue s).any fun n => decide (0 < n)
  parse s := if s = js "2025-01-01T00:00:00.000Z" then some 1735689600000 else none
  validNumber_decimal := by
    intro n hpos _
    simpa [decimalValue_decimal] using hpos

def envelopeRow (hash : JsString) : PinRow where
  ipfs_pin_hash := hash
  name := ENVELOPE_NAME
  type := ENVELOPE_TYPE
  beneficiary := beneficiaryHash
  documentId := js "5"
  issuedAt := js "2025-01-01T00:00:00.000Z"

def requestOf (status : ℕ) : Requests sampleRuntime where
  latest user documentId := if hashAddress sampleRuntime user = beneficiaryHash ∧ documentId = 5 then
    some ⟨status, some 1736000000⟩ else none
  sameUser := by
    intro user user' hsame
    funext documentId
    rw [hsame]

def marchFirst (status : ℕ) : Surroundings sampleRuntime where
  configured := true
  now := 1740787200000
  requests := requestOf status
  fails := ⟨false, fun _ => false, false, fun _ => false, fun _ => .unpinned⟩

def approvedPins : Pins sampleRuntime where
  rows := [envelopeRow (js "QmA")]
  distinct := by decide
  wellFormed := by
    intro row hrow _
    cases List.mem_singleton.mp hrow
    exact ⟨by decide, 5, by decide, by decide, by decide⟩

/-- The sweep removes the envelope of the approved request. -/
theorem approved_unpinned : LiveEnvelope (marchFirst 1) (envelopeRow (js "QmA")) ∧
    (runGarbageCollection (marchFirst 1) false {} approvedPins.rows).pins = [] ∧
    ¬ Safe (marchFirst 1) {} approvedPins := by
  have hlive : LiveEnvelope (marchFirst 1) (envelopeRow (js "QmA")) :=
    ⟨by decide, js "0xA1", 5, by decide, by decide, ⟨1, some 1736000000⟩, by decide, .inl rfl⟩
  have hremoved : (runGarbageCollection (marchFirst 1) false {} approvedPins.rows).pins = [] := by decide
  refine ⟨hlive, hremoved, fun hsafe => ?_⟩
  have hkept := hsafe.keeps false _ (List.mem_singleton_self _) hlive
  rw [hremoved] at hkept
  cases hkept

-- Of 31 envelopes for a rejected request a search finds thirty; a document named twice is searched twice.
example :
    let opts : Options := { account := js "0xa1", documentIds := [5, 5] }
    let pins := (List.range 31).map fun i => envelopeRow (decimal i)
    (runGarbageCollection (marchFirst 2) false opts pins).pins = [] ∧
      js "30" ∉ (runGarbageCollection (marchFirst 2) true opts pins).unpinnedHashes := by
  decide +kernel

end ChainGuard.OffChain.EnvelopeGC
