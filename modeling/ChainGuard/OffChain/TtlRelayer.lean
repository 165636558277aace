import Mathlib.Algebra.BigOperators.Group.List.Basic
import ChainGuard.Library.Loops

/-! The TTL relayer's scan of the entities of one type: it reads the lifetimes one after another, each with retries,
and bumps those below the threshold in batches. Of the SDK the model keeps the durabilities that it offers for a key;
the rest of the XDR is left out, and so are the delays and the log. -/
namespace ChainGuard.OffChain.TtlRelayer
open Loops
set_option autoImplicit false

def BATCH_SIZE : ℕ := 50

/-! ## Retries -/

def retryFrom {ε α : Type} (fn : ℕ → Except ε α) : ℕ → ℕ → Option ε → Except (Option ε) α
  | 0, _, lastErr => .error lastErr
  | left + 1, attempt, _ =>
    match fn attempt with
    | .ok value => .ok value
    | .error err => retryFrom fn left (attempt + 1) (some err)

def withRetry {ε α : Type} (fn : ℕ → Except ε α) (maxRetries : ℕ) : Except (Option ε) α :=
  retryFrom fn maxRetries 1 none

/-! ## RPC -/

/-- An entry of an answer of `getLedgerEntries`. -/
structure LedgerEntry where
  liveUntilLedgerSeq : Option ℕ

structure TtlInfo where
  liveUntilLedgerSeq : ℕ
  latestLedger : ℕ

structure LedgerResponse where
  entries : List LedgerEntry
  latestLedger : ℕ

def fetchEntryTtl (response : LedgerResponse) : Option TtlInfo :=
  match response.entries with
  | [] => none
  | entry :: _ => some ⟨entry.liveUntilLedgerSeq.getD 0, response.latestLedger⟩

/-- What the count query takes of the SDK: the functions of `xdr.ContractDataDurability`, each with its value. -/
structure Sdk where
  contractDataDurability : String → Option ℕ

inductive Thrown (ε : Type)
  | notAFunction (name : String)
  | rpc (err : ε)

/-- What each call of the scan is answered with. The entries of the counter are without a value, or with one that
converts to an integer or does not. -/
structure Server (ε : Type) where
  counter : (durability : ℕ) → Except ε (List (Option (Option ℕ)))
  entry : (id attempt : ℕ) → Except ε LedgerResponse
  /-- The hash of the batch's transaction, once it has succeeded. -/
  submit : (batch : List ℕ) → (attempt : ℕ) → Except ε ℕ

def queryEntityCount {ε : Type} (sdk : Sdk) (server : Server ε) : Except (Thrown ε) ℕ :=
  -- the key is built first, with `ContractDataDurability.instance()`
  match sdk.contractDataDurability "instance" with
  | none => .error (.notAFunction "instance")
  | some durability =>
    match server.counter durability with
    | .error err => .error (.rpc err)
    | .ok [] => .ok 0
    | .ok (none :: _) => .ok 0
    | .ok (some native :: _) => .ok (native.getD 0)

structure ScanOptions where
  latestLedger : ℕ
  ttlThreshold : ℤ
  maxEntries : ℕ
  maxRetries : ℕ
  /-- Without an attempt there is no error whose message could be logged. -/
  maxRetries_pos : 0 < maxRetries := by decide

/-! ## Scan -/

/-- The variables of a scan, and which ids and batches its log names. -/
structure Scan where
  scanned : ℕ := 0
  bumped : ℕ := 0
  errors : ℕ := 0
  idsToBump : List ℕ := []
  unread : List ℕ := []
  bumpedBatches : List (List ℕ) := []
  failedBatches : List (List ℕ) := []

section Code
variable {ε : Type} (sdk : Sdk) (server : Server ε) (opts : ScanOptions)

def scanId (id : ℕ) (s : Scan) : Scan :=
  let s := { s with scanned := s.scanned + 1 }
  match withRetry (fun attempt => (server.entry id attempt).map fetchEntryTtl) opts.maxRetries with
  | .error _ => { s with errors := s.errors + 1, unread := s.unread ++ [id] }
  | .ok none => s
  | .ok (some ttlInfo) =>
    let remaining : ℤ := ttlInfo.liveUntilLedgerSeq - opts.latestLedger
    if remaining < opts.ttlThreshold then { s with idsToBump := s.idsToBump ++ [id] } else s

def bumpBatch (batch : List ℕ) (s : Scan) : Scan :=
  match withRetry (server.submit batch) opts.maxRetries with
  | .ok _ => { s with bumped := s.bumped + batch.length, bumpedBatches := s.bumpedBatches ++ [batch] }
  | .error _ => { s with errors := s.errors + batch.length, failedBatches := s.failedBatches ++ [batch] }

/-- `idsToBump.slice(i, i + BATCH_SIZE)` of the round `i / BATCH_SIZE` -/
def batchAt (idsToBump : List ℕ) (round : ℕ) : List ℕ := (idsToBump.drop (BATCH_SIZE * round)).take BATCH_SIZE

def batchCount (idsToBump : List ℕ) : ℕ := (idsToBump.length + (BATCH_SIZE - 1)) / BATCH_SIZE

def readIds (limit : ℕ) : Scan := upTo limit (fun i => scanId server opts (i + 1)) {}

def bumpIds (s : Scan) : Scan :=
  upTo (batchCount s.idsToBump) (fun round => bumpBatch server opts (batchAt s.idsToBump round)) s

def scanAndBumpEntityType : Scan :=
  match queryEntityCount sdk server with
  | .error _ => { errors := 1 }
  | .ok count => bumpIds server opts (readIds server opts (min count opts.maxEntries))

end Code

/-! ## A ledger, and calls that fail -/

structure Ledger where
  count : ℕ
  /-- The ledger until which an entity's entry lives, where it has one. -/
  liveUntil : ℕ → Option ℕ

/-- The calls of a run that fail. -/
structure Failures where
  counter : Bool
  entry : (id attempt : ℕ) → Bool
  submit : (batch : List ℕ) → (attempt : ℕ) → Bool

def Ledger.server (ledger : Ledger) (opts : ScanOptions) (fails : Failures) : Server Unit where
  counter _ := if fails.counter then .error () else .ok [some (some ledger.count)]
  entry id attempt := if fails.entry id attempt then .error () else
    .ok ⟨((ledger.liveUntil id).map fun live => ⟨some live⟩).toList, opts.latestLedger⟩
  submit batch attempt := if fails.submit batch attempt then .error () else .ok batch.length

/-- The entity has an entry with less than the threshold remaining. -/
def Ledger.below (ledger : Ledger) (opts : ScanOptions) (id : ℕ) : Bool :=
  (ledger.liveUntil id).any fun live => decide ((live : ℤ) - opts.latestLedger < opts.ttlThreshold)

def Failures.lost (opts : ScanOptions) (call : ℕ → Bool) : Bool :=
  (List.range' 1 opts.maxRetries).all call

def Scan.scannedIds (s : Scan) : List ℕ := List.range' 1 s.scanned

/-- The id is in a batch that was submitted, or was counted in the errors. -/
def Scan.Covers (s : Scan) (id : ℕ) : Prop := id ∈ s.unread ∨ ∃ batch ∈ s.bumpedBatches ++ s.failedBatches, id ∈ batch

/-- Each scanned id is in one successful batch of at most fifty at most, and the counts are those of the scanned ids. -/
structure Scan.Accounts (s : Scan) (ledger : Ledger) (opts : ScanOptions) (fails : Failures) : Prop where
  once : s.bumpedBatches.flatten.Nodup
  batches : ∀ batch ∈ s.bumpedBatches, batch.length ≤ BATCH_SIZE ∧ batch ⊆ s.scannedIds
  total : s.bumped + s.errors =
    s.scannedIds.countP fun id => ledger.below opts id || Failures.lost opts (fails.entry id)

/-- What consecutive runs on one ledger owe, with the calls of each that fail: every id below the threshold is covered
within as many runs as the cap asks for, and every run accounts for its ids. -/
structure ScansEveryEntity (sdk : Sdk) (ledger : Ledger) (opts : ScanOptions) (fails : ℕ → Failures) : Prop where
  covers : ∀ id ∈ List.range' 1 ledger.count, ledger.below opts id = true →
    ∃ run < (ledger.count + (opts.maxEntries - 1)) / opts.maxEntries,
      (scanAndBumpEntityType sdk (ledger.server opts (fails run)) opts).Covers id
  accounts : ∀ run, (scanAndBumpEntityType sdk (ledger.server opts (fails run)) opts).Accounts ledger opts (fails run)

/-! ## The SDK has no durability of that name -/

section Absent
variable {sdk : Sdk}

theorem scan_of_absent {ε : Type} (h : sdk.contractDataDurability "instance" = none) (server : Server ε)
    (opts : ScanOptions) : scanAndBumpEntityType sdk server opts = { errors := 1 } := by
  rw [scanAndBumpEntityType, queryEntityCount, h]

theorem not_covers_error (id : ℕ) : ¬ ({ errors := 1 } : Scan).Covers id := by
  rintro (hunread | ⟨batch, hbatch, -⟩)
  · exact List.not_mem_nil hunread
  · exact List.not_mem_nil hbatch

theorem not_accounts_error (ledger : Ledger) (opts : ScanOptions) (fails : Failures) :
    ¬ ({ errors := 1 } : Scan).Accounts ledger opts fails :=
  fun h => absurd h.total Nat.one_ne_zero

/-- With an SDK whose durabilities are the temporary and the persistent one the count query throws before it asks the
server, whatever the ledger holds and whichever calls fail. -/
theorem scan_never_covers
    (hsdk : ∀ name, (sdk.contractDataDurability name).isSome = true ↔ name = "temporary" ∨ name = "persistent")
    (ledger : Ledger) (opts : ScanOptions) (fails : ℕ → Failures) :
    (∀ run, let s := scanAndBumpEntityType sdk (ledger.server opts (fails run)) opts
      (s.scanned, s.bumped, s.errors) = (0, 0, 1) ∧ (∀ id, ¬ s.Covers id) ∧ ¬ s.Accounts ledger opts (fails run)) ∧
      ¬ ScansEveryEntity sdk ledger opts fails := by
  have habsent : sdk.contractDataDurability "instance" = none := by
    rw [← Option.not_isSome_iff_eq_none, hsdk]
    decide
  have hruns : ∀ run, ¬ (scanAndBumpEntityType sdk (ledger.server opts (fails run)) opts).Accounts ledger opts
      (fails run) := by
    intro run
    rw [scan_of_absent habsent]
    exact not_accounts_error ledger opts (fails run)
  refine ⟨fun run => ⟨?_, ?_, hruns run⟩, fun h => hruns 0 (h.accounts 0)⟩
  · rw [scan_of_absent habsent]
  · rw [scan_of_absent habsent]
    exact not_covers_error

end Absent

/-! ## Two entities -/

/-- The members of the enumeration with their XDR values. -/
def xdrSdk : Sdk where
  contractDataDurability
    | "temporary" => some 0
    | "persistent" => some 1
    | _ => none

def oneRound : ScanOptions where
  latestLedger := 100000
  ttlThreshold := 10000
  maxEntries := 10000
  maxRetries := 3

def twoExpiring : Ledger where
  count := 2
  liveUntil := fun _ => some 105000

def noFailures : Failures where
  counter := false
  entry _ _ := false
  submit _ _ := false

theorem scan_never_covers_expiring : ¬ ScansEveryEntity xdrSdk twoExpiring oneRound fun _ => noFailures := by
  refine (scan_never_covers ?_ twoExpiring oneRound fun _ => noFailures).2
  intro name
  rw [xdrSdk]
  dsimp only
  split <;> simp_all

/-- Both entries have half of the threshold left and no call fails, and the first of them is in no batch and no count of
one run, which is the number that the cap asks for. -/
theorem twoExpiring_not_covered : twoExpiring.below oneRound 1 = true ∧
    (twoExpiring.count + (oneRound.maxEntries - 1)) / oneRound.maxEntries = 1 ∧
    ¬ (scanAndBumpEntityType xdrSdk (twoExpiring.server oneRound noFailures) oneRound).Covers 1 ∧
    ¬ ScansEveryEntity xdrSdk twoExpiring oneRound fun _ => noFailures := by
  have habsent : xdrSdk.contractDataDurability "instance" = none := rfl
  have hnot : ¬ (scanAndBumpEntityType xdrSdk (twoExpiring.server oneRound noFailures) oneRound).Covers 1 := by
    rw [scan_of_absent habsent]
    exact not_covers_error 1
  refine ⟨by decide, by decide, hnot, fun h => ?_⟩
  obtain ⟨run, -, hcovers⟩ := h.covers 1 (by decide) (by decide)
  exact hnot hcovers

/-- With a member `instance` both entries are bumped. -/
example : (scanAndBumpEntityType ⟨fun _ => some 2⟩ (twoExpiring.server oneRound noFailures) oneRound).bumpedBatches =
    [[1, 2]] := by decide

end ChainGuard.OffChain.TtlRelayer
