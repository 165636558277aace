import ChainGuard.Library.History
import ChainGuard.OffChain.BlsAggregation

/-! The keyring of guardians' BLS keys: the active key, the records of IndexedDB and the records in memory, with
the arrays of vault ids that key pairs and records share. -/
namespace ChainGuard.OffChain.BlsKeyring
open History BlsCrypto
set_option autoImplicit false

/-- What is called of `ethers`, `@noble/curves` and `@noble/hashes`. -/
structure Libraries where
  getAddress : JsString → Option JsString
  toLowerCase : JsString → JsString
  pbkdf2 : Bytes → Bytes → Bytes
  /-- The secret key and the public key. -/
  keygen : Bytes → Option (Bytes × Bytes)
  getPublicKey : Bytes → Option Bytes
  /-- The signature over a public key, hashed under the tag of possession, with a private key. -/
  signPossession : Bytes → Bytes → Option Bytes

/-- What `generateBLSKeyPair` returns. -/
structure Material where
  privateKey : JsString
  publicKey : JsString
  proofOfPossession : JsString
  createdAt : ℤ
  deriving DecidableEq

/-- The vault ids are a list in the database and the reference of an array elsewhere. -/
structure BLSKeyPair (Ids : Type) extends Material where
  guardianAddress : JsString
  vaultIds : Ids
  deriving DecidableEq

/-! ## Key material -/

section Keys
variable (L : Libraries)

def createProofOfPossession (privateKeyHex publicKeyHex : JsString) : Except Failure JsString := do
  let privBytes ← BlsCrypto.hexToBytes privateKeyHex
  let pubBytes ← BlsCrypto.hexToBytes publicKeyHex
  let popSig ← orThrow (L.signPossession pubBytes privBytes)
  return bytesToHex popSig

def getBLSPublicKey (privateKeyHex : JsString) : Except Failure JsString := do
  let privKeyBytes ← BlsCrypto.hexToBytes privateKeyHex
  let pubPoint ← orThrow (L.getPublicKey privKeyBytes)
  return bytesToHex pubPoint

def generateBLSKeyPair (seed : Option Bytes) (random : Bytes) (now : ℤ) : Except Failure Material := do
  let rawSeed := (seed.filter fun bytes => 32 ≤ bytes.length).getD random
  let keyInfo ← orThrow (L.keygen rawSeed)
  let privateKey := bytesToHex keyInfo.1
  let publicKey := bytesToHex keyInfo.2
  let proofOfPossession ← createProofOfPossession L privateKey publicKey
  return { privateKey, publicKey, proofOfPossession, createdAt := now }

def deriveBLSKeyFromMnemonic (mnemonic : JsString) (accountIndex : ℤ) (random : Bytes) (now : ℤ) :
    Except Failure Material :=
  let normalizedMnemonic := L.toLowerCase (trim mnemonic)
  let salt := stringToUint8Array (js "mnemonic_bls12_381_account_" ++ bigintString accountIndex)
  let seed := L.pbkdf2 (stringToUint8Array normalizedMnemonic) salt
  generateBLSKeyPair L (some seed) random now

/-- The key pair of a private key, which need not have its `0x`. -/
def keyPairOf (privateKeyHex : JsString) (now : ℤ) : Except Failure Material := do
  let privateKey := if privateKeyHex.take 2 = js "0x" then privateKeyHex else js "0x" ++ privateKeyHex
  let publicKey ← getBLSPublicKey L privateKey
  let proofOfPossession ← createProofOfPossession L privateKey publicKey
  return { privateKey, publicKey, proofOfPossession, createdAt := now }

end Keys

/-! ## The three places -/

/-- How the calls of IndexedDB end when a method reaches the database. -/
structure Access where
  opens : Bool := true
  reads : Bool := true
  writes : Bool := true
  deriving DecidableEq

structure Keyring where
  indexedDB : Bool
  /-- Whether the database opened, once that was tried. -/
  dbPromise : Option Bool := none
  /-- The object store; its index keeps one record a guardian. -/
  keys : JsString → Option (BLSKeyPair (List ℤ)) := fun _ => none
  activeKey : Option (BLSKeyPair ℕ) := none
  memoryFallback : JsString → Option (BLSKeyPair ℕ) := fun _ => none
  arrays : ℕ → List ℤ := fun _ => []
  nextArray : ℕ := 0

def Keyring.value (s : Keyring) (key : BLSKeyPair ℕ) : BLSKeyPair (List ℤ) :=
  { key with vaultIds := s.arrays key.vaultIds }

/-- Whether there is a database. A failure to open it is kept. -/
def Keyring.hasDb (s : Keyring) (opens : Bool) : Bool := s.indexedDB && s.dbPromise.getD opens

def Keyring.getDb (s : Keyring) (opens : Bool) : Keyring :=
  if s.indexedDB then { s with dbPromise := some (s.dbPromise.getD opens) } else s

/-- Whether a key is saved in the database. -/
def Keyring.stores (s : Keyring) (access : Access) : Bool := s.hasDb access.opens && access.reads && access.writes

/-- `put` under the id of the guardian's record, or `add` where there is none. -/
def Keyring.saveKey (s : Keyring) (guardianAddress : JsString) (keyPair : BLSKeyPair ℕ) (access : Access) : Keyring :=
  if s.stores access then
    { s.getDb access.opens with
      keys := Function.update s.keys guardianAddress (some { s.value keyPair with guardianAddress }) }
  else
    { s.getDb access.opens with
      memoryFallback := Function.update s.memoryFallback guardianAddress (some { keyPair with guardianAddress }) }

/-- `getKeyForGuardian` on a normalised address. -/
def Keyring.lookup (s : Keyring) (address : JsString) (access : Access) : Option (BLSKeyPair ℕ) × Keyring :=
  match s.activeKey.filter (·.guardianAddress = address) with
  | some key => (some key, s)
  | none =>
    let opened := s.getDb access.opens
    if s.hasDb access.opens then
      if access.reads then
        match s.keys address with
        | some stored =>
          -- The array of the result is a clone.
          let keyPair : BLSKeyPair ℕ := { stored with vaultIds := s.nextArray }
          (some keyPair, { opened with
            activeKey := some keyPair
            arrays := Function.update s.arrays s.nextArray stored.vaultIds
            nextArray := s.nextArray + 1 })
        | none => (none, opened)
      else (s.memoryFallback address, opened)
    else (none, opened)

/-! ## The calls -/

inductive Call
  | generateKeyForGuardian (guardianAddress : JsString) (random : Bytes) (now : ℤ) (access : Access)
  | deriveFromMnemonic (guardianAddress mnemonic : JsString) (accountIndex : ℤ) (random : Bytes) (now : ℤ)
      (access : Access)
  | importPrivateKey (guardianAddress privateKeyHex : JsString) (now : ℤ) (access : Access)
  | getKeyForGuardian (guardianAddress : JsString) (access : Access)
  /-- With its accesses to read and to save. -/
  | linkVaultToKey (guardianAddress : JsString) (vaultId : ℤ) (read save : Access)

/-- What a call resolves to; a link resolves to nothing. -/
abbrev Result := Except Failure (Option (BLSKeyPair ℕ))

def Keyring.keep (s : Keyring) (made : Except Failure (JsString × Material)) (access : Access) : Result × Keyring :=
  match made with
  | .error e => (.error e, s)
  | .ok (guardianAddress, material) =>
    let keyPair : BLSKeyPair ℕ := { material with guardianAddress, vaultIds := s.nextArray }
    let allocated := { s with arrays := Function.update s.arrays s.nextArray [], nextArray := s.nextArray + 1 }
    (.ok (some keyPair), { allocated.saveKey guardianAddress keyPair access with activeKey := some keyPair })

section Methods
variable (L : Libraries)

def madeFor (guardianAddress : JsString) (material : Except Failure Material) :
    Except Failure (JsString × Material) := do
  let normalizedAddress ← orThrow (L.getAddress guardianAddress)
  let keyPair ← material
  return (normalizedAddress, keyPair)

def Keyring.generateKeyForGuardian (s : Keyring) (guardianAddress : JsString) (random : Bytes) (now : ℤ)
    (access : Access) : Result × Keyring :=
  s.keep (madeFor L guardianAddress (generateBLSKeyPair L none random now)) access

def Keyring.deriveFromMnemonic (s : Keyring) (guardianAddress mnemonic : JsString) (accountIndex : ℤ)
    (random : Bytes) (now : ℤ) (access : Access) : Result × Keyring :=
  s.keep (madeFor L guardianAddress (deriveBLSKeyFromMnemonic L mnemonic accountIndex random now)) access

def Keyring.importPrivateKey (s : Keyring) (guardianAddress privateKeyHex : JsString) (now : ℤ)
    (access : Access) : Result × Keyring :=
  s.keep (madeFor L guardianAddress (keyPairOf L privateKeyHex now)) access

def Keyring.getKeyForGuardian (s : Keyring) (guardianAddress : JsString) (access : Access) : Result × Keyring :=
  match L.getAddress guardianAddress with
  | none => (.error .library, s)
  | some normalizedAddress => ((.ok (s.lookup normalizedAddress access).1), (s.lookup normalizedAddress access).2)

/-- `push` writes into the array that the key pair shares. -/
def Keyring.push (s : Keyring) (key : BLSKeyPair ℕ) (vaultId : ℤ) : Keyring :=
  { s with arrays := Function.update s.arrays key.vaultIds (s.arrays key.vaultIds ++ [vaultId]) }

def Keyring.linkVaultToKey (s : Keyring) (guardianAddress : JsString) (vaultId : ℤ) (read save : Access) :
    Result × Keyring :=
  match L.getAddress guardianAddress with
  | none => (.error .library, s)
  | some normalizedAddress =>
    match s.getKeyForGuardian L normalizedAddress read with
    | (.error e, s) => (.error e, s)
    | (.ok none, s) => (.error (.error (js "No BLS key found for guardian " ++ guardianAddress)), s)
    | (.ok (some key), s) =>
      if vaultId ∈ s.arrays key.vaultIds then (.ok none, s)
      else (.ok none, (s.push key vaultId).saveKey normalizedAddress key save)

def exec (s : Keyring) : Call → Result × Keyring
  | .generateKeyForGuardian guardianAddress random now access =>
    s.generateKeyForGuardian L guardianAddress random now access
  | .deriveFromMnemonic guardianAddress mnemonic accountIndex random now access =>
    s.deriveFromMnemonic L guardianAddress mnemonic accountIndex random now access
  | .importPrivateKey guardianAddress privateKeyHex now access =>
    s.importPrivateKey L guardianAddress privateKeyHex now access
  | .getKeyForGuardian guardianAddress access => s.getKeyForGuardian L guardianAddress access
  | .linkVaultToKey guardianAddress vaultId read save => s.linkVaultToKey L guardianAddress vaultId read save

end Methods

/-! ## What was saved -/

abbrev Step := Transition Keyring Call

section History
variable (L : Libraries)

/-- The key pair that a call makes, its guardian first, and the access that saves it. -/
def Call.made : Call → Option (JsString × Material × Access)
  | .generateKeyForGuardian guardianAddress random now access =>
    (madeFor L guardianAddress (generateBLSKeyPair L none random now)).toOption.map fun (a, m) => (a, m, access)
  | .deriveFromMnemonic guardianAddress mnemonic accountIndex random now access =>
    (madeFor L guardianAddress (deriveBLSKeyFromMnemonic L mnemonic accountIndex random now)).toOption.map
      fun (a, m) => (a, m, access)
  | .importPrivateKey guardianAddress privateKeyHex now access =>
    (madeFor L guardianAddress (keyPairOf L privateKeyHex now)).toOption.map fun (a, m) => (a, m, access)
  | .getKeyForGuardian .. | .linkVaultToKey .. => none

def linked (t : Step) : Option (JsString × ℤ) :=
  match t.label with
  | .linkVaultToKey guardianAddress vaultId _ _ =>
    if (exec L t.pre t.label).1.isOk then (L.getAddress guardianAddress).map (·, vaultId) else none
  | _ => none

def withVault (vaultId : ℤ) (key : BLSKeyPair (List ℤ)) : BLSKeyPair (List ℤ) :=
  if vaultId ∈ key.vaultIds then key else { key with vaultIds := key.vaultIds ++ [vaultId] }

/-- The key pair that was most recently saved for each guardian, with its linked vault ids. -/
def latest : List Step → JsString → Option (BLSKeyPair (List ℤ))
  | [] => fun _ => none
  | t :: earlier =>
    match t.label.made L, linked L t with
    | some (guardianAddress, material, _), _ =>
      Function.update (latest earlier) guardianAddress (some { material with guardianAddress, vaultIds := [] })
    | none, some (guardianAddress, vaultId) =>
      Function.update (latest earlier) guardianAddress ((latest earlier guardianAddress).map (withVault vaultId))
    | none, none => latest earlier

/-- What a call saves: the guardian, the key pair, and whether that goes to the database. -/
def saves (s : Keyring) : Call → Option (JsString × BLSKeyPair ℕ × Bool)
  | .linkVaultToKey guardianAddress vaultId read save =>
    match L.getAddress guardianAddress with
    | none => none
    | some normalizedAddress =>
      match s.lookup normalizedAddress read with
      | (none, _) => none
      | (some key, s) => if vaultId ∈ s.arrays key.vaultIds then none else some (normalizedAddress, key, s.stores save)
  | call => (call.made L).map fun (guardianAddress, material, access) =>
    (guardianAddress, { material with guardianAddress, vaultIds := s.nextArray }, s.stores access)

def lastSave : List Step → JsString → Option (BLSKeyPair ℕ × Bool)
  | [] => fun _ => none
  | t :: earlier =>
    match saves L t.pre t.label with
    | some (guardianAddress, save) => Function.update (lastSave earlier) guardianAddress (some save)
    | none => lastSave earlier

/-- What `t` resolves to, with the vault ids that its array has then. -/
def returned (t : Step) : Except Failure (Option (BLSKeyPair (List ℤ))) :=
  (exec L t.pre t.label).1.map (Option.map t.post.value)

/-- Every look-up returns the key pair most recently saved for its guardian, and null only if none ever was. -/
def Keeps (hist : List Step) : Prop :=
  ∀ t earlier, t :: earlier <:+ hist → ∀ guardianAddress access normalizedAddress,
    t.label = .getKeyForGuardian guardianAddress access → L.getAddress guardianAddress = some normalizedAddress →
      returned L t = .ok (latest L earlier normalizedAddress) ∧
      (returned L t = .ok none → ∀ u ∈ earlier, ∀ save, saves L u.pre u.label = some save → save.1 ≠ normalizedAddress)

end History

/-! ## Where a look-up reads -/

inductive Source
  | active
  | database
  | memory
  | nowhere
  deriving DecidableEq

def Keyring.source (s : Keyring) (address : JsString) (access : Access) : Source :=
  if (s.activeKey.filter (·.guardianAddress = address)).isSome then .active
  else if s.hasDb access.opens then
    if access.reads then .database else .memory
  else .nowhere

/-- The source has what was last saved: it is the active key, it is the database and the save went there, or it is
memory and the record there is of the array last saved; or nothing was saved. -/
def Current (s : Keyring) (address : JsString) (last : Option (BLSKeyPair ℕ × Bool)) : Source → Prop
  | .active => True
  | .database => ∀ save ∈ last, save.2 = true
  | .memory => ∀ save ∈ last, s.memoryFallback address = some save.1
  | .nowhere => last = none

def Vacant (s : Keyring) (address : JsString) : Source → Prop
  | .active => False
  | .database => s.keys address = none
  | .memory => s.memoryFallback address = none
  | .nowhere => True

instance decidableCurrent (s : Keyring) (address : JsString) (last : Option (BLSKeyPair ℕ × Bool)) :
    (source : Source) → Decidable (Current s address last source)
  | .active => isTrue trivial
  | .database => inferInstanceAs (Decidable (∀ save ∈ last, save.2 = true))
  | .memory => inferInstanceAs (Decidable (∀ save ∈ last, s.memoryFallback address = some save.1))
  | .nowhere => inferInstanceAs (Decidable (last = none))

instance decidableVacant (s : Keyring) (address : JsString) : (source : Source) → Decidable (Vacant s address source)
  | .active => isFalse id
  | .database => inferInstanceAs (Decidable (s.keys address = none))
  | .memory => inferInstanceAs (Decidable (s.memoryFallback address = none))
  | .nowhere => isTrue trivial

/-- A look-up reads a current source; so does a link, unless it finds no key and rejects. -/
def Careful (L : Libraries) (t : Step) (earlier : List Step) : Prop :=
  match t.label with
  | .getKeyForGuardian guardianAddress access => ∀ a ∈ L.getAddress guardianAddress,
    Current t.pre a (lastSave L earlier a) (t.pre.source a access)
  | .linkVaultToKey guardianAddress _ read _ => ∀ a ∈ L.getAddress guardianAddress,
    Current t.pre a (lastSave L earlier a) (t.pre.source a read) ∨ Vacant t.pre a (t.pre.source a read)
  | _ => True

instance decidableCareful (L : Libraries) : (t : Step) → (earlier : List Step) → Decidable (Careful L t earlier)
  | ⟨s, .getKeyForGuardian guardianAddress access, _⟩, earlier => inferInstanceAs (Decidable
      (∀ a ∈ L.getAddress guardianAddress, Current s a (lastSave L earlier a) (s.source a access)))
  | ⟨s, .linkVaultToKey guardianAddress _ read _, _⟩, earlier => inferInstanceAs (Decidable
      (∀ a ∈ L.getAddress guardianAddress,
        Current s a (lastSave L earlier a) (s.source a read) ∨ Vacant s a (s.source a read)))
  | ⟨_, .generateKeyForGuardian .., _⟩, _ | ⟨_, .deriveFromMnemonic .., _⟩, _ | ⟨_, .importPrivateKey .., _⟩, _ =>
    isTrue trivial

/-! ## Database and records -/

section Records
variable (s : Keyring) (opens : Bool)

@[simp] theorem getDb_keys : (s.getDb opens).keys = s.keys := by
  unfold Keyring.getDb; split <;> rfl

@[simp] theorem getDb_activeKey : (s.getDb opens).activeKey = s.activeKey := by
  unfold Keyring.getDb; split <;> rfl

@[simp] theorem getDb_memoryFallback : (s.getDb opens).memoryFallback = s.memoryFallback := by
  unfold Keyring.getDb; split <;> rfl

@[simp] theorem getDb_arrays : (s.getDb opens).arrays = s.arrays := by
  unfold Keyring.getDb; split <;> rfl

@[simp] theorem getDb_nextArray : (s.getDb opens).nextArray = s.nextArray := by
  unfold Keyring.getDb; split <;> rfl

variable (address : JsString) (key : BLSKeyPair ℕ) (access : Access)

@[simp] theorem saveKey_activeKey : (s.saveKey address key access).activeKey = s.activeKey := by
  unfold Keyring.saveKey; split <;> exact getDb_activeKey s _

@[simp] theorem saveKey_arrays : (s.saveKey address key access).arrays = s.arrays := by
  unfold Keyring.saveKey; split <;> exact getDb_arrays s _

@[simp] theorem saveKey_nextArray : (s.saveKey address key access).nextArray = s.nextArray := by
  unfold Keyring.saveKey; split <;> exact getDb_nextArray s _

theorem saveKey_keys : (s.saveKey address key access).keys =
    if s.stores access then Function.update s.keys address (some { s.value key with guardianAddress := address })
    else s.keys := by
  unfold Keyring.saveKey
  split
  · rfl
  · exact getDb_keys s _

theorem saveKey_memoryFallback : (s.saveKey address key access).memoryFallback =
    if s.stores access then s.memoryFallback
    else Function.update s.memoryFallback address (some { key with guardianAddress := address }) := by
  unfold Keyring.saveKey
  split
  · exact getDb_memoryFallback s _
  · rfl

end Records

/-! ## The invariant -/

variable {L : Libraries} {s s' : Keyring} {latest' : JsString → Option (BLSKeyPair (List ℤ))}
  {last : JsString → Option (BLSKeyPair ℕ × Bool)} {address : JsString} {key : BLSKeyPair ℕ}

/-- An array of a guardian's: that of the active key, of the record in memory, or the one last saved. -/
def Uses (s : Keyring) (last : JsString → Option (BLSKeyPair ℕ × Bool)) (address : JsString) (r : ℕ) : Prop :=
  (∃ key, s.activeKey = some key ∧ key.guardianAddress = address ∧ key.vaultIds = r) ∨
    (∃ key, s.memoryFallback address = some key ∧ key.vaultIds = r) ∨
    ∃ key stored, last address = some (key, stored) ∧ key.vaultIds = r

/-- The active key and the place of the last save have what was last saved, and no two guardians share an array. -/
structure Sound (s : Keyring) (latest' : JsString → Option (BLSKeyPair (List ℤ)))
    (last : JsString → Option (BLSKeyPair ℕ × Bool)) : Prop where
  active : ∀ key, s.activeKey = some key → latest' key.guardianAddress = some (s.value key)
  unsaved : ∀ address, last address = none →
    latest' address = none ∧ s.keys address = none ∧ s.memoryFallback address = none
  saved : ∀ address key stored, last address = some (key, stored) →
    latest' address = some (s.value key) ∧ key.guardianAddress = address ∧
      if stored then s.keys address = some (s.value key) else s.memoryFallback address = some key
  bounded : ∀ address r, Uses s last address r → r < s.nextArray
  apart : ∀ address other r, Uses s last address r → Uses s last other r → address = other

theorem Sound.latest_none (h : Sound s latest' last) (hnone : latest' address = none) : last address = none := by
  cases hlast : last address with
  | none => rfl
  | some save =>
    rw [(h.saved address save.1 save.2 hlast).1] at hnone
    cases hnone

theorem Sound.getDb (h : Sound s latest' last) (opens : Bool) : Sound (s.getDb opens) latest' last := by
  have huses : ∀ address r, Uses (s.getDb opens) last address r ↔ Uses s last address r := by
    intro address r
    simp only [Uses, getDb_activeKey, getDb_memoryFallback]
  have hvalue : ∀ key, (s.getDb opens).value key = s.value key := by
    intro key
    simp only [Keyring.value, getDb_arrays]
  constructor
  · intro key hkey
    rw [hvalue]
    exact h.active key ((getDb_activeKey s opens).symm.trans hkey)
  · intro address hlast
    rw [getDb_keys, getDb_memoryFallback]
    exact h.unsaved address hlast
  · intro address key stored hlast
    rw [getDb_keys, getDb_memoryFallback, hvalue]
    exact h.saved address key stored hlast
  · intro address r hr
    rw [getDb_nextArray]
    exact h.bounded address r ((huses address r).mp hr)
  · intro address other r hr hother
    exact h.apart address other r ((huses address r).mp hr) ((huses other r).mp hother)

theorem Sound.apart_of_uses (h : Sound s latest' last) {last' : JsString → Option (BLSKeyPair ℕ × Bool)} {r : ℕ}
    (huses : ∀ other r', Uses s' last' other r' → (other = address ∧ r' = r) ∨ Uses s last other r')
    (hown : ∀ other, Uses s last other r → other = address) (one other : JsString) (r' : ℕ)
    (hone : Uses s' last' one r') (hother : Uses s' last' other r') : one = other := by
  rcases huses one r' hone with ⟨honly, hsame⟩ | hold
  · rcases huses other r' hother with ⟨hotherwise, _⟩ | hothers
    · exact honly.trans hotherwise.symm
    · exact honly.trans (hown other (hsame ▸ hothers)).symm
  · rcases huses other r' hother with ⟨hotherwise, hsame⟩ | hothers
    · exact (hown one (hsame ▸ hold)).trans hotherwise.symm
    · exact h.apart one other r' hold hothers

theorem Sound.bounded_of_uses (h : Sound s latest' last) {last' : JsString → Option (BLSKeyPair ℕ × Bool)} {r : ℕ}
    (huses : ∀ other r', Uses s' last' other r' → (other = address ∧ r' = r) ∨ Uses s last other r')
    (hbound : r < s'.nextArray) (hnext : s.nextArray ≤ s'.nextArray) (other : JsString) (r' : ℕ)
    (hr' : Uses s' last' other r') : r' < s'.nextArray := by
  rcases huses other r' hr' with ⟨_, rfl⟩ | hr'
  · exact hbound
  · exact (h.bounded other r' hr').trans_le hnext

/-- A key pair is written to its place, and the ids in its array may change with it. -/
structure Writes (s s' : Keyring) (key : BLSKeyPair ℕ) (ids : List ℤ) (stored : Bool) : Prop where
  arrays : s'.arrays = Function.update s.arrays key.vaultIds ids
  active : ∀ other, s'.activeKey = some other →
    other = key ∨ s.activeKey = some other ∧ other.guardianAddress ≠ key.guardianAddress
  keys : s'.keys = if stored then Function.update s.keys key.guardianAddress (some (s'.value key)) else s.keys
  memory : s'.memoryFallback =
    if stored then s.memoryFallback else Function.update s.memoryFallback key.guardianAddress (some key)

section Writes
variable {ids : List ℤ} {stored : Bool} {other : JsString} {k : BLSKeyPair ℕ}

theorem Writes.value_self (hwrites : Writes s s' key ids stored) : s'.value key = { key with vaultIds := ids } := by
  rw [Keyring.value, hwrites.arrays, Function.update_self]

theorem Writes.value_other (hwrites : Writes s s' key ids stored) (hk : k.vaultIds ≠ key.vaultIds) :
    s'.value k = s.value k := by
  rw [Keyring.value, hwrites.arrays, Function.update_of_ne hk, Keyring.value]

theorem Writes.keys_other (hwrites : Writes s s' key ids stored) (hother : other ≠ key.guardianAddress) :
    s'.keys other = s.keys other := by
  rw [hwrites.keys]
  split_ifs
  · exact Function.update_of_ne hother _ _
  · rfl

theorem Writes.memory_other (hwrites : Writes s s' key ids stored) (hother : other ≠ key.guardianAddress) :
    s'.memoryFallback other = s.memoryFallback other := by
  rw [hwrites.memory]
  split_ifs
  · rfl
  · exact Function.update_of_ne hother _ _

theorem Writes.uses (hwrites : Writes s s' key ids stored) (other : JsString) (r : ℕ)
    (huses : Uses s' (Function.update last key.guardianAddress (some (key, stored))) other r) :
    (other = key.guardianAddress ∧ r = key.vaultIds) ∨ Uses s last other r := by
  rcases huses with ⟨k, hk, hother, hr⟩ | ⟨k, hk, hr⟩ | ⟨k, b, hk, hr⟩
  · rcases hwrites.active k hk with rfl | ⟨hk, _⟩
    · exact .inl ⟨hother.symm, hr.symm⟩
    · exact .inr (.inl ⟨k, hk, hother, hr⟩)
  · by_cases hother : other = key.guardianAddress
    · rw [hwrites.memory] at hk
      split_ifs at hk with hstored
      · exact .inr (.inr (.inl ⟨k, hk, hr⟩))
      · rw [hother, Function.update_self] at hk
        cases hk
        exact .inl ⟨hother, hr.symm⟩
    · rw [hwrites.memory_other hother] at hk
      exact .inr (.inr (.inl ⟨k, hk, hr⟩))
  · by_cases hother : other = key.guardianAddress
    · rw [hother, Function.update_self] at hk
      cases hk
      exact .inl ⟨hother, hr.symm⟩
    · rw [Function.update_of_ne hother] at hk
      exact .inr (.inr (.inr ⟨k, b, hk, hr⟩))

end Writes

theorem Sound.save (h : Sound s latest' last) {ids : List ℤ} {stored : Bool} (hwrites : Writes s s' key ids stored)
    (hown : ∀ other, Uses s last other key.vaultIds → other = key.guardianAddress) (hbound : key.vaultIds < s'.nextArray)
    (hnext : s.nextArray ≤ s'.nextArray) :
    Sound s' (Function.update latest' key.guardianAddress (some { key with vaultIds := ids }))
      (Function.update last key.guardianAddress (some (key, stored))) := by
  constructor
  · intro k hk
    rcases hwrites.active k hk with rfl | ⟨hk, hne⟩
    · rw [Function.update_self, hwrites.value_self]
    · have hk_array : k.vaultIds ≠ key.vaultIds := fun heq => hne (hown _ (.inl ⟨k, hk, rfl, heq⟩))
      rw [Function.update_of_ne hne, hwrites.value_other hk_array]
      exact h.active k hk
  · intro other hlast
    have hne : other ≠ key.guardianAddress := by
      rintro rfl
      rw [Function.update_self] at hlast
      cases hlast
    rw [Function.update_of_ne hne] at hlast
    rw [Function.update_of_ne hne, hwrites.keys_other hne, hwrites.memory_other hne]
    exact h.unsaved other hlast
  · intro other k b hlast
    by_cases hne : other = key.guardianAddress
    · subst hne
      rw [Function.update_self] at hlast
      cases hlast
      refine ⟨by rw [Function.update_self, hwrites.value_self], rfl, ?_⟩
      split_ifs with hstored
      · rw [hwrites.keys, if_pos hstored, Function.update_self]
      · rw [hwrites.memory, if_neg hstored, Function.update_self]
    · rw [Function.update_of_ne hne] at hlast
      have hk_array : k.vaultIds ≠ key.vaultIds := fun heq => hne (hown _ (.inr (.inr ⟨k, b, hlast, heq⟩)))
      rw [Function.update_of_ne hne, hwrites.value_other hk_array, hwrites.keys_other hne, hwrites.memory_other hne]
      exact h.saved other k b hlast
  · exact h.bounded_of_uses hwrites.uses hbound hnext
  · exact h.apart_of_uses hwrites.uses hown

/-- What a look-up gives: the key pair last saved, whose array is the guardian's and the active one's, or null. -/
structure Found (s : Keyring) (latest' : JsString → Option (BLSKeyPair (List ℤ)))
    (last : JsString → Option (BLSKeyPair ℕ × Bool)) (address : JsString) (result : Option (BLSKeyPair ℕ)) : Prop where
  sound : Sound s latest' last
  latest : result.map s.value = latest' address
  guardian : ∀ key, result = some key → key.guardianAddress = address
  uses : ∀ key, result = some key → Uses s last address key.vaultIds
  active : ∀ key, result = some key →
    ∀ other, s.activeKey = some other → other = key ∨ s.activeKey = some other ∧ other.guardianAddress ≠ address

theorem source_active (h : s.activeKey.filter (·.guardianAddress = address) = some key) (access : Access) :
    s.source address access = .active ∧ s.lookup address access = (some key, s) ∧
      s.activeKey = some key ∧ key.guardianAddress = address := by
  obtain ⟨hkey, haddress⟩ := Option.filter_eq_some_iff.mp h
  refine ⟨?_, ?_, hkey, of_decide_eq_true haddress⟩
  · rw [Keyring.source, h]
    rfl
  · simp only [Keyring.lookup, h]

theorem not_active (h : s.activeKey.filter (·.guardianAddress = address) = none) {other : BLSKeyPair ℕ}
    (hother : s.activeKey = some other) : other.guardianAddress ≠ address := by
  intro haddress
  rw [hother, Option.filter_some, if_pos (by exact decide_eq_true haddress)] at h
  cases h

theorem Sound.clone (h : Sound s latest' last) {stored : BLSKeyPair (List ℤ)} (haddress : stored.guardianAddress = address)
    (hlatest : latest' address = some stored) (opens : Bool) :
    Found { s.getDb opens with
        activeKey := some { stored with vaultIds := s.nextArray }
        arrays := Function.update s.arrays s.nextArray stored.vaultIds
        nextArray := s.nextArray + 1 }
      latest' last address (some { stored with vaultIds := s.nextArray }) := by
  set cloned : Keyring := { s.getDb opens with
    activeKey := some { stored with vaultIds := s.nextArray }
    arrays := Function.update s.arrays s.nextArray stored.vaultIds
    nextArray := s.nextArray + 1 }
  have harrays : cloned.arrays = Function.update s.arrays s.nextArray stored.vaultIds := rfl
  have hkeys : cloned.keys = s.keys := getDb_keys s opens
  have hmemory : cloned.memoryFallback = s.memoryFallback := getDb_memoryFallback s opens
  have hvalue : ∀ other r, Uses s last other r → ∀ k : BLSKeyPair ℕ, k.vaultIds = r → cloned.value k = s.value k := by
    rintro other r hr k rfl
    rw [Keyring.value, harrays, Function.update_of_ne (h.bounded other _ hr).ne, Keyring.value]
  have hfresh : cloned.value { stored with vaultIds := s.nextArray } = stored := by
    rw [Keyring.value, harrays, Function.update_self]
  have huses : ∀ other r, Uses cloned last other r → (other = address ∧ r = s.nextArray) ∨ Uses s last other r := by
    rintro other r (⟨k, hk, hother, hr⟩ | ⟨k, hk, hr⟩ | hlast)
    · cases hk
      exact .inl ⟨hother.symm.trans haddress, hr.symm⟩
    · rw [hmemory] at hk
      exact .inr (.inr (.inl ⟨k, hk, hr⟩))
    · exact .inr (.inr (.inr hlast))
  have hnew : ∀ other, ¬ Uses s last other s.nextArray := fun other hr => (h.bounded other _ hr).false
  refine ⟨⟨?_, ?_, ?_, ?_, ?_⟩, ?_, ?_, ?_, ?_⟩
  · intro k hk
    cases hk
    rw [hfresh, ← hlatest, ← haddress]
  · intro other hlast
    rw [hkeys, hmemory]
    exact h.unsaved other hlast
  · intro other k b hlast
    rw [hkeys, hmemory, hvalue other k.vaultIds (.inr (.inr ⟨k, b, hlast, rfl⟩)) k rfl]
    exact h.saved other k b hlast
  · exact h.bounded_of_uses huses (Nat.lt_succ_self _) (Nat.le_succ _)
  · exact h.apart_of_uses huses fun other hr => absurd hr (hnew other)
  · rw [hlatest]
    exact congrArg some hfresh
  · rintro k hk
    cases hk
    exact haddress
  · rintro k hk
    cases hk
    exact .inl ⟨_, rfl, haddress, rfl⟩
  · rintro k hk other hother
    cases hk
    cases hother
    exact .inl rfl

theorem Sound.lookup (h : Sound s latest' last) {access : Access}
    (hcurrent : Current s address (last address) (s.source address access)) :
    Found (s.lookup address access).2 latest' last address (s.lookup address access).1 := by
  cases hactive : s.activeKey.filter (·.guardianAddress = address) with
  | some key =>
    obtain ⟨_, hlookup, hkey, haddress⟩ := source_active hactive access
    rw [hlookup]
    refine ⟨h, ?_, ?_, ?_, ?_⟩
    · rw [← haddress, h.active key hkey]
      rfl
    · rintro k hk
      cases hk
      exact haddress
    · rintro k hk
      cases hk
      exact .inl ⟨key, hkey, haddress, rfl⟩
    · rintro k hk other hother
      cases hk
      exact .inl (Option.some.inj (hother.symm.trans hkey))
  | none =>
    have hopened := h.getDb access.opens
    have hne := @not_active _ _ hactive
    have hmiss : last address = none → Found (s.getDb access.opens) latest' last address none := by
      intro hlast
      exact ⟨hopened, (h.unsaved address hlast).1.symm, nofun, nofun, nofun⟩
    simp only [Keyring.source, hactive, Option.isSome_none, Bool.false_eq_true, if_false] at hcurrent
    simp only [Keyring.lookup, hactive]
    split_ifs at hcurrent ⊢ with hdb hreads
    · cases hlast : last address with
      | none =>
        rw [(h.unsaved address hlast).2.1]
        exact hmiss hlast
      | some save =>
        obtain ⟨hlatest, haddress, hplace⟩ := h.saved address save.1 save.2 hlast
        have hstored := hcurrent save hlast
        rw [if_pos hstored] at hplace
        rw [hplace]
        exact h.clone haddress hlatest access.opens
    · cases hlast : last address with
      | none =>
        rw [(h.unsaved address hlast).2.2]
        exact hmiss hlast
      | some save =>
        obtain ⟨hlatest, haddress, _⟩ := h.saved address save.1 save.2 hlast
        have hrecord := hcurrent save hlast
        rw [hrecord]
        refine ⟨hopened, ?_, ?_, ?_, ?_⟩
        · rw [hlatest]
          simp only [Option.map_some, Keyring.value, getDb_arrays]
        · rintro k hk
          cases hk
          exact haddress
        · rintro k hk
          cases hk
          exact .inr (.inr ⟨save.1, save.2, hlast, rfl⟩)
        · intro k _ other hother
          exact .inr ⟨hother, hne ((getDb_activeKey s _).symm.trans hother)⟩
    · exact hmiss hcurrent

theorem lookup_vacant {access : Access} (hvacant : Vacant s address (s.source address access)) :
    s.lookup address access = (none, s.getDb access.opens) := by
  cases hactive : s.activeKey.filter (·.guardianAddress = address) with
  | some key =>
    rw [(source_active hactive access).1] at hvacant
    exact hvacant.elim
  | none =>
    simp only [Keyring.source, hactive, Option.isSome_none, Bool.false_eq_true, if_false] at hvacant
    simp only [Keyring.lookup, hactive]
    split_ifs at hvacant ⊢ with hdb hreads
    · rw [show s.keys address = none from hvacant]
    · rw [show s.memoryFallback address = none from hvacant]
    · rfl

/-! ## One call -/

theorem Sound.keep (h : Sound s latest' last) (material : Material) (access : Access) :
    Sound (s.keep (.ok (address, material)) access).2
      (Function.update latest' address (some { material with guardianAddress := address, vaultIds := [] }))
      (Function.update last address (some ({ material with guardianAddress := address, vaultIds := s.nextArray },
        s.stores access))) := by
  have hnew : ∀ other, ¬ Uses s last other s.nextArray := fun other hr => (h.bounded other _ hr).false
  set allocated : Keyring := { s with arrays := Function.update s.arrays s.nextArray [], nextArray := s.nextArray + 1 }
    with hallocated
  set key : BLSKeyPair ℕ := { material with guardianAddress := address, vaultIds := s.nextArray }
  have hsaved : (s.keep (.ok (address, material)) access).2 =
      { allocated.saveKey address key access with activeKey := some key } := rfl
  have hstores : allocated.stores access = s.stores access := rfl
  have harrays : (s.keep (.ok (address, material)) access).2.arrays = allocated.arrays :=
    saveKey_arrays allocated address key access
  have hvalue : (s.keep (.ok (address, material)) access).2.value key = allocated.value key := by
    rw [Keyring.value, harrays, Keyring.value]
  have hbound : s.nextArray < (s.keep (.ok (address, material)) access).2.nextArray := by
    refine (Nat.lt_succ_self _).trans_eq ?_
    exact (saveKey_nextArray allocated address key access).symm
  have hwrites : Writes s (s.keep (.ok (address, material)) access).2 key [] (s.stores access) := by
    refine ⟨harrays, ?_, ?_, ?_⟩
    · intro other hother
      exact .inl (Option.some.inj hother).symm
    · rw [hvalue]
      exact saveKey_keys allocated address key access
    · exact saveKey_memoryFallback allocated address key access
  exact h.save hwrites (fun other hr => absurd hr (hnew other)) hbound hbound.le

theorem Found.link (h : Found s latest' last address (some key)) {vaultId : ℤ} (hnew : vaultId ∉ s.arrays key.vaultIds)
    (save : Access) : Sound ((s.push key vaultId).saveKey address key save)
      (Function.update latest' address ((latest' address).map (withVault vaultId)))
      (Function.update last address (some (key, s.stores save))) := by
  have hlatest : (latest' address).map (withVault vaultId) =
      some { key with vaultIds := s.arrays key.vaultIds ++ [vaultId] } := by
    rw [← h.latest, Option.map_some, Option.map_some, withVault]
    exact congrArg some (if_neg hnew)
  have haddress := h.guardian key rfl
  have huses := h.uses key rfl
  have harrays := saveKey_arrays (s.push key vaultId) address key save
  have hvalue : ((s.push key vaultId).saveKey address key save).value key = (s.push key vaultId).value key := by
    rw [Keyring.value, harrays, Keyring.value]
  have hnext : ((s.push key vaultId).saveKey address key save).nextArray = s.nextArray :=
    saveKey_nextArray (s.push key vaultId) address key save
  rw [hlatest]
  subst haddress
  have hwrites : Writes s ((s.push key vaultId).saveKey key.guardianAddress key save) key
      (s.arrays key.vaultIds ++ [vaultId]) (s.stores save) := by
    refine ⟨harrays, ?_, ?_, ?_⟩
    · intro other hother
      rw [saveKey_activeKey] at hother
      exact h.active key rfl other hother
    · rw [hvalue]
      exact saveKey_keys (s.push key vaultId) key.guardianAddress key save
    · exact saveKey_memoryFallback (s.push key vaultId) key.guardianAddress key save
  exact h.sound.save hwrites (fun other hr => h.sound.apart other _ _ hr huses)
    ((h.sound.bounded _ _ huses).trans_eq hnext.symm) hnext.ge

variable {earlier : List Step}

theorem Sound.make (h : Sound s (latest L earlier) (lastSave L earlier)) {c : Call}
    {made : Except Failure (JsString × Material)} {access : Access} (hexec : exec L s c = s.keep made access)
    (hmade : c.made L = made.toOption.map fun (a, m) => (a, m, access)) (hlinked : ∀ s', linked L ⟨s, c, s'⟩ = none)
    (hsaves : saves L s c = (c.made L).map fun (guardianAddress, material, access) =>
      (guardianAddress, { material with guardianAddress, vaultIds := s.nextArray }, s.stores access)) :
    Sound (exec L s c).2 (latest L (⟨s, c, (exec L s c).2⟩ :: earlier)) (lastSave L (⟨s, c, (exec L s c).2⟩ :: earlier)) := by
  simp only [latest, lastSave, hsaves, hlinked]
  rw [hexec, hmade]
  cases made with
  | error e => exact h
  | ok made => exact h.keep made.2 access

theorem Sound.idle (h : Sound s' (latest L earlier) (lastSave L earlier)) {c : Call} (hmade : c.made L = none)
    (hlinked : linked L ⟨s, c, s'⟩ = none) (hsaves : saves L s c = none) :
    Sound s' (latest L (⟨s, c, s'⟩ :: earlier)) (lastSave L (⟨s, c, s'⟩ :: earlier)) := by
  simp only [latest, lastSave, hmade, hlinked, hsaves]
  exact h

theorem Sound.link (hnormal : ∀ a normalized, L.getAddress a = some normalized → L.getAddress normalized = some normalized)
    (h : Sound s (latest L earlier) (lastSave L earlier)) {guardianAddress : JsString} {vaultId : ℤ} {read save : Access}
    (hcareful : Careful L ⟨s, .linkVaultToKey guardianAddress vaultId read save,
      (s.linkVaultToKey L guardianAddress vaultId read save).2⟩ earlier) :
    let t : Step := ⟨s, .linkVaultToKey guardianAddress vaultId read save,
      (s.linkVaultToKey L guardianAddress vaultId read save).2⟩
    Sound t.post (latest L (t :: earlier)) (lastSave L (t :: earlier)) := by
  intro t
  cases hnormalized : L.getAddress guardianAddress with
  | none =>
    have hexec : s.linkVaultToKey L guardianAddress vaultId read save = (.error .library, s) := by
      simp only [Keyring.linkVaultToKey, hnormalized]
    have hpost : t.post = s := congrArg Prod.snd hexec
    have hlinked : linked L t = none := by
      simp only [linked, t, hnormalized, Option.map_none, ite_self]
    have hsaves : saves L t.pre t.label = none := by simp only [saves, t, hnormalized]
    exact Sound.idle (hpost ▸ h) rfl hlinked hsaves
  | some address =>
    have hget : s.getKeyForGuardian L address read = (.ok (s.lookup address read).1, (s.lookup address read).2) := by
      simp only [Keyring.getKeyForGuardian, hnormal _ _ hnormalized]
    have hmade : t.label.made L = none := rfl
    have hcases : ∃ result found, s.lookup address read = (result, found) ∧
        Sound found (latest L earlier) (lastSave L earlier) ∧
        ∀ key, result = some key → Found found (latest L earlier) (lastSave L earlier) address (some key) := by
      rcases hcareful address hnormalized with hcurrent | hvacant
      · have hfound := h.lookup hcurrent
        exact ⟨_, _, rfl, hfound.sound, fun key hkey => hkey ▸ hfound⟩
      · exact ⟨none, _, lookup_vacant hvacant, h.getDb _, nofun⟩
    obtain ⟨result, found, hlookup, hsound, hfound⟩ := hcases
    rw [hlookup] at hget
    cases result with
    | none =>
      have hexec : s.linkVaultToKey L guardianAddress vaultId read save =
          (.error (.error (js "No BLS key found for guardian " ++ guardianAddress)), found) := by
        simp only [Keyring.linkVaultToKey, hnormalized, hget]
      have hpost : t.post = found := congrArg Prod.snd hexec
      have hlinked : linked L t = none := by
        simp only [linked, t, exec, hexec, Except.isOk, Except.toBool, Bool.false_eq_true, if_false]
      have hsaves : saves L t.pre t.label = none := by simp only [saves, t, hnormalized, hlookup]
      exact Sound.idle (hpost ▸ hsound) rfl hlinked hsaves
    | some key =>
      have hkey := hfound key rfl
      by_cases hknown : vaultId ∈ found.arrays key.vaultIds
      · have hexec : s.linkVaultToKey L guardianAddress vaultId read save = (.ok none, found) := by
          simp only [Keyring.linkVaultToKey, hnormalized, hget, hknown, if_true]
        have hpost : t.post = found := congrArg Prod.snd hexec
        have hlinked : linked L t = some (address, vaultId) := by
          simp only [linked, t, exec, hexec, hnormalized, Except.isOk, Except.toBool, if_true, Option.map_some]
        have hsaves : saves L t.pre t.label = none := by
          simp only [saves, t, hnormalized, hlookup, hknown, if_true]
        have hsame : (latest L earlier address).map (withVault vaultId) = latest L earlier address := by
          rw [← hkey.latest]
          exact congrArg some (if_pos hknown)
        simp only [latest, lastSave, hmade, hlinked, hsaves]
        rw [hsame, Function.update_eq_self, hpost]
        exact hsound
      · have hexec : s.linkVaultToKey L guardianAddress vaultId read save =
            (.ok none, (found.push key vaultId).saveKey address key save) := by
          simp only [Keyring.linkVaultToKey, hnormalized, hget, hknown, if_false]
        have hpost : t.post = (found.push key vaultId).saveKey address key save := congrArg Prod.snd hexec
        have hlinked : linked L t = some (address, vaultId) := by
          simp only [linked, t, exec, hexec, hnormalized, Except.isOk, Except.toBool, if_true, Option.map_some]
        have hsaves : saves L t.pre t.label = some (address, key, found.stores save) := by
          simp only [saves, t, hnormalized, hlookup, hknown, if_false]
        simp only [latest, lastSave, hmade, hlinked, hsaves]
        rw [hpost]
        exact hkey.link hknown save

theorem Sound.next (hnormal : ∀ a normalized, L.getAddress a = some normalized → L.getAddress normalized = some normalized)
    (h : Sound s (latest L earlier) (lastSave L earlier)) {c : Call} (hcareful : Careful L ⟨s, c, (exec L s c).2⟩ earlier) :
    Sound (exec L s c).2 (latest L (⟨s, c, (exec L s c).2⟩ :: earlier)) (lastSave L (⟨s, c, (exec L s c).2⟩ :: earlier)) := by
  cases c with
  | generateKeyForGuardian guardianAddress random now access => exact h.make rfl rfl (fun _ => rfl) rfl
  | deriveFromMnemonic guardianAddress mnemonic accountIndex random now access =>
    exact h.make rfl rfl (fun _ => rfl) rfl
  | importPrivateKey guardianAddress privateKeyHex now access => exact h.make rfl rfl (fun _ => rfl) rfl
  | getKeyForGuardian guardianAddress access =>
    refine Sound.idle ?_ rfl rfl rfl
    cases hnormalized : L.getAddress guardianAddress with
    | none =>
      simp only [exec, Keyring.getKeyForGuardian, hnormalized]
      exact h
    | some address =>
      simp only [exec, Keyring.getKeyForGuardian, hnormalized]
      exact (h.lookup (hcareful address hnormalized)).sound
  | linkVaultToKey guardianAddress vaultId read save => exact Sound.link hnormal h hcareful

/-! ## Runs -/

abbrev KeyringRun (L : Libraries) : List Step → Keyring → Prop :=
  Run (fun s => ∃ indexedDB, s = { indexedDB }) fun s c s' => (exec L s c).2 = s'

variable {hist : List Step}

theorem sound (hnormal : ∀ a normalized, L.getAddress a = some normalized → L.getAddress normalized = some normalized)
    (h : KeyringRun L hist s) (hcareful : ∀ t earlier, t :: earlier <:+ hist → Careful L t earlier) :
    Sound s (latest L hist) (lastSave L hist) := by
  induction h with
  | start hinit =>
    obtain ⟨indexedDB, rfl⟩ := hinit
    have hunused : ∀ address r, ¬ Uses { indexedDB } (lastSave L []) address r := by
      rintro address r (⟨_, hkey, _⟩ | ⟨_, hkey, _⟩ | ⟨_, _, hlast, _⟩)
      · cases hkey
      · cases hkey
      · cases hlast
    exact ⟨nofun, fun _ _ => ⟨rfl, rfl, rfl⟩, nofun, fun a r hr => absurd hr (hunused a r),
      fun a _ r hr => absurd hr (hunused a r)⟩
  | next _ hstep ih =>
    subst hstep
    obtain ⟨hlast, hrest⟩ := forall_suffix_cons.mp hcareful
    exact (ih hrest).next hnormal hlast

theorem lastSave_none {address : JsString} (h : lastSave L hist address = none) :
    ∀ u ∈ hist, ∀ save, saves L u.pre u.label = some save → save.1 ≠ address := by
  induction hist with
  | nil => exact fun _ hu => absurd hu List.not_mem_nil
  | cons t earlier ih =>
    have hsplit : lastSave L earlier address = none ∧ ∀ save, saves L t.pre t.label = some save → save.1 ≠ address := by
      cases hsaves : saves L t.pre t.label with
      | none =>
        simp only [lastSave, hsaves] at h
        exact ⟨h, nofun⟩
      | some saved =>
        simp only [lastSave, hsaves] at h
        have hne : address ≠ saved.1 := by
          rintro rfl
          rw [Function.update_self] at h
          cases h
        rw [Function.update_of_ne hne] at h
        refine ⟨h, fun save hsave => ?_⟩
        cases hsave
        exact hne.symm
    intro u hu
    rcases List.mem_cons.mp hu with rfl | hu
    · exact hsplit.2
    · exact ih hsplit.1 u hu

/-- The keyring loses no key in every run whose look-ups are made with care. -/
theorem keeps_of_careful
    (hnormal : ∀ a normalized, L.getAddress a = some normalized → L.getAddress normalized = some normalized)
    (h : KeyringRun L hist s) (hcareful : ∀ t earlier, t :: earlier <:+ hist → Careful L t earlier) : Keeps L hist := by
  intro t earlier hsuffix guardianAddress access address hlabel hnormalized
  obtain ⟨hrun, hstep⟩ := h.suffix_step hsuffix
  have hbefore := sound hnormal hrun fun u early hearly =>
    hcareful u early (hearly.trans ((List.suffix_cons _ _).trans hsuffix))
  have hread := hcareful t earlier hsuffix
  rw [Careful, hlabel] at hread
  have hfound := hbefore.lookup (hread address hnormalized)
  have hexec : exec L t.pre t.label =
      (.ok (t.pre.lookup address access).1, (t.pre.lookup address access).2) := by
    simp only [hlabel, exec, Keyring.getKeyForGuardian, hnormalized]
  have hreturned : returned L t = .ok (latest L earlier address) := by
    rw [returned, ← hstep, hexec, ← hfound.latest]
    rfl
  refine ⟨hreturned, fun hnull => ?_⟩
  have hlatest : latest L earlier address = none := Except.ok.inj (hreturned.symm.trans hnull)
  exact lastSave_none (hbefore.latest_none hlatest)

/-- Libraries that normalise nothing and copy what they sign. -/
def plainLibraries : Libraries where
  getAddress := some
  toLowerCase := id
  pbkdf2 := fun password _ => password
  keygen := fun seed => some (seed, seed)
  getPublicKey := some
  signPossession := fun publicKey _ => some publicKey

/-- Newest first, without IndexedDB: the key of the first guardian is looked up after the second has one. -/
def forgotten : List Call :=
  [.getKeyForGuardian (js "0xA1") {}, .generateKeyForGuardian (js "0xB2") [2] 20 {},
    .generateKeyForGuardian (js "0xA1") [1] 10 {}]

/-- It is null. -/
theorem forgotten_loses :
    KeyringRun plainLibraries (executed (fun s c => (exec plainLibraries s c).2) { indexedDB := false } forgotten).1
        (executed (fun s c => (exec plainLibraries s c).2) { indexedDB := false } forgotten).2 ∧
      ¬ Keeps plainLibraries (executed (fun s c => (exec plainLibraries s c).2) { indexedDB := false } forgotten).1 := by
  refine ⟨executed_run ⟨false, rfl⟩ (fun _ _ => by rfl) _, fun hkeeps => ?_⟩
  have hlooked := (hkeeps _ _ (List.suffix_refl _) (js "0xA1") {} (js "0xA1") rfl rfl).1
  exact absurd hlooked (by decide +kernel)

/-- Newest first: the key of the first guardian is read in memory, after a link that the database did not take, and
that of the second in the database. -/
def remembered : List Call :=
  [.getKeyForGuardian (js "0xA1") { reads := false }, .getKeyForGuardian (js "0xB2") {},
    .generateKeyForGuardian (js "0xC3") [3] 30 {}, .linkVaultToKey (js "0xB2") 7 {} {},
    .generateKeyForGuardian (js "0xB2") [2] 20 {}, .linkVaultToKey (js "0xA1") 5 {} { writes := false },
    .generateKeyForGuardian (js "0xA1") [1] 10 {}]

theorem remembered_keeps :
    Keeps plainLibraries (executed (fun s c => (exec plainLibraries s c).2) { indexedDB := true } remembered).1 ∧
      (executed (fun s c => (exec plainLibraries s c).2) { indexedDB := true } remembered).1.head?.map
        (fun t => (returned plainLibraries t).toOption.map (Option.map (·.vaultIds))) = some (some (some [5])) := by
  have hnormal : ∀ a normalized : JsString, plainLibraries.getAddress a = some normalized →
      plainLibraries.getAddress normalized = some normalized := fun _ _ _ => rfl
  exact ⟨keeps_of_careful hnormal (executed_run ⟨true, rfl⟩ (fun _ _ => by rfl) _) (by decide +kernel), by decide +kernel⟩

end ChainGuard.OffChain.BlsKeyring
