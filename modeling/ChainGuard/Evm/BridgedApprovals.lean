import ChainGuard.Evm.AxelarBridge

/-! Approvals that come over the bridge: who sent them, and how often each is received. The sender of an
approval is not checked, and a message is known by its content alone. -/
namespace ChainGuard.Evm.AxelarBridge
open Guarded History
set_option autoImplicit false

variable {chain : Chain} {dep : Deployment} {M : Set Message} {s s' : State} {l : Label}
  {hist : List (Transition State Label)} {b b' : Bridge} {m m' : Message} {logs : List Event}

/-! ## Payloads -/

theorem encodeApproval_length (a : Approval) (timestamp : ℕ) : (encodeApproval a timestamp).length = 160 :=
  abiEncode_length _

theorem decodeApproval_encode (a : Approval) (timestamp : ℕ) :
    decodeApproval (encodeApproval a timestamp) = some a := by
  have hguardian : a.guardian.toNat < 2 ^ 256 := a.guardian.isLt.trans (by decide)
  have htype : a.approvalType.toNat < 2 ^ 256 := a.approvalType.isLt.trans (by decide)
  have h0 : Abi.wordAt (encodeApproval a timestamp) 0 = a.vaultGID.toNat :=
    wordAt_abiEncode [] _ a.vaultGID.isLt
  have h32 : Abi.wordAt (encodeApproval a timestamp) 32 = a.guardian.toNat :=
    wordAt_abiEncode [_] _ hguardian
  have h64 : Abi.wordAt (encodeApproval a timestamp) 64 = a.approvalType.toNat :=
    wordAt_abiEncode [_, _] _ htype
  have h96 : Abi.wordAt (encodeApproval a timestamp) 96 = a.nonce.toNat :=
    wordAt_abiEncode [_, _, _] _ a.nonce.isLt
  have hlong : ¬ (encodeApproval a timestamp).length < 160 := by rw [encodeApproval_length]; decide
  simp [decodeApproval, hlong, h0, h32, h64, h96, a.approvalType.isLt]

/-! ## Hashes -/

/-- What is hashed to tell a message from others. -/
def Message.preimage (chain : Chain) (m : Message) : Bytes :=
  messagePreimage (chain.keccak256 (commandPreimage m.sourceChain m.sourceAddress m.payload)) m.sourceChain
    m.sourceAddress m.payload

def Message.hash (chain : Chain) (m : Message) : Bytes32 := chain.keccak256 (m.preimage chain)

/-- No two of the strings that are hashed for the messages have one hash, and no address hashes to zero. -/
structure CollisionFree (chain : Chain) (dep : Deployment) (M : Set Message) : Prop where
  sources : Set.InjOn chain.keccak256
    (Set.range dep.name ∪ Set.range dep.address ∪ Message.sourceChain '' M ∪ Message.sourceAddress '' M)
  nonzero : ∀ m ∈ M, chain.keccak256 m.sourceAddress ≠ 0
  messages : Set.InjOn chain.keccak256 (Message.preimage chain '' M)

theorem messagePreimage_inj {commandId commandId' : Bytes32} {sourceChain sourceAddress payload payload' : Bytes}
    (hlength : payload.length = payload'.length)
    (h : messagePreimage commandId sourceChain sourceAddress payload =
      messagePreimage commandId' sourceChain sourceAddress payload') : payload = payload' := by
  have htails : [Abi.Value.word commandId.toNat, .bytes sourceChain, .bytes sourceAddress].flatMap Abi.Value.tail =
      [Abi.Value.word commandId'.toNat, .bytes sourceChain, .bytes sourceAddress].flatMap Abi.Value.tail := by
    simp only [List.flatMap_cons, Abi.Value.tail]
  unfold messagePreimage at h
  have hsplit : Abi.encode ([.word commandId.toNat, .bytes sourceChain, .bytes sourceAddress] ++ [.bytes payload]) =
      Abi.encode ([.word commandId'.toNat, .bytes sourceChain, .bytes sourceAddress] ++ [.bytes payload']) := h
  have hcount : [Abi.Value.word commandId.toNat, .bytes sourceChain, .bytes sourceAddress].length =
      [Abi.Value.word commandId'.toNat, .bytes sourceChain, .bytes sourceAddress].length := rfl
  exact Abi.encode_last_inj hcount htails hlength hsplit

/-! ## States of a run -/

def Message.IsApproval (m : Message) : Prop := ∃ a timestamp, m.payload = encodeApproval a timestamp

/-- What holds in a run besides the processed messages. -/
structure Sound (chain : Chain) (dep : Deployment) (M : Set Message) (s : State) : Prop where
  within : ∀ m ∈ s.sent, m ∈ M
  approvals : ∀ m ∈ s.sent, ∀ x, m.From dep x → m.IsApproval
  trusted : ∀ x, (s.bridges x).trustedSourceAddressHash = Function.update (fun _ => 0)
    (chain.keccak256 (dep.name x.other)) (chain.keccak256 (dep.address x.other))

def Label.Within (dep : Deployment) (M : Set Message) : Label → Prop
  | .send x env destinationChain destinationAddress a =>
    dep.message x (sendApproval env destinationChain destinationAddress a).1 ∈ M
  | .foreign m => m ∈ M
  | .deliver _ _ _ => True

/-- What an accepted message requires and does. -/
structure Receives (chain : Chain) (b : Bridge) (m : Message) (b' : Bridge) (a : Approval) : Prop where
  trusted : b.trustedSourceAddressHash (chain.keccak256 m.sourceChain) = chain.keccak256 m.sourceAddress
  fresh : b.processedMessages (m.hash chain) = false
  decoded : decodeApproval m.payload = some a
  bridge : b' = { b with processedMessages := Function.update b.processedMessages (m.hash chain) true }

theorem receive_ok : receive chain b m = .ok (b', logs) ↔
    ∃ a, Receives chain b m b' a ∧ logs = [.CrossChainApprovalReceived a m.sourceChain] := by
  simp only [receive, execute, executeCommand, revertIf_bind, not_not, ne_eq, not_true_eq_false, not_false_eq_true,
    true_and, Bool.not_eq_true]
  constructor
  · rintro ⟨htrusted, hfresh, h⟩
    split at h
    · next a hdecoded =>
      simp only [pure_ok, Prod.mk.injEq] at h
      exact ⟨a, ⟨htrusted, hfresh, hdecoded, h.1.symm⟩, h.2.symm⟩
    · cases h
  · rintro ⟨a, ⟨htrusted, hfresh, hdecoded, rfl⟩, rfl⟩
    refine ⟨htrusted, hfresh, ?_⟩
    rw [hdecoded]
    rfl

theorem Trusting.sound (h : Trusting chain dep s) : Sound chain dep M s where
  within m hm := by
    rw [h.sent] at hm
    cases hm
  approvals m hm := by
    rw [h.sent] at hm
    cases hm
  trusted x := by
    obtain ⟨env, logs, hset⟩ := h.bridges x
    simp only [setTrustedSource, revertIf_bind, pure_ok, Prod.mk.injEq] at hset
    rw [← hset.2.1]

theorem Steps.sound (h : Steps chain dep s l s') (hl : l.Within dep M) (hs : Sound chain dep M s) :
    Sound chain dep M s' := by
  obtain ⟨hwithin, happrovals, htrusted⟩ := hs
  cases h with
  | @send x env destinationChain destinationAddress a =>
    refine ⟨?_, ?_, htrusted⟩
    · intro m hm
      rcases List.mem_append.mp hm with hm | hm
      · exact hwithin m hm
      · obtain rfl := List.mem_singleton.mp hm
        exact hl
    · intro m hm x hfrom
      rcases List.mem_append.mp hm with hm | hm
      · exact happrovals m hm x hfrom
      · obtain rfl := List.mem_singleton.mp hm
        exact ⟨a, env.timestamp, by simp only [Deployment.message, sendApproval]⟩
  | foreign hforeign =>
    refine ⟨?_, ?_, htrusted⟩
    · intro m hm
      rcases List.mem_append.mp hm with hm | hm
      · exact hwithin m hm
      · obtain rfl := List.mem_singleton.mp hm
        exact hl
    · intro m hm x hfrom
      rcases List.mem_append.mp hm with hm | hm
      · exact happrovals m hm x hfrom
      · obtain rfl := List.mem_singleton.mp hm
        exact absurd hfrom (hforeign x)
  | @received x _ _ _ _ _ _ hreceive =>
    refine ⟨hwithin, happrovals, fun y => ?_⟩
    obtain ⟨a, hreceives, _⟩ := receive_ok.mp hreceive
    by_cases hy : y = x
    · subst hy
      dsimp only
      rw [Function.update_self, hreceives.bridge, htrusted]
    · dsimp only
      rw [Function.update_of_ne hy, htrusted]
  | refused _ _ _ => exact ⟨hwithin, happrovals, htrusted⟩

theorem Sound.trusts_iff (hs : Sound chain dep M s) (hfree : CollisionFree chain dep M) (hm : m ∈ M) (x : Side) :
    (s.bridges x).trustedSourceAddressHash (chain.keccak256 m.sourceChain) = chain.keccak256 m.sourceAddress ↔
      m.From dep x.other := by
  have hname : dep.name x.other ∈ Set.range dep.name ∪ Set.range dep.address ∪ Message.sourceChain '' M ∪
      Message.sourceAddress '' M := .inl (.inl (.inl ⟨_, rfl⟩))
  have haddress : dep.address x.other ∈ Set.range dep.name ∪ Set.range dep.address ∪ Message.sourceChain '' M ∪
      Message.sourceAddress '' M := .inl (.inl (.inr ⟨_, rfl⟩))
  rw [hs.trusted, Message.From]
  constructor
  · intro htrusted
    by_cases hchain : chain.keccak256 m.sourceChain = chain.keccak256 (dep.name x.other)
    · rw [hchain, Function.update_self] at htrusted
      exact ⟨hfree.sources (.inl (.inr ⟨m, hm, rfl⟩)) hname hchain,
        hfree.sources (.inr ⟨m, hm, rfl⟩) haddress htrusted.symm⟩
    · rw [Function.update_of_ne hchain] at htrusted
      exact absurd htrusted.symm (hfree.nonzero m hm)
  · rintro ⟨hchain, haddress⟩
    rw [hchain, haddress, Function.update_self]

/-! ## Deliveries and receptions -/

/-- The delivery, to one instance, of a message of the other: its position and its content. -/
def delivered (chain : Chain) (dep : Deployment) (t : Transition State Label) : Option (ℕ × (Side × Bytes32)) :=
  match t.label with
  | .deliver x position m => if m.From dep x.other then some (position, x, m.hash chain) else none
  | _ => none

/-- The approval for which an instance emits `CrossChainApprovalReceived`. -/
def received (chain : Chain) (t : Transition State Label) : Option (Side × Approval) :=
  match t.label with
  | .deliver x _ m =>
    match receive chain (t.pre.bridges x) m with
    | .ok (_, [.CrossChainApprovalReceived a _]) => some (x, a)
    | _ => none
  | _ => none

def processed (chain : Chain) (t : Transition State Label) : Option (Side × Bytes32) :=
  match t.label with
  | .deliver x _ m => if (received chain t).isSome then some (x, m.hash chain) else none
  | _ => none

def isProcessed (s : State) (c : Side × Bytes32) : Bool := (s.bridges c.1).processedMessages c.2

theorem received_deliver {t : Transition State Label} {x y : Side} {position : ℕ} {a : Approval}
    (hl : t.label = .deliver x position m) :
    received chain t = some (y, a) ↔ y = x ∧ ∃ b', Receives chain (t.pre.bridges x) m b' a := by
  rw [received, hl]
  dsimp only
  cases hreceive : receive chain (t.pre.bridges x) m with
  | ok out =>
    obtain ⟨b', logs⟩ := out
    obtain ⟨a', hreceives, rfl⟩ := receive_ok.mp hreceive
    simp only [Option.some.injEq, Prod.mk.injEq]
    constructor
    · rintro ⟨rfl, rfl⟩
      exact ⟨rfl, b', hreceives⟩
    · rintro ⟨rfl, b'', hreceives'⟩
      exact ⟨rfl, Option.some.inj (hreceives.decoded.symm.trans hreceives'.decoded)⟩
  | error e =>
    refine iff_of_false (by simp) ?_
    rintro ⟨_, b', hreceives⟩
    have hok := receive_ok.mpr ⟨a, hreceives, rfl⟩
    rw [hreceive] at hok
    cases hok

theorem processed_deliver {t : Transition State Label} {x : Side} {position : ℕ} (hl : t.label = .deliver x position m)
    (c : Side × Bytes32) :
    processed chain t = some c ↔ c = (x, m.hash chain) ∧ ∃ b' a, Receives chain (t.pre.bridges x) m b' a := by
  rw [processed, hl]
  simp only [Option.ite_none_right_eq_some, Option.some.injEq, Option.isSome_iff_exists]
  constructor
  · rintro ⟨⟨⟨y, a⟩, hreceived⟩, rfl⟩
    obtain ⟨_, b', hreceives⟩ := (received_deliver hl).mp hreceived
    exact ⟨rfl, b', a, hreceives⟩
  · rintro ⟨rfl, b', a, hreceives⟩
    exact ⟨⟨(x, a), (received_deliver hl).mpr ⟨rfl, b', hreceives⟩⟩, rfl⟩

theorem Steps.effect (h : Steps chain dep s l s') : Spending.Effect isProcessed (processed chain) ⟨s, l, s'⟩ := by
  cases h with
  | send => exact .kept rfl rfl
  | foreign _ => exact .kept rfl rfl
  | @received x position m b' _ _ _ hreceive =>
    obtain ⟨a, hreceives, _⟩ := receive_ok.mp hreceive
    refine .spends (x, m.hash chain) ((processed_deliver rfl _).mpr ⟨rfl, b', a, hreceives⟩) hreceives.fresh ?_
    funext ⟨y, c⟩
    by_cases hy : y = x
    · subst hy
      by_cases hc : c = m.hash chain
      · subst hc
        simp [isProcessed, hreceives.bridge]
      · simp [isProcessed, hreceives.bridge, hc, Function.update_of_ne]
    · simp [isProcessed, hy, Function.update_of_ne]
  | @refused x position m e _ _ hreceive =>
    refine .kept ?_ rfl
    rw [Option.eq_none_iff_forall_ne_some]
    intro c hc
    obtain ⟨_, b', a, hreceives⟩ := (processed_deliver rfl c).mp hc
    have hok := receive_ok.mpr ⟨a, hreceives, rfl⟩
    dsimp only at hok
    rw [hreceive] at hok
    cases hok

theorem delivered_eq_some {t : Transition State Label} {d : ℕ × (Side × Bytes32)} :
    delivered chain dep t = some d ↔ ∃ x position m, t.label = .deliver x position m ∧ m.From dep x.other ∧
      d = (position, x, m.hash chain) := by
  rw [delivered]
  cases t.label with
  | deliver x position m =>
    simp only [Option.ite_none_right_eq_some, Option.some.injEq, Label.deliver.injEq]
    constructor
    · rintro ⟨hfrom, rfl⟩
      exact ⟨x, position, m, ⟨rfl, rfl, rfl⟩, hfrom, rfl⟩
    · rintro ⟨_, _, _, ⟨rfl, rfl, rfl⟩, hfrom, rfl⟩
      exact ⟨hfrom, rfl⟩
  | send _ _ _ _ _ => simp
  | foreign _ => simp

theorem mem_sent_of_deliver {x : Side} {position : ℕ} (h : Steps chain dep s (.deliver x position m) s') :
    s.sent[position]? = some m ∧ m.To dep x := by
  cases h with
  | received hsent hto _ => exact ⟨hsent, hto⟩
  | refused hsent hto _ => exact ⟨hsent, hto⟩

theorem Sound.receives_or (hs : Sound chain dep M s) (hfree : CollisionFree chain dep M) {x : Side}
    (hm : m ∈ s.sent) (hfrom : m.From dep x.other) :
    (∃ b' a, Receives chain (s.bridges x) m b' a) ∨ isProcessed s (x, m.hash chain) = true := by
  obtain ⟨a, timestamp, hpayload⟩ := hs.approvals m hm _ hfrom
  have htrusted := (hs.trusts_iff hfree (hs.within m hm) x).mpr hfrom
  cases hprocessed : (s.bridges x).processedMessages (m.hash chain) with
  | false =>
    refine .inl ⟨_, a, htrusted, hprocessed, ?_, rfl⟩
    rw [hpayload, decodeApproval_encode]
  | true => exact .inr hprocessed

theorem Steps.delivers (h : Steps chain dep s l s') (hs : Sound chain dep M s) (hfree : CollisionFree chain dep M) :
    Spending.Delivers isProcessed (processed chain) (delivered chain dep) ⟨s, l, s'⟩ where
  spends := by
    rintro n c hdelivered
    obtain ⟨x, position, m, hl, hfrom, heq⟩ := delivered_eq_some.mp hdelivered
    obtain ⟨rfl, rfl⟩ := Prod.mk.inj heq
    dsimp only at hl
    subst hl
    have hm := List.mem_of_getElem? (mem_sent_of_deliver h).1
    refine (hs.receives_or hfree hm hfrom).imp_left fun hreceives => ?_
    exact (processed_deliver rfl _).mpr ⟨rfl, hreceives⟩
  delivered_of_spent := by
    intro c hc
    cases l with
    | deliver x position m =>
      obtain ⟨rfl, b', a, hreceives⟩ := (processed_deliver rfl c).mp hc
      have hm := List.mem_of_getElem? (mem_sent_of_deliver h).1
      have hfrom := (hs.trusts_iff hfree (hs.within m hm) x).mp hreceives.trusted
      exact ⟨position, delivered_eq_some.mpr ⟨x, position, m, rfl, hfrom, rfl⟩⟩
    | send _ _ _ _ _ => cases hc
    | foreign _ => cases hc

/-! ## Runs -/

abbrev SoundStep (chain : Chain) (dep : Deployment) (M : Set Message) (s : State) (l : Label) (s' : State) : Prop :=
  Sound chain dep M s ∧ l.Within dep M ∧ Steps chain dep s l s'

theorem sound_run (h : BridgeRun chain dep hist s) (hM : ∀ t ∈ hist, t.label.Within dep M) :
    Run (Trusting chain dep) (SoundStep chain dep M) hist s ∧ Sound chain dep M s := by
  refine h.guarded (C := fun t => t.label.Within dep M) (fun _ => Trusting.sound) ?_ hM
  exact fun s l s' hs hl hstep => hstep.sound hl hs

theorem sent_of_delivered (h : BridgeRun chain dep hist s) {t : Transition State Label} (ht : t ∈ hist) {x : Side}
    {position : ℕ} (hl : t.label = .deliver x position m) : s.sent[position]? = some m ∧ m.To dep x := by
  refine h.relates (R := fun hist s => ∀ t ∈ hist, ∀ x position m, t.label = .deliver x position m →
    s.sent[position]? = some m ∧ m.To dep x) ?_ ?_ t ht x position m hl
  · exact fun s _ t ht => absurd ht List.not_mem_nil
  · intro hist s l s' _ ih hstep t ht x position m hl
    have hkept : ∀ m, s.sent[position]? = some m → s'.sent[position]? = some m := by
      intro m hm
      have hlt := (List.getElem?_eq_some_iff.mp hm).1
      cases hstep with
      | send => rw [List.getElem?_append_left hlt, hm]
      | foreign _ => rw [List.getElem?_append_left hlt, hm]
      | received _ _ _ => exact hm
      | refused _ _ _ => exact hm
    rcases List.mem_cons.mp ht with rfl | ht
    · dsimp only at hl
      subst hl
      obtain ⟨hsent, hto⟩ := mem_sent_of_deliver hstep
      exact ⟨hkept m hsent, hto⟩
    · obtain ⟨hsent, hto⟩ := ih t ht x position m hl
      exact ⟨hkept m hsent, hto⟩

theorem side_eq_of_to {x y : Side} (hx : m.To dep x) (hy : m.To dep y) : x = y := by
  have hname : dep.name x = dep.name y := hx.1.symm.trans hy.1
  cases x with
  | one =>
    cases y with
    | one => rfl
    | two => exact absurd hname dep.names_ne
  | two =>
    cases y with
    | one => exact absurd hname.symm dep.names_ne
    | two => rfl

theorem ticketOf (h : BridgeRun chain dep hist s) : Spending.TicketOf (delivered chain dep) hist := by
  intro t ht u hu a b ha hb hsame
  obtain ⟨x, position, m, hl, _, rfl⟩ := delivered_eq_some.mp ha
  obtain ⟨y, position', m', hl', _, rfl⟩ := delivered_eq_some.mp hb
  obtain rfl : position = position' := hsame
  obtain ⟨hsent, hto⟩ := sent_of_delivered h ht hl
  obtain ⟨hsent', hto'⟩ := sent_of_delivered h hu hl'
  obtain rfl : m = m' := Option.some.inj (hsent.symm.trans hsent')
  rw [side_eq_of_to hto hto']

/-! ## Authenticity -/

/-- The guardian itself called `sendApproval` on the instance, with this approval. -/
def GuardianSent (x : Side) (a : Approval) (hist : List (Transition State Label)) : Prop :=
  ∃ u ∈ hist, ∃ env destinationChain destinationAddress,
    u.label = .send x env destinationChain destinationAddress a ∧ env.sender = a.guardian

def Authentic (chain : Chain) (hist : List (Transition State Label)) : Prop :=
  ∀ t earlier, t :: earlier <:+ hist → ∀ x a, received chain t = some (x, a) → GuardianSent x.other a earlier

/-- Every approval of the other instance that is delivered was sent by its guardian too. -/
def GuardiansSend (dep : Deployment) (hist : List (Transition State Label)) : Prop :=
  ∀ t earlier, t :: earlier <:+ hist → ∀ x position m a, t.label = .deliver x position m → m.From dep x.other →
    decodeApproval m.payload = some a → GuardianSent x.other a earlier

theorem GuardianSent.mono {x : Side} {a : Approval} {earlier : List (Transition State Label)}
    (h : GuardianSent x a earlier) (hsub : earlier ⊆ hist) : GuardianSent x a hist := by
  obtain ⟨u, hu, hsent⟩ := h
  exact ⟨u, hsub hu, hsent⟩

theorem payload_eq_of_hash (hs : Sound chain dep M s) (hfree : CollisionFree chain dep M) {x : Side}
    (hm : m ∈ s.sent) (hm' : m' ∈ s.sent) (hfrom : m.From dep x) (hfrom' : m'.From dep x)
    (hhash : m.hash chain = m'.hash chain) : m.payload = m'.payload := by
  have hpreimage : m.preimage chain = m'.preimage chain := hfree.messages ⟨m, hs.within m hm, rfl⟩ ⟨m', hs.within m' hm', rfl⟩ hhash
  obtain ⟨a, timestamp, hp⟩ := hs.approvals m hm x hfrom
  obtain ⟨a', timestamp', hp'⟩ := hs.approvals m' hm' x hfrom'
  have hlength : m.payload.length = m'.payload.length := by
    rw [hp, hp', encodeApproval_length, encodeApproval_length]
  rw [Message.preimage, Message.preimage, hfrom.1, hfrom.2, hfrom'.1, hfrom'.2] at hpreimage
  exact messagePreimage_inj hlength hpreimage

theorem not_processed_initially (h : Trusting chain dep s) : isProcessed s = fun _ => false := by
  funext ⟨x, c⟩
  obtain ⟨env, logs, hset⟩ := h.bridges x
  simp only [setTrustedSource, revertIf_bind, pure_ok, Prod.mk.injEq] at hset
  rw [isProcessed, ← hset.2.1]

theorem processed_isSome {t : Transition State Label} {x : Side} {position : ℕ} (hl : t.label = .deliver x position m) :
    (processed chain t).isSome = (received chain t).isSome := by
  rw [processed, hl]
  dsimp only
  cases received chain t with
  | some r => rfl
  | none => rfl

section Runs
variable (hfree : CollisionFree chain dep M) (h : BridgeRun chain dep hist s) (hM : ∀ t ∈ hist, t.label.Within dep M)
include hfree h hM

theorem from_of_received {t : Transition State Label} (ht : t ∈ hist) {x : Side} {position : ℕ}
    (hl : t.label = .deliver x position m) (hreceived : (received chain t).isSome = true) : m.From dep x.other := by
  obtain ⟨⟨y, a⟩, hreceived⟩ := Option.isSome_iff_exists.mp hreceived
  obtain ⟨rfl, b', hreceives⟩ := (received_deliver hl).mp hreceived
  obtain ⟨hrun, _⟩ := sound_run h hM
  obtain ⟨_, _, _, hsound, _, hstep⟩ := hrun.of_mem ht
  rw [hl] at hstep
  have hm := hsound.within m (List.mem_of_getElem? (mem_sent_of_deliver hstep).1)
  exact (hsound.trusts_iff hfree hm _).mp hreceives.trusted

theorem received_by {t : Transition State Label} (ht : t ∈ hist) {x : Side} {position : ℕ}
    (hl : t.label = .deliver x position m) (hfrom : m.From dep x.other) {a : Approval}
    (ha : decodeApproval m.payload = some a) : ∃ u ∈ hist, received chain u = some (x, a) := by
  obtain ⟨hrun, hsound⟩ := sound_run h hM
  have hdelivered : delivered chain dep t = some (position, x, m.hash chain) :=
    delivered_eq_some.mpr ⟨x, position, m, hl, hfrom, rfl⟩
  obtain ⟨u, hu, d, hreceived, hsame⟩ := Spending.received_of_delivered (fun _ => not_processed_initially)
    (fun _ _ _ hstep => hstep.2.2.effect) (fun _ _ _ hstep => hstep.2.2.delivers hstep.1 hfree) hrun ht hdelivered
  obtain ⟨_, _, _, hsound', _, hstep⟩ := hrun.of_mem hu
  obtain ⟨hprocessed, hd⟩ := Spending.receivedOf_eq_some (hstep.delivers hsound' hfree) hreceived
  obtain ⟨y, position', m', hl', hfrom', rfl⟩ := delivered_eq_some.mp hd
  obtain ⟨rfl, hhash⟩ := Prod.mk.inj hsame
  obtain ⟨_, b', a', hreceives⟩ := (processed_deliver hl' _).mp hprocessed
  have hm := List.mem_of_getElem? (sent_of_delivered h ht hl).1
  have hm' := List.mem_of_getElem? (sent_of_delivered h hu hl').1
  have hpayload := payload_eq_of_hash hsound hfree hm' hm hfrom' hfrom hhash
  refine ⟨u, hu, (received_deliver hl').mpr ⟨rfl, b', ?_⟩⟩
  obtain rfl : a = a' := Option.some.inj (ha.symm.trans (hpayload ▸ hreceives.decoded))
  exact hreceives

theorem authentic_iff : Authentic chain hist ↔ GuardiansSend dep hist := by
  constructor
  · intro hauthentic t earlier hsuffix x position m a hl hfrom ha
    have hsuffix' : ∀ u ∈ t :: earlier, ∃ before, u :: before <:+ t :: earlier ∧ u :: before <:+ hist := by
      intro u hu
      obtain ⟨later, before, heq⟩ := List.append_of_mem hu
      have hsuf : u :: before <:+ t :: earlier := ⟨later, heq.symm⟩
      exact ⟨before, hsuf, hsuf.trans hsuffix⟩
    obtain ⟨hrun, hstep⟩ := h.suffix_step hsuffix
    have hM' : ∀ u ∈ t :: earlier, u.label.Within dep M := fun u hu => hM u (hsuffix.subset hu)
    have hrun' : BridgeRun chain dep (t :: earlier) t.post := hrun.next hstep
    obtain ⟨u, hu, hreceived⟩ := received_by hfree hrun' hM' (List.mem_cons_self ..) hl hfrom ha
    obtain ⟨before, hin, hsuf⟩ := hsuffix' u hu
    refine (hauthentic u before hsuf x a hreceived).mono fun v hv => ?_
    rcases List.suffix_cons_iff.mp hin with heq | hin
    · exact (List.cons.inj heq).2 ▸ hv
    · exact hin.subset (List.mem_cons_of_mem _ hv)
  · intro hguardians t earlier hsuffix x a hreceived
    have ht : t ∈ hist := hsuffix.subset (List.mem_cons_self ..)
    cases hl : t.label with
    | deliver y position m =>
      have hfrom := from_of_received hfree h hM ht hl (by rw [hreceived, Option.isSome_some])
      obtain ⟨rfl, b', hreceives⟩ := (received_deliver hl).mp hreceived
      exact hguardians t earlier hsuffix _ position m a hl hfrom hreceives.decoded
    | send _ _ _ _ _ => simp [received, hl] at hreceived
    | foreign _ => simp [received, hl] at hreceived

/-! ## Receptions -/

/-- The call of `sendApproval` whose message is at the position is delivered to the other instance. -/
def Delivered (dep : Deployment) (hist : List (Transition State Label)) (position : ℕ) : Prop :=
  ∃ t ∈ hist, ∃ x m, t.label = .deliver x position m ∧ m.From dep x.other

def Received (chain : Chain) (hist : List (Transition State Label)) (position : ℕ) : Prop :=
  ∃ t ∈ hist, ∃ x m, t.label = .deliver x position m ∧ (received chain t).isSome = true

def BothReceived (chain : Chain) (dep : Deployment) (hist : List (Transition State Label)) : Prop :=
  ∀ i j, i ≠ j → Delivered dep hist i → Delivered dep hist j → Received chain hist i ∧ Received chain hist j

/-- A call's message is received once. -/
def ReceivedOnce (chain : Chain) (hist : List (Transition State Label)) : Prop :=
  ∀ t earlier, t :: earlier <:+ hist → ∀ u ∈ earlier, ∀ x y position m m', t.label = .deliver x position m →
    u.label = .deliver y position m' → (received chain t).isSome = true → (received chain u).isSome = false

/-- Different calls of one instance that are delivered differ in the approval or in the time of their block. -/
def DistinctPayloads (dep : Deployment) (hist : List (Transition State Label)) : Prop :=
  ∀ t ∈ hist, ∀ u ∈ hist, ∀ x i j m m', t.label = .deliver x i m → u.label = .deliver x j m' →
    m.From dep x.other → m'.From dep x.other → i ≠ j → m.payload ≠ m'.payload

theorem received_once : ReceivedOnce chain hist := by
  obtain ⟨hrun, _⟩ := sound_run h hM
  have honce := Spending.receives_once (fun _ => not_processed_initially) (fun _ _ _ hstep => hstep.2.2.effect)
    (fun _ _ _ hstep => hstep.2.2.delivers hstep.1 hfree) hrun (ticketOf h)
  intro t earlier hsuffix u hu x y position m m' hl hl' ht
  by_contra hu'
  rw [Bool.not_eq_false] at hu'
  have hmem : t ∈ hist := hsuffix.subset (List.mem_cons_self ..)
  have hmem' : u ∈ hist := hsuffix.subset (List.mem_cons_of_mem _ hu)
  have hfrom := from_of_received hfree h hM hmem hl ht
  have hfrom' := from_of_received hfree h hM hmem' hl' hu'
  refine honce t earlier hsuffix u hu (position, y, m'.hash chain) (position, x, m.hash chain) ?_ ?_ rfl
  · rw [Spending.receivedOf, processed_isSome hl', if_pos hu']
    exact delivered_eq_some.mpr ⟨y, position, m', hl', hfrom', rfl⟩
  · rw [Spending.receivedOf, processed_isSome hl, if_pos ht]
    exact delivered_eq_some.mpr ⟨x, position, m, hl, hfrom, rfl⟩

theorem bothReceived_iff_allReceived :
    BothReceived chain dep hist ↔ Spending.AllReceived (processed chain) (delivered chain dep) hist := by
  constructor
  · intro hboth t ht u hu a b ha hb hne
    have hown : ∀ v ∈ hist, ∀ d, delivered chain dep v = some d → Received chain hist d.1 →
        ∃ v' ∈ hist, Spending.receivedOf (processed chain) (delivered chain dep) v' = some d := by
      rintro v hv d hd ⟨v', hv', x, m, hl, hreceived⟩
      have hd' : delivered chain dep v' = some (d.1, x, m.hash chain) :=
        delivered_eq_some.mpr ⟨x, d.1, m, hl, from_of_received hfree h hM hv' hl hreceived, rfl⟩
      refine ⟨v', hv', ?_⟩
      rw [Spending.receivedOf, processed_isSome hl, if_pos hreceived, hd']
      exact congrArg some (Prod.ext rfl (ticketOf h v' hv' v hv _ d hd' hd rfl))
    obtain ⟨x, i, m, hl, hfrom, rfl⟩ := delivered_eq_some.mp ha
    obtain ⟨y, j, m', hl', hfrom', rfl⟩ := delivered_eq_some.mp hb
    obtain ⟨hi, hj⟩ := hboth i j hne ⟨t, ht, x, m, hl, hfrom⟩ ⟨u, hu, y, m', hl', hfrom'⟩
    exact ⟨hown t ht _ ha hi, hown u hu _ hb hj⟩
  · rintro hall i j hne ⟨t, ht, x, m, hl, hfrom⟩ ⟨u, hu, y, m', hl', hfrom'⟩
    have hown : ∀ n c, (∃ v ∈ hist, Spending.receivedOf (processed chain) (delivered chain dep) v = some (n, c)) →
        Received chain hist n := by
      rintro n c ⟨v, hv, hreceived⟩
      rw [Spending.receivedOf, Option.ite_none_right_eq_some] at hreceived
      obtain ⟨hsome, hdelivered⟩ := hreceived
      obtain ⟨z, k, m'', hl'', _, heq⟩ := delivered_eq_some.mp hdelivered
      obtain ⟨rfl, _⟩ := Prod.mk.inj heq
      rw [processed_isSome hl''] at hsome
      exact ⟨v, hv, z, m'', hl'', hsome⟩
    obtain ⟨hi, hj⟩ := hall t ht u hu (i, x, m.hash chain) (j, y, m'.hash chain)
      (delivered_eq_some.mpr ⟨x, i, m, hl, hfrom, rfl⟩) (delivered_eq_some.mpr ⟨y, j, m', hl', hfrom', rfl⟩) hne
    exact ⟨hown _ _ hi, hown _ _ hj⟩

theorem distinctPayloads_iff : DistinctPayloads dep hist ↔ Spending.DistinctTickets (delivered chain dep) hist := by
  obtain ⟨_, hsound⟩ := sound_run h hM
  constructor
  · intro hdistinct t ht u hu a b ha hb hne hsame
    obtain ⟨x, i, m, hl, hfrom, rfl⟩ := delivered_eq_some.mp ha
    obtain ⟨y, j, m', hl', hfrom', rfl⟩ := delivered_eq_some.mp hb
    obtain ⟨rfl, hhash⟩ := Prod.mk.inj hsame
    have hm := List.mem_of_getElem? (sent_of_delivered h ht hl).1
    have hm' := List.mem_of_getElem? (sent_of_delivered h hu hl').1
    exact hdistinct t ht u hu x i j m m' hl hl' hfrom hfrom' hne
      (payload_eq_of_hash hsound hfree hm hm' hfrom hfrom' hhash)
  · intro hdistinct t ht u hu x i j m m' hl hl' hfrom hfrom' hne hpayload
    refine hdistinct t ht u hu (i, x, m.hash chain) (j, x, m'.hash chain)
      (delivered_eq_some.mpr ⟨x, i, m, hl, hfrom, rfl⟩) (delivered_eq_some.mpr ⟨x, j, m', hl', hfrom', rfl⟩) hne ?_
    rw [Message.hash, Message.hash, Message.preimage, Message.preimage, hfrom.1, hfrom.2, hfrom'.1, hfrom'.2, hpayload]

theorem bothReceived_iff : BothReceived chain dep hist ↔ DistinctPayloads dep hist := by
  obtain ⟨hrun, _⟩ := sound_run h hM
  rw [bothReceived_iff_allReceived hfree h hM, distinctPayloads_iff hfree h hM]
  exact Spending.allReceived_iff (fun _ => not_processed_initially) (fun _ _ _ hstep => hstep.2.2.effect)
    (fun _ _ _ hstep => hstep.2.2.delivers hstep.1 hfree) hrun

end Runs

/-- In every run a call is received at most once; what is received was sent by its guardian, and different
calls that are delivered are received, exactly in the runs that deliver approvals which their guardians
sent too, and no two of one instance with one payload. -/
theorem bridged_approvals_iff (hfree : CollisionFree chain dep M) (h : BridgeRun chain dep hist s)
    (hM : ∀ t ∈ hist, t.label.Within dep M) :
    ReceivedOnce chain hist ∧
      (Authentic chain hist ↔ GuardiansSend dep hist) ∧ (BothReceived chain dep hist ↔ DistinctPayloads dep hist) ∧
      (Authentic chain hist ∧ ReceivedOnce chain hist ∧ BothReceived chain dep hist ↔
        GuardiansSend dep hist ∧ DistinctPayloads dep hist) := by
  have honce := received_once hfree h hM
  have hauthentic := authentic_iff hfree h hM
  have hboth := bothReceived_iff hfree h hM
  refine ⟨honce, hauthentic, hboth, ?_⟩
  rw [hauthentic, hboth, and_iff_right honce]

/-! ## Two runs -/

theorem exists_delivery {x : Side} {position : ℕ} (hsent : s.sent[position]? = some m) (hto : m.To dep x) :
    ∃ s', Steps chain dep s (.deliver x position m) s' ∧ s'.sent = s.sent := by
  cases hreceive : receive chain (s.bridges x) m with
  | ok out => exact ⟨_, .received hsent hto hreceive, rfl⟩
  | error e => exact ⟨_, .refused hsent hto hreceive, rfl⟩

/-- Instances on two chains. -/
def avalancheEthereum : Deployment where
  name
    | .one => ascii "avalanche"
    | .two => ascii "ethereum"
  address
    | .one => ascii "0x00000000000000000000000000000000000000a1"
    | .two => ascii "0x00000000000000000000000000000000000000e2"
  gateway _ := 0x6a
  admin _ := 0xad
  names_ne := by decide

/-- Guardian 8 approves. -/
def approvalOf8 : Approval := { vaultGID := 5, guardian := 8, approvalType := 1, nonce := 0 }

/-- In the block of time 1000, to the other instance. -/
def messageOf8 : Message where
  sourceChain := avalancheEthereum.name .one
  sourceAddress := avalancheEthereum.address .one
  destinationChain := avalancheEthereum.name .two
  destinationAddress := avalancheEthereum.address .two
  payload := encodeApproval approvalOf8 1000

/-- The values of the hash on the names, the addresses and what is hashed for the message. -/
def axelarChain : Chain where
  keccak256 := fun b =>
    if b = avalancheEthereum.name .one then 0x6e8b0d92516ee4289145e3b78cea58daac177b1c618beeedbc6cdabd388a6e55
    else if b = avalancheEthereum.name .two then 0x541111248b45b7a8dc3f5579f630e74cb01456ea6ac067d3f4d793245a255155
    else if b = avalancheEthereum.address .one then 0x867d9b22e254b2d89975a1a01acc32a42a39f1ce6f41ca74a0678f29c71fcc48
    else if b = avalancheEthereum.address .two then 0x9d9b0ea6aff78df35d89ff443f24d65cdc047e2efc99e0102c6da8396a833be3
    else if b = commandPreimage messageOf8.sourceChain messageOf8.sourceAddress messageOf8.payload then
      0x4469388ac1c7009cdb145c0702d771f7087cf4acc8754cb00924c477e0b747e
    else 0xa38f7f42fa0ce272328bb5aaa12a8289dcdbcd833fd22761a6b7148fdc1abc31
  tryRecover := fun _ _ => none
  domainSeparator := 0
  blsPairing := fun _ => none
  chainId := 43114
  self := 0xa1

def sourceOf (hash : Bytes32) : Bytes :=
  if hash = 0x6e8b0d92516ee4289145e3b78cea58daac177b1c618beeedbc6cdabd388a6e55 then avalancheEthereum.name .one
  else if hash = 0x541111248b45b7a8dc3f5579f630e74cb01456ea6ac067d3f4d793245a255155 then avalancheEthereum.name .two
  else if hash = 0x867d9b22e254b2d89975a1a01acc32a42a39f1ce6f41ca74a0678f29c71fcc48 then avalancheEthereum.address .one
  else avalancheEthereum.address .two

theorem axelarChain_collisionFree : CollisionFree axelarChain avalancheEthereum {messageOf8} where
  sources := by
    have hinverse : Set.LeftInvOn sourceOf axelarChain.keccak256
        (Set.range avalancheEthereum.name ∪ Set.range avalancheEthereum.address ∪
          Message.sourceChain '' {messageOf8} ∪ Message.sourceAddress '' {messageOf8}) := by
      have hname : ∀ x, sourceOf (axelarChain.keccak256 (avalancheEthereum.name x)) = avalancheEthereum.name x := by
        intro x
        cases x <;> decide +kernel
      have haddress : ∀ x,
          sourceOf (axelarChain.keccak256 (avalancheEthereum.address x)) = avalancheEthereum.address x := by
        intro x
        cases x <;> decide +kernel
      rintro b (((⟨x, rfl⟩ | ⟨x, rfl⟩) | ⟨m, rfl, rfl⟩) | ⟨m, rfl, rfl⟩)
      · exact hname x
      · exact haddress x
      · exact hname .one
      · exact haddress .one
    exact hinverse.injOn
  nonzero := by
    rintro m rfl
    decide +kernel
  messages := by
    rw [Set.image_singleton]
    exact Set.injOn_singleton ..

def trustingState (sent : List Message) : State where
  bridges x :=
    { gateway := avalancheEthereum.gateway x
      admin := avalancheEthereum.admin x
      trustedSourceAddressHash := Function.update (fun _ => 0) (axelarChain.keccak256 (avalancheEthereum.name x.other))
        (axelarChain.keccak256 (avalancheEthereum.address x.other)) }
  sent

def callBy (sender : Address) (hne : sender ≠ 0) : Env := ⟨sender, 1000, 100, hne, by decide⟩

theorem trusting : Trusting axelarChain avalancheEthereum (trustingState []) where
  sent := rfl
  bridges x := ⟨callBy 0xad (by decide), _, rfl⟩

/-- The call of an account that sends the approval of guardian 8. -/
def sendBy (sender : Address) (hne : sender ≠ 0) : Label :=
  .send .one (callBy sender hne) (avalancheEthereum.name .two) (avalancheEthereum.address .two) approvalOf8

theorem messageOf8_from : messageOf8.From avalancheEthereum .one := ⟨rfl, rfl⟩

theorem messageOf8_to : messageOf8.To avalancheEthereum .two := ⟨rfl, rfl⟩

theorem send_step (sender : Address) (hne : sender ≠ 0) (sent : List Message) :
    Steps axelarChain avalancheEthereum (trustingState sent) (sendBy sender hne) (trustingState (sent ++ [messageOf8])) :=
  .send

theorem sendBy_within (sender : Address) (hne : sender ≠ 0) :
    (sendBy sender hne).Within avalancheEthereum {messageOf8} := rfl

/-- Guardian 8 sends once, and the message is delivered. -/
theorem bridged_approvals_iff_once : ∃ hist s, BridgeRun axelarChain avalancheEthereum hist s ∧
    (∃ t ∈ hist, received axelarChain t = some (.two, approvalOf8)) ∧ Authentic axelarChain hist ∧
    ReceivedOnce axelarChain hist ∧ BothReceived axelarChain avalancheEthereum hist := by
  have hsend := send_step 8 (by decide) []
  have hsent : (trustingState [messageOf8]).sent[0]? = some messageOf8 := rfl
  obtain ⟨s, hdeliver, _⟩ := exists_delivery (x := .two) hsent messageOf8_to
  have hrun : BridgeRun axelarChain avalancheEthereum [⟨trustingState [messageOf8], .deliver .two 0 messageOf8, s⟩,
    ⟨trustingState [], sendBy 8 (by decide), trustingState [messageOf8]⟩] s :=
    .next (.next (.start trusting) hsend) hdeliver
  have hM : ∀ t ∈ [(⟨trustingState [messageOf8], .deliver .two 0 messageOf8, s⟩ : Transition State Label),
      ⟨trustingState [], sendBy 8 (by decide), trustingState [messageOf8]⟩],
      t.label.Within avalancheEthereum {messageOf8} :=
    List.forall_mem_cons.mpr ⟨trivial, List.forall_mem_singleton.mpr (sendBy_within 8 (by decide))⟩
  have hlaw := bridged_approvals_iff axelarChain_collisionFree hrun hM
  have hdecoded : decodeApproval messageOf8.payload = some approvalOf8 := decodeApproval_encode approvalOf8 1000
  refine ⟨_, s, hrun, ?_, hlaw.2.2.2.mpr ⟨?_, ?_⟩⟩
  · exact received_by axelarChain_collisionFree hrun hM (List.mem_cons_self ..) rfl messageOf8_from hdecoded
  · intro t earlier hsuffix x position m a hl hfrom ha
    rcases List.suffix_cons_iff.mp hsuffix with heq | hsuffix
    · obtain ⟨rfl, rfl⟩ := List.cons.inj heq
      obtain ⟨rfl, rfl, rfl⟩ := Label.deliver.inj hl
      obtain rfl := Option.some.inj (hdecoded.symm.trans ha)
      exact ⟨_, List.mem_singleton_self _, _, _, _, rfl, rfl⟩
    · obtain rfl := List.mem_singleton.mp (hsuffix.subset (List.mem_cons_self ..))
      cases hl
  · intro t ht u hu x i j m m' hl hl' _ _ hne
    simp only [List.mem_cons, List.not_mem_nil, or_false] at ht hu
    rcases ht with rfl | rfl
    · rcases hu with rfl | rfl
      · exact absurd ((Label.deliver.inj hl).2.1.symm.trans (Label.deliver.inj hl').2.1) hne
      · cases hl'
    · cases hl

/-- Account 9 sends twice, and both messages are delivered. -/
def sentTwiceBy9 (s s' : State) : List (Transition State Label) :=
  [⟨s, .deliver .two 1 messageOf8, s'⟩, ⟨trustingState [messageOf8, messageOf8], .deliver .two 0 messageOf8, s⟩,
    ⟨trustingState [messageOf8], sendBy 9 (by decide), trustingState [messageOf8, messageOf8]⟩,
    ⟨trustingState [], sendBy 9 (by decide), trustingState [messageOf8]⟩]

theorem sentTwiceBy9_within (s s' : State) :
    ∀ t ∈ sentTwiceBy9 s s', t.label.Within avalancheEthereum {messageOf8} := by
  simp only [sentTwiceBy9, List.forall_mem_cons]
  exact ⟨trivial, trivial, sendBy_within 9 (by decide), sendBy_within 9 (by decide),
    fun t ht => absurd ht List.not_mem_nil⟩

/-- Account 9 sends the approval of guardian 8 twice in one block, and both messages are delivered: the
approval is received, though its guardian never sent it, and only one of the two calls is. -/
theorem approval_not_authentic : CollisionFree axelarChain avalancheEthereum {messageOf8} ∧
    ∃ hist s, BridgeRun axelarChain avalancheEthereum hist s ∧
      (∀ t ∈ hist, t.label.Within avalancheEthereum {messageOf8}) ∧
      (∃ t ∈ hist, received axelarChain t = some (.two, approvalOf8)) ∧ ¬ Authentic axelarChain hist ∧
      ¬ BothReceived axelarChain avalancheEthereum hist := by
  have hsend := send_step 9 (by decide) []
  have hagain := send_step 9 (by decide) [messageOf8]
  have hfirst : (trustingState [messageOf8, messageOf8]).sent[0]? = some messageOf8 := rfl
  obtain ⟨s, hdeliver, hkept⟩ := exists_delivery (x := .two) hfirst messageOf8_to
  have hsecond : s.sent[1]? = some messageOf8 := by
    rw [hkept]
    rfl
  obtain ⟨s', hdeliver', _⟩ := exists_delivery (x := .two) hsecond messageOf8_to
  have hrun : BridgeRun axelarChain avalancheEthereum (sentTwiceBy9 s s') s' :=
    .next (.next (.next (.next (.start trusting) hsend) hagain) hdeliver) hdeliver'
  have hM := sentTwiceBy9_within s s'
  have hdecoded : decodeApproval messageOf8.payload = some approvalOf8 := decodeApproval_encode approvalOf8 1000
  refine ⟨axelarChain_collisionFree, _, s', hrun, hM, ?_, ?_, ?_⟩
  · exact received_by axelarChain_collisionFree hrun hM (List.mem_cons_self ..) rfl messageOf8_from hdecoded
  · rw [authentic_iff axelarChain_collisionFree hrun hM]
    intro hguardians
    obtain ⟨u, hu, env, _, _, hl, hsender⟩ :=
      hguardians _ _ (List.suffix_refl _) .two 1 messageOf8 approvalOf8 rfl messageOf8_from hdecoded
    simp only [List.mem_cons, List.not_mem_nil, or_false] at hu
    rcases hu with rfl | rfl | rfl
    · cases hl
    · cases hl
      exact absurd hsender (by decide)
    · cases hl
      exact absurd hsender (by decide)
  · rw [bothReceived_iff axelarChain_collisionFree hrun hM]
    intro hdistinct
    exact hdistinct _ (List.mem_cons_self ..) _ (List.mem_cons_of_mem _ (List.mem_cons_self ..)) .two 1 0 messageOf8
      messageOf8 rfl rfl messageOf8_from messageOf8_from (by decide) rfl

end ChainGuard.Evm.AxelarBridge
