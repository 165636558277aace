import ChainGuard.Library.Settlement
import ChainGuard.OffChain.ShardRecovery

/-! The storage of shards at pinning nodes. Uploads and fetches settle in any order and any of them may fail; the
payload is reconstructed as long as no more shards are lost than there are parity shards. -/
namespace ChainGuard.OffChain.ErasureCoding
open Settlement
set_option autoImplicit false

/-- What a node answers may differ from call to call; the first argument tells the calls apart. An error is the
message of what was thrown. -/
structure PinningNode where
  name : JsString
  uploadFn : ℕ → Bytes → JsString → Except JsString JsString
  fetchFn : ℕ → JsString → Except JsString Bytes

structure ShardEntry where
  index : ℕ
  isData : Bool
  cid : JsString
  node : JsString

structure ShardManifest where
  totalShards : ℕ
  dataShards : ℕ
  parityShards : ℕ
  originalSize : ℕ
  shards : List ShardEntry

structure ShardFailure where
  index : ℕ
  error : JsString

structure DistributionResult where
  manifest : ShardManifest
  failed : List ShardFailure

/-! ## Distribution -/

def shardName (shard : Shard) : JsString :=
  js "shard-" ++ decimal shard.index ++ js "-" ++ if shard.isData then js "data" else js "parity"

/-- `nodes[i % nodes.length]` -/
def nodeFor (nodes : List PinningNode) (hnodes : nodes ≠ []) (i : ℕ) : PinningNode :=
  nodes.get ⟨i % nodes.length, Nat.mod_lt i (List.length_pos_iff.mpr hnodes)⟩

/-- What becomes of the `i`-th shard: it is pinned, or not and why. -/
def uploadShard (nodes : List PinningNode) (hnodes : nodes ≠ []) (aborted : ℕ → Bool) (i : ℕ) (shard : Shard) :
    Except ShardFailure ShardEntry :=
  if aborted i then .error { index := shard.index, error := js "Aborted" }
  else
    let node := nodeFor nodes hnodes i
    match node.uploadFn i shard.data (shardName shard) with
    | .ok cid => .ok { index := shard.index, isData := shard.isData, cid, node := node.name }
    | .error error => .error { index := shard.index, error }

structure Pushed where
  failed : List ShardFailure
  pinned : List ShardEntry

def push (s : Pushed) : Except ShardFailure ShardEntry → Pushed
  | .ok entry => { s with pinned := s.pinned ++ [entry] }
  | .error failure => { s with failed := s.failed ++ [failure] }

/-- `aborted i` is what the signal tells when the `i`-th upload begins; the uploads settle in the given order. -/
def distributeShards (buildDefaultNodes : List PinningNode) (shards : List Shard) (nodes : Option (List PinningNode))
    (originalSize : ℕ) (aborted : ℕ → Bool) (order : List ℕ) : Result DistributionResult :=
  let dataShards := (shards.filter fun s => s.isData).length
  let parityShards := (shards.filter fun s => !s.isData).length
  let nodes := nodes.getD buildDefaultNodes
  if hnodes : nodes = [] then .error (.error "No pinning nodes available")
  else
    let pushed := settle order (fun i s =>
      match shards[i]? with
      | some shard => push s (uploadShard nodes hnodes aborted i shard)
      | none => s) { failed := [], pinned := [] }
    .ok {
      manifest := {
        totalShards := shards.length
        dataShards
        parityShards
        originalSize
        shards := pushed.pinned.mergeSort fun a b => decide (a.index ≤ b.index) }
      failed := pushed.failed }

/-! ## Retrieval -/

/-- `nodeMap.get(name)`: of two nodes with one name the later stands in the map. -/
def nodeNamed (nodes : List PinningNode) (name : JsString) : Option PinningNode :=
  nodes.reverse.find? fun n => decide (n.name = name)

def fetchShard (nodes : List PinningNode) (aborted : ℕ → Bool) (entry : ShardEntry) : Except JsString Shard :=
  if aborted entry.index then .error (js "Aborted")
  else
    match nodeNamed nodes entry.node with
    | none => .error (js "Unknown node: " ++ entry.node)
    | some node => do
      let data ← node.fetchFn entry.index entry.cid
      return { index := entry.index, isData := entry.isData, data, cid := some entry.cid, node := some entry.node }

/-- `aborted i` is what the signal tells when the fetch of the `i`-th shard begins. The fetches settle in the given
order, their results stand in the order of the manifest. -/
def retrieveShards (manifest : ShardManifest) (nodes : List PinningNode) (aborted : ℕ → Bool) (order : List ℕ) :
    Result (List Shard) :=
  let slots := settle order (fun j slots =>
    match manifest.shards[j]? with
    | some entry => slots.set j (some (fetchShard nodes aborted entry))
    | none => slots) (List.replicate manifest.shards.length none)
  let results := slots.filterMap id
  let retrieved := results.filterMap Except.toOption
  let fetchFailures := results.countP fun r => !r.isOk
  if retrieved.length < manifest.dataShards then
    .error (.error ("Too many fetch failures (" ++ toString fetchFailures ++ "): only " ++ toString retrieved.length ++
      "/" ++ toString manifest.totalShards ++ " shards retrieved, need at least " ++ toString manifest.dataShards))
  else .ok retrieved

def encodeAndDistribute (buildDefaultNodes : List PinningNode) (encryptedData : Bytes) (dataShards parityShards : ℕ)
    (nodes : Option (List PinningNode)) (aborted : ℕ → Bool) (order : List ℕ) : Result DistributionResult := do
  let shards ← encode encryptedData dataShards parityShards
  distributeShards buildDefaultNodes shards nodes encryptedData.length aborted order

def reconstructFromManifest (manifest : ShardManifest) (nodes : List PinningNode) (aborted : ℕ → Bool)
    (order : List ℕ) : Result Bytes := do
  let shards ← retrieveShards manifest nodes aborted order
  decode shards manifest.dataShards manifest.parityShards (some manifest.originalSize)

/-! ## Losses -/

section Losses
variable (nodes : List PinningNode) (hnodes : nodes ≠ []) (uploadAborted fetchAborted : ℕ → Bool)

def entryOf (shard : Shard) : Option ShardEntry :=
  (uploadShard nodes hnodes uploadAborted shard.index shard).toOption

def survivor (shard : Shard) : Option Shard :=
  (entryOf nodes hnodes uploadAborted shard).bind fun entry => (fetchShard nodes fetchAborted entry).toOption

def lostShards (shards : List Shard) : ℕ :=
  shards.countP fun shard => (survivor nodes hnodes uploadAborted fetchAborted shard).isNone

end Losses

variable {M P : ℕ} {data : Bytes} {nodes : List PinningNode} {hnodes : nodes ≠ []}
  {uploadAborted fetchAborted aborted : ℕ → Bool} {shards : List Shard} {order : List ℕ}

theorem range_map_getElem? {α : Type} (l : List α) : (List.range l.length).map (fun i => l[i]?) = l.map some := by
  refine List.ext_getElem (by simp) fun i hi hi' => ?_
  rw [List.length_map, List.length_range] at hi
  simp [hi]

theorem range_filterMap {α : Type} (f : Shard → Option α) (shards : List Shard) :
    (List.range shards.length).filterMap (fun i => shards[i]?.bind f) = shards.filterMap f := by
  have hmap := congrArg (List.filterMap fun o => o.bind f) (range_map_getElem? shards)
  rw [List.filterMap_map, List.filterMap_map] at hmap
  exact hmap

theorem entryOf_index {shard : Shard} {entry : ShardEntry} (h : entryOf nodes hnodes aborted shard = some entry) :
    entry.index = shard.index := by
  unfold entryOf uploadShard at h
  split at h
  · cases h
  · dsimp only at h
    split at h
    · cases h
      rfl
    · cases h

theorem entryOf_uploaded {shard : Shard} {entry : ShardEntry} (h : entryOf nodes hnodes aborted shard = some entry) :
    (nodeFor nodes hnodes shard.index).uploadFn shard.index shard.data (shardName shard) = .ok entry.cid ∧
      entry.node = (nodeFor nodes hnodes shard.index).name := by
  unfold entryOf uploadShard at h
  split at h
  · cases h
  · dsimp only at h
    split at h
    · rename_i cid hupload
      cases h
      exact ⟨hupload, rfl⟩
    · cases h

/-- The shards stand in the order of their indices. -/
def Indexed (shards : List Shard) : Prop := ∀ (i : ℕ) (shard : Shard), shards[i]? = some shard → shard.index = i

theorem Indexed.pairwise (h : Indexed shards) : shards.Pairwise fun a b => a.index < b.index := by
  refine List.pairwise_iff_getElem.mpr fun i j hi hj hij => ?_
  rw [h i _ (List.getElem?_eq_getElem hi), h j _ (List.getElem?_eq_getElem hj)]
  exact hij

theorem distributeShards_manifest (hnodes : nodes ≠ []) (aborted : ℕ → Bool) (buildDefaultNodes : List PinningNode)
    (originalSize : ℕ) (hindexed : Indexed shards)
    (horder : order.Perm (List.range shards.length)) :
    ∃ failed, distributeShards buildDefaultNodes shards (some nodes) originalSize aborted order = .ok {
      manifest := {
        totalShards := shards.length
        dataShards := (shards.filter fun s => s.isData).length
        parityShards := (shards.filter fun s => !s.isData).length
        originalSize
        shards := shards.filterMap (entryOf nodes hnodes aborted) }
      failed } := by
  have hpinned := settle_push (p := Pushed.pinned) (f := fun i => shards[i]?.bind (entryOf nodes hnodes aborted))
    (t := fun i s => match shards[i]? with
      | some shard => push s (uploadShard nodes hnodes aborted i shard)
      | none => s) (fun i s => by
        cases hshard : shards[i]? with
        | none => simp
        | some shard =>
          have hentry : entryOf nodes hnodes aborted shard = (uploadShard nodes hnodes aborted i shard).toOption := by
            rw [entryOf, hindexed i shard hshard]
          simp only [Option.bind_some, hentry]
          cases uploadShard nodes hnodes aborted i shard with
          | error failure => exact (List.append_nil _).symm
          | ok entry => rfl) order { failed := [], pinned := [] }
  have hsorted : (shards.filterMap (entryOf nodes hnodes aborted)).Pairwise fun a b => a.index < b.index := by
    rw [List.pairwise_filterMap]
    refine hindexed.pairwise.imp fun {a b} hab a' ha b' hb => ?_
    rw [entryOf_index ha, entryOf_index hb]
    exact hab
  have hperm := horder.filterMap fun i => shards[i]?.bind (entryOf nodes hnodes aborted)
  rw [range_filterMap] at hperm
  rw [List.nil_append] at hpinned
  have hmanifest := mergeSort_eq (k := ShardEntry.index) hperm hsorted
  rw [← hpinned] at hmanifest
  rw [distributeShards]
  simp only [Option.getD_some, dif_neg hnodes, hmanifest]
  exact ⟨_, rfl⟩

theorem retrieveShards_eq {manifest : ShardManifest} (horder : order.Perm (List.range manifest.shards.length)) :
    retrieveShards manifest nodes aborted order =
      let retrieved := manifest.shards.filterMap fun entry => (fetchShard nodes aborted entry).toOption
      if retrieved.length < manifest.dataShards then
        .error (.error ("Too many fetch failures (" ++
          toString ((manifest.shards.map (fetchShard nodes aborted)).countP fun r => !r.isOk) ++ "): only " ++
          toString retrieved.length ++ "/" ++ toString manifest.totalShards ++ " shards retrieved, need at least " ++
          toString manifest.dataShards))
      else .ok retrieved := by
  have hslots : settle order (fun j slots => match manifest.shards[j]? with
      | some entry => slots.set j (some (fetchShard nodes aborted entry))
      | none => slots) (List.replicate manifest.shards.length none) =
      manifest.shards.map fun entry => some (fetchShard nodes aborted entry) := by
    refine (settle_slots (f := fun j => manifest.shards[j]?.map (fetchShard nodes aborted)) horder ?_).trans ?_
    · intro j hj slots
      rw [List.getElem?_eq_getElem hj]
      rfl
    · have hmap := congrArg (List.map (Option.map (fetchShard nodes aborted))) (range_map_getElem? manifest.shards)
      rw [List.map_map, List.map_map] at hmap
      exact hmap
  have hresults : (manifest.shards.map fun entry => some (fetchShard nodes aborted entry)).filterMap id =
      manifest.shards.map (fetchShard nodes aborted) := by
    rw [List.filterMap_map, ← List.filterMap_eq_map]
    rfl
  rw [retrieveShards, hslots]
  simp only [hresults, List.filterMap_map]
  rfl

/-! ## Survivors -/

theorem shardOf_indexed (payloads : List Bytes) (M : ℕ) : Indexed (payloads.mapIdx (shardOf M)) := by
  intro i shard hshard
  rw [List.getElem?_mapIdx, Option.map_eq_some_iff] at hshard
  obtain ⟨_, _, rfl⟩ := hshard
  rfl

theorem count_isData {payloads : List Bytes} (hlength : payloads.length = M + P) :
    ((payloads.mapIdx (shardOf M)).filter fun s => s.isData).length = M ∧
      ((payloads.mapIdx (shardOf M)).filter fun s => !s.isData).length = P := by
  have hmarks : (payloads.mapIdx (shardOf M)).map Shard.isData = (List.range (M + P)).map fun i => decide (i < M) := by
    refine List.ext_getElem (by simp [hlength]) fun i hi hi' => ?_
    simp [shardOf]
  have hcount : ∀ q : Bool → Bool, ((payloads.mapIdx (shardOf M)).filter fun s => q s.isData).length =
      (List.range M).countP (fun _ => q true) + (List.range P).countP fun _ => q false := by
    intro q
    calc ((payloads.mapIdx (shardOf M)).filter fun s => q s.isData).length
        = ((payloads.mapIdx (shardOf M)).map Shard.isData).countP q := by
          rw [List.countP_map, List.countP_eq_length_filter]
          rfl
      _ = (List.range (M + P)).countP (fun i => q (decide (i < M))) := by
          rw [hmarks, List.countP_map]
          rfl
      _ = _ := by
          rw [List.range_add, List.countP_append, List.countP_map]
          refine congrArg₂ _ (List.countP_congr fun i hi => ?_) (List.countP_congr fun i _ => ?_)
          · rw [decide_eq_true (List.mem_range.mp hi)]
          · rw [Function.comp_apply, decide_eq_false (by omega)]
  refine ⟨(hcount id).trans ?_, (hcount not).trans ?_⟩
  · simp
  · simp

theorem nodeNamed_of_distinct {node : PinningNode} (hnames : (nodes.map PinningNode.name).Nodup) (hnode : node ∈ nodes) :
    nodeNamed nodes node.name = some node := by
  unfold nodeNamed
  cases hfind : nodes.reverse.find? fun n => decide (n.name = node.name) with
  | none =>
    have hnone := List.find?_eq_none.mp hfind node (List.mem_reverse.mpr hnode)
    exact absurd (decide_eq_true rfl) hnone
  | some found =>
    have hmem := List.mem_reverse.mp (List.mem_of_find?_eq_some hfind)
    have hname : found.name = node.name := by simpa using List.find?_some hfind
    rw [List.inj_on_of_nodup_map hnames hmem hnode hname]

theorem fetchShard_ok {entry : ShardEntry} {shard' : Shard}
    (h : (fetchShard nodes aborted entry).toOption = some shard') :
    ∃ node, nodeNamed nodes entry.node = some node ∧ node.fetchFn entry.index entry.cid = .ok shard'.data ∧
      shard'.index = entry.index := by
  unfold fetchShard at h
  split at h
  · cases h
  · split at h
    · cases h
    · rename_i node hnode
      cases hbytes : node.fetchFn entry.index entry.cid with
      | error e =>
        rw [hbytes] at h
        cases h
      | ok bytes =>
        rw [hbytes] at h
        cases h
        exact ⟨node, hnode, hbytes, rfl⟩

theorem survivor_index {shard shard' : Shard}
    (h : survivor nodes hnodes uploadAborted fetchAborted shard = some shard') : shard'.index = shard.index := by
  obtain ⟨entry, hentry, hfetch⟩ := Option.bind_eq_some_iff.mp h
  obtain ⟨_, _, _, hindex⟩ := fetchShard_ok hfetch
  rw [hindex, entryOf_index hentry]

theorem survivor_data {shard shard' : Shard} (hnames : (nodes.map PinningNode.name).Nodup)
    (hstored : ∀ cid bytes,
      (nodeFor nodes hnodes shard.index).uploadFn shard.index shard.data (shardName shard) = .ok cid →
      (nodeFor nodes hnodes shard.index).fetchFn shard.index cid = .ok bytes → bytes = shard.data)
    (h : survivor nodes hnodes uploadAborted fetchAborted shard = some shard') : shard'.data = shard.data := by
  obtain ⟨entry, hentry, hfetch⟩ := Option.bind_eq_some_iff.mp h
  obtain ⟨hcid, hname⟩ := entryOf_uploaded hentry
  obtain ⟨node, hnode, hbytes, _⟩ := fetchShard_ok hfetch
  have hmem : nodeFor nodes hnodes shard.index ∈ nodes := List.get_mem nodes _
  rw [hname, nodeNamed_of_distinct hnames hmem] at hnode
  cases hnode
  rw [entryOf_index hentry] at hbytes
  exact hstored entry.cid shard'.data hcid hbytes

theorem length_survivors (shards : List Shard) :
    (shards.filterMap (survivor nodes hnodes uploadAborted fetchAborted)).length +
      lostShards nodes hnodes uploadAborted fetchAborted shards = shards.length := by
  rw [List.length_filterMap_eq_countP, lostShards,
    List.length_eq_countP_add_countP fun s => (survivor nodes hnodes uploadAborted fetchAborted s).isSome]
  refine congrArg _ (List.countP_congr fun s _ => ?_)
  cases survivor nodes hnodes uploadAborted fetchAborted s with
  | none => simp
  | some shard => simp

theorem survivors_genuine (hnames : (nodes.map PinningNode.name).Nodup)
    (hstored : ∀ shard ∈ shards, ∀ cid bytes,
      (nodeFor nodes hnodes shard.index).uploadFn shard.index shard.data (shardName shard) = .ok cid →
      (nodeFor nodes hnodes shard.index).fetchFn shard.index cid = .ok bytes → bytes = shard.data)
    (hgenuine : ∀ shard ∈ shards, Genuine data M P shard) :
    ∀ shard ∈ shards.filterMap (survivor nodes hnodes uploadAborted fetchAborted), Genuine data M P shard := by
  intro shard' hmem
  obtain ⟨shard, hshard, hsurvivor⟩ := List.mem_filterMap.mp hmem
  have hindex := survivor_index hsurvivor
  have hdata := survivor_data hnames (hstored shard hshard) hsurvivor
  obtain ⟨hlt, hcodeword⟩ := hgenuine shard hshard
  exact ⟨by rwa [hindex], by rwa [hindex, hdata]⟩

theorem survivors_nodup (hindexed : Indexed shards) :
    ((shards.filterMap (survivor nodes hnodes uploadAborted fetchAborted)).map Shard.index).Nodup := by
  rw [List.Nodup, List.pairwise_map, List.pairwise_filterMap]
  refine hindexed.pairwise.imp fun {a b} hab a' ha b' hb => ?_
  rw [survivor_index ha, survivor_index hb]
  exact Nat.ne_of_lt hab

theorem encode_error (h : ¬(1 ≤ M ∧ 1 ≤ P ∧ M + P ≤ 255)) : ∃ e, encode data M P = .error e := by
  unfold encode
  by_cases hM : M < 1
  · rw [if_pos hM]
    exact ⟨_, rfl⟩
  by_cases hP : P < 1
  · rw [if_neg hM, if_pos hP]
    exact ⟨_, rfl⟩
  · have hhigh : GF_SIZE - 1 < M + P := by
      simp only [GF_SIZE]
      omega
    rw [if_neg hM, if_neg hP, if_pos hhigh]
    exact ⟨_, rfl⟩

/-- Whatever the order in which uploads and fetches settle there is one manifest and one outcome. A successful fetch
of a CID returns the bytes that were uploaded under it; then the payload is reconstructed if at most as many
shards are lost as there are parity shards, and otherwise nothing is. -/
theorem storage_tolerates_losses (buildDefaultNodes : List PinningNode) (data : Bytes) (M P : ℕ)
    {nodes : List PinningNode} (hnodes : nodes ≠ []) (hnames : (nodes.map PinningNode.name).Nodup)
    (uploadAborted fetchAborted : ℕ → Bool)
    (hstored : ∀ shards, encode data M P = .ok shards → ∀ shard ∈ shards, ∀ cid bytes,
      (nodeFor nodes hnodes shard.index).uploadFn shard.index shard.data (shardName shard) = .ok cid →
      (nodeFor nodes hnodes shard.index).fetchFn shard.index cid = .ok bytes → bytes = shard.data) :
    (¬(1 ≤ M ∧ 1 ≤ P ∧ M + P ≤ 255) → ∃ e, ∀ uploads,
      encodeAndDistribute buildDefaultNodes data M P (some nodes) uploadAborted uploads = .error e) ∧
    (1 ≤ M ∧ 1 ≤ P ∧ M + P ≤ 255 → ∃ shards manifest outcome, encode data M P = .ok shards ∧
      (∀ uploads, uploads.Perm (List.range shards.length) → ∃ failed,
        encodeAndDistribute buildDefaultNodes data M P (some nodes) uploadAborted uploads =
          .ok { manifest, failed }) ∧
      (∀ fetches, fetches.Perm (List.range manifest.shards.length) →
        reconstructFromManifest manifest nodes fetchAborted fetches = outcome) ∧
      (lostShards nodes hnodes uploadAborted fetchAborted shards ≤ P → outcome = .ok data) ∧
      (P < lostShards nodes hnodes uploadAborted fetchAborted shards → ∃ e, outcome = .error e)) := by
  constructor
  · intro hconfig
    obtain ⟨e, hencode⟩ : ∃ e, encode data M P = .error e := encode_error hconfig
    exact ⟨e, fun uploads => by rw [encodeAndDistribute, hencode]; rfl⟩
  rintro ⟨hM, hP, hMP⟩
  obtain ⟨payloads, hlength, hpayloads, hencode⟩ := encode_ok data hM hP hMP
  have hgenuine := encode_genuine hlength hpayloads
  have hindexed := shardOf_indexed payloads M
  obtain ⟨hdataShards, hparityShards⟩ := count_isData hlength
  have hstored := hstored _ hencode
  have htotal : (payloads.mapIdx (shardOf M)).length = M + P := by rw [List.length_mapIdx, hlength]
  generalize payloads.mapIdx (shardOf M) = shards at hgenuine hindexed hdataShards hparityShards hstored hencode htotal
  have hcount := @length_survivors nodes hnodes uploadAborted fetchAborted shards
  let manifest : ShardManifest := {
    totalShards := shards.length
    dataShards := M
    parityShards := P
    originalSize := data.length
    shards := shards.filterMap (entryOf nodes hnodes uploadAborted) }
  have hretrieved : manifest.shards.filterMap (fun entry => (fetchShard nodes fetchAborted entry).toOption) =
      shards.filterMap (survivor nodes hnodes uploadAborted fetchAborted) := List.filterMap_filterMap
  refine ⟨shards, manifest, reconstructFromManifest manifest nodes fetchAborted
    (List.range manifest.shards.length), hencode, fun uploads horder => ?_, fun fetches horder => ?_, ?_, ?_⟩
  · obtain ⟨failed, hdistribute⟩ := distributeShards_manifest hnodes uploadAborted buildDefaultNodes data.length hindexed
      horder
    rw [hdataShards, hparityShards] at hdistribute
    exact ⟨failed, by rw [encodeAndDistribute, hencode]; exact hdistribute⟩
  · rw [reconstructFromManifest, reconstructFromManifest, retrieveShards_eq horder, retrieveShards_eq (List.Perm.refl _)]
  · intro hlost
    have henough : ¬(shards.filterMap (survivor nodes hnodes uploadAborted fetchAborted)).length < M := by omega
    rw [reconstructFromManifest, retrieveShards_eq (List.Perm.refl _)]
    simp only [hretrieved]
    rw [if_neg henough]
    exact decode_genuine hM hMP (survivors_genuine hnames hstored hgenuine) (survivors_nodup hindexed)
      (not_lt.mp henough)
  · intro hlost
    have htoo : (shards.filterMap (survivor nodes hnodes uploadAborted fetchAborted)).length < M := by omega
    rw [reconstructFromManifest, retrieveShards_eq (List.Perm.refl _)]
    simp only [hretrieved]
    rw [if_pos htoo]
    exact ⟨_, rfl⟩

def contentNode (name : JsString) : PinningNode where
  name := name
  uploadFn _ data _ := .ok (data.map UInt8.toUInt16)
  fetchFn _ cid := .ok (cid.map UInt16.toUInt8)

/-- Two nodes, and the first shard's fetch is aborted. -/
theorem storage_tolerates_losses_two :
    ∃ shards manifest outcome, encode [1, 2, 3] 2 1 = .ok shards ∧
      (∀ uploads, uploads.Perm (List.range shards.length) → ∃ failed,
        encodeAndDistribute [] [1, 2, 3] 2 1 (some [contentNode (js "a"), contentNode (js "b")]) (fun _ => false)
          uploads = .ok { manifest, failed }) ∧
      (∀ fetches, fetches.Perm (List.range manifest.shards.length) →
        reconstructFromManifest manifest [contentNode (js "a"), contentNode (js "b")] (fun i => i == 0) fetches =
          outcome) ∧
      (lostShards [contentNode (js "a"), contentNode (js "b")] (List.cons_ne_nil _ _) (fun _ => false) (fun i => i == 0)
        shards ≤ 1 → outcome = .ok [1, 2, 3]) ∧
      (1 < lostShards [contentNode (js "a"), contentNode (js "b")] (List.cons_ne_nil _ _) (fun _ => false)
        (fun i => i == 0) shards → ∃ e, outcome = .error e) := by
  refine (storage_tolerates_losses [] [1, 2, 3] 2 1 (List.cons_ne_nil _ _) (by decide) (fun _ => false)
    (fun i => i == 0) ?_).2 ⟨by decide, by decide, by decide⟩
  intro _ _ shard _ cid bytes hcid hbytes
  have hnode : ∀ i, ∃ name, nodeFor [contentNode (js "a"), contentNode (js "b")] (List.cons_ne_nil _ _) i =
      contentNode name := fun i => by
    have hmem : nodeFor [contentNode (js "a"), contentNode (js "b")] (List.cons_ne_nil _ _) i ∈ _ := List.get_mem _ _
    simp only [List.mem_cons, List.not_mem_nil, or_false] at hmem
    rcases hmem with hmem | hmem
    · exact ⟨_, hmem⟩
    · exact ⟨_, hmem⟩
  obtain ⟨name, hname⟩ := hnode shard.index
  rw [hname] at hcid hbytes
  cases hcid
  cases hbytes
  have hbyte : UInt16.toUInt8 ∘ UInt8.toUInt16 = id := funext fun b => UInt8.toUInt8_toUInt16 b
  rw [List.map_map, hbyte, List.map_id]

end ChainGuard.OffChain.ErasureCoding
