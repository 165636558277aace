import ChainGuard.Library.Loops
import ChainGuard.OffChain.Js

/-! The erasure coding of documents: arithmetic of bytes by tables, matrices, and the shards of a payload.
Numbers that are read from a byte array are bytes here. -/
namespace ChainGuard.OffChain.ErasureCoding
open Loops
set_option autoImplicit false

abbrev Result (α : Type) := Except Thrown α

/-! ## GF(2^8) -/

/-- x^8 + x^4 + x^3 + x^2 + 1 -/
def GF_PRIMITIVE : ℕ := 0x11d

def GF_SIZE : ℕ := 256

structure Tables where
  gfExp : List UInt8
  gfLog : List UInt8

/-- `x <<= 1; if (x >= GF_SIZE) x ^= GF_PRIMITIVE` -/
def nextPower (x : ℕ) : ℕ :=
  let x := x <<< 1
  if GF_SIZE ≤ x then x ^^^ GF_PRIMITIVE else x

def fillTables : Tables × ℕ :=
  upTo (GF_SIZE - 1)
    (fun i (t, x) => ({ gfExp := t.gfExp.set i (UInt8.ofNat x), gfLog := t.gfLog.set x (UInt8.ofNat i) }, nextPower x))
    ({ gfExp := List.replicate 512 0, gfLog := List.replicate GF_SIZE 0 }, 1)

/-- The powers are mirrored, so that sums of two logarithms can be looked up. -/
def buildTables : Tables :=
  let t := fillTables.1
  { t with gfExp := upTo (GF_SIZE - 1) (fun i gfExp => gfExp.set (i + GF_SIZE - 1) (gfExp.getD i 0)) t.gfExp }

def gfExp (a : ℕ) : UInt8 := buildTables.gfExp.getD a 0

def gfLog (a : UInt8) : ℕ := (buildTables.gfLog.getD a.toNat 0).toNat

def gfMul (a b : UInt8) : UInt8 := if a = 0 ∨ b = 0 then 0 else gfExp (gfLog a + gfLog b)

def gfDiv (a b : UInt8) : Result UInt8 :=
  if b = 0 then .error (.outOfRange "GF division by zero")
  else if a = 0 then .ok 0
  else .ok (gfExp (gfLog a + (GF_SIZE - 1) - gfLog b))

def gfAdd (a b : UInt8) : UInt8 := a ^^^ b

/-! ## Matrices -/

/-- Row-major: the entry at `(r, c)` stands at `r * cols + c`. -/
structure GFMatrix where
  rows : ℕ
  cols : ℕ
  data : List UInt8
  size : data.length = rows * cols

namespace GFMatrix

def new (rows cols : ℕ) : GFMatrix := ⟨rows, cols, List.replicate (rows * cols) 0, List.length_replicate⟩

def get (m : GFMatrix) (r c : ℕ) : UInt8 := m.data.getD (r * m.cols + c) 0

def set (m : GFMatrix) (r c : ℕ) (v : UInt8) : GFMatrix :=
  { m with data := m.data.set (r * m.cols + c) v, size := by rw [List.length_set, m.size] }

def subsetRows (m : GFMatrix) (rowIndices : List ℕ) : GFMatrix :=
  upTo rowIndices.length (fun dstRow sub =>
    upTo m.cols (fun c sub => sub.set dstRow c (m.get (rowIndices.getD dstRow 0) c)) sub)
    (new rowIndices.length m.cols)

/-- The matrix beside the identity. -/
def augment (m : GFMatrix) (n : ℕ) : GFMatrix :=
  upTo n (fun r aug =>
    upTo n (fun c aug => (aug.set r c (m.get r c)).set r (c + n) (if r = c then 1 else 0)) aug) (new n (n * 2))

/-- The first row from `col` on with an entry in the column. -/
def findPivot (aug : GFMatrix) (n col : ℕ) : Option ℕ :=
  (List.range' col (n - col)).find? fun r => aug.get r col != 0

def swapRows (aug : GFMatrix) (n col pivotRow : ℕ) : GFMatrix :=
  upTo (n * 2) (fun c aug =>
    let tmp := aug.get col c
    (aug.set col c (aug.get pivotRow c)).set pivotRow c tmp) aug

def scaleRow (aug : GFMatrix) (n col : ℕ) : Result GFMatrix :=
  let scale := aug.get col col
  tryUpTo (n * 2) (fun c aug => do
    let q ← gfDiv (aug.get col c) scale
    return aug.set col c q) aug

def eliminateRow (aug : GFMatrix) (n col r : ℕ) : GFMatrix :=
  if r = col then aug
  else
    let factor := aug.get r col
    if factor = 0 then aug
    else upTo (n * 2) (fun c aug => aug.set r c (gfAdd (aug.get r c) (gfMul factor (aug.get col c)))) aug

def clearColumn (n col : ℕ) (aug : GFMatrix) : Result GFMatrix :=
  match findPivot aug n col with
  | none => .error (.error "Matrix is singular — cannot invert")
  | some pivotRow => do
    let aug := if pivotRow ≠ col then swapRows aug n col pivotRow else aug
    let aug ← scaleRow aug n col
    return upTo n (fun r aug => eliminateRow aug n col r) aug

def rightHalf (aug : GFMatrix) (n : ℕ) : GFMatrix :=
  upTo n (fun r inv => upTo n (fun c inv => inv.set r c (aug.get r (c + n))) inv) (new n n)

def invert (m : GFMatrix) : Result GFMatrix :=
  if m.rows ≠ m.cols then .error (.outOfRange "invert requires a square matrix")
  else do
    let n := m.rows
    let aug ← tryUpTo n (clearColumn n) (augment m n)
    return rightHalf aug n

end GFMatrix

/-- Entries are the inverses of sums, `x` from `0 .. cols - 1` and `y` from `cols .. cols + rows - 1`. -/
def buildCauchyMatrix (rows cols : ℕ) : Result GFMatrix :=
  if GF_SIZE < rows + cols then
    .error (.outOfRange ("rows (" ++ toString rows ++ ") + cols (" ++ toString cols ++
      ") exceeds GF(2^8) capacity (256)"))
  else
    tryUpTo rows (fun r m => tryUpTo cols (fun c m => do
      let v ← gfDiv 1 (gfAdd (UInt8.ofNat c) (UInt8.ofNat (cols + r)))
      return m.set r c v) m) (GFMatrix.new rows cols)

def buildEncodingMatrix (dataShards parityShards : ℕ) : Result GFMatrix := do
  let enc := upTo dataShards (fun r enc => enc.set r r 1) (GFMatrix.new (dataShards + parityShards) dataShards)
  let cauchy ← buildCauchyMatrix parityShards dataShards
  return upTo parityShards (fun r enc =>
    upTo dataShards (fun c enc => enc.set (r + dataShards) c (cauchy.get r c)) enc) enc

/-! ## Shards -/

structure Shard where
  index : ℕ
  isData : Bool
  data : Bytes
  cid : Option JsString
  node : Option JsString

/-- Array lengths are far below the numbers whose quotients round. -/
def shardSize (data : Bytes) (dataShards : ℕ) : ℕ := (data.length + dataShards - 1) / dataShards

def padAndSplit (data : Bytes) (dataShards : ℕ) : List Bytes :=
  let shardSize := shardSize data dataShards
  let paddedLength := shardSize * dataShards
  let padded := data ++ List.replicate (paddedLength - data.length) 0
  (List.range dataShards).map fun i => (padded.drop (i * shardSize)).take shardSize

/-- `for d < n: val = gfAdd(val, term(d))` -/
def gfSum (n : ℕ) (term : ℕ → UInt8) : UInt8 := upTo n (fun d val => gfAdd val (term d)) 0

def encode (data : Bytes) (dataShards parityShards : ℕ) : Result (List Shard) := do
  if dataShards < 1 then .error (.outOfRange "dataShards must be ≥ 1")
  if parityShards < 1 then .error (.outOfRange "parityShards must be ≥ 1")
  if GF_SIZE - 1 < dataShards + parityShards then
    .error (.outOfRange ("Total shards (" ++ toString (dataShards + parityShards) ++ ") exceeds GF(2^8) limit"))
  let rawDataShards := padAndSplit data dataShards
  let shardSize := (rawDataShards.headD []).length
  let encMatrix ← buildEncodingMatrix dataShards parityShards
  let parityData := (List.range parityShards).map fun p => (List.range shardSize).map fun bytePos =>
    gfSum dataShards fun d => gfMul (encMatrix.get (dataShards + p) d) ((rawDataShards.getD d []).getD bytePos 0)
  return (rawDataShards ++ parityData).mapIdx fun index shardData =>
    { index, isData := decide (index < dataShards), data := shardData, cid := none, node := none }

/-- `shards.sort((a, b) => a.index - b.index)` -/
def sortByIndex (shards : List Shard) : List Shard := shards.mergeSort fun a b => decide (a.index ≤ b.index)

/-- The first `dataShards` shards by index decide. -/
def decode (availableShards : List Shard) (dataShards parityShards : ℕ) (originalSize : Option ℕ) :
    Result Bytes := do
  if availableShards.length < dataShards then
    .error (.error ("Not enough shards to reconstruct: have " ++ toString availableShards.length ++ ", need " ++
      toString dataShards))
  let selected := (sortByIndex availableShards).take dataShards
  match selected with
  | [] => .error .typeError
  | first :: _ =>
    let shardSize := first.data.length
    let encMatrix ← buildEncodingMatrix dataShards parityShards
    let invMatrix ← (encMatrix.subsetRows (selected.map Shard.index)).invert
    let reconstructed := (List.range dataShards).map fun d => (List.range shardSize).map fun bytePos =>
      gfSum dataShards fun s => gfMul (invMatrix.get d s) ((selected.map Shard.data).getD s [] |>.getD bytePos 0)
    let fullData := reconstructed.flatten
    return match originalSize with
      | some size => fullData.take size
      | none => fullData

/-! ## Integrity -/

/-- `bytes.slice(start, stop)` -/
def slice (bytes : Bytes) (start stop : ℕ) : Bytes := (bytes.drop start).take (stop - start)

/-- `target.set(source, offset)` -/
def setAt (target source : Bytes) (offset : ℕ) : Result Bytes :=
  if target.length < offset + source.length then .error (.outOfRange "offset is out of bounds")
  else .ok (target.take offset ++ source ++ target.drop (offset + source.length))

/-- `pieces.forEach((d, i) => reEncodedInput.set(d, i * shardSize))` -/
def placePieces (pieces : List Bytes) (dataShards shardSize : ℕ) : Result Bytes :=
  tryUpTo pieces.length (fun i reEncodedInput => setAt reEncodedInput (pieces.getD i []) (i * shardSize))
    (List.replicate (dataShards * shardSize) 0)

/-- From the parity shards alone, where they are enough and the decoding does not throw. -/
def canonicalData (allSorted : List Shard) (dataShards parityShards shardSize : ℕ) : Option (List Bytes) :=
  let parityShardsAvailable := allSorted.filter fun s => !s.isData
  if dataShards ≤ parityShardsAvailable.length then
    let paritySubset := parityShardsAvailable.take dataShards
    match decode paritySubset dataShards parityShards (some (dataShards * shardSize)) with
    | .ok reconstructed =>
      some ((List.range dataShards).map fun i => slice reconstructed (i * shardSize) ((i + 1) * shardSize))
    | .error _ => none
  else none

/-- The loop over the shard's own bytes; a byte beyond the expected ones is not `undefined`. -/
def isCorrupted (reEncoded : List Shard) (shard : Shard) : Result Bool :=
  match reEncoded[shard.index]? with
  | some expected => .ok ((List.range shard.data.length).any fun i => shard.data[i]? != expected.data[i]?)
  | none => if shard.data = [] then .ok false else .error .typeError

def reEncodedInput (allSorted : List Shard) (dataShards parityShards shardSize : ℕ) : Result Bytes :=
  match canonicalData allSorted dataShards parityShards shardSize with
  | some canonicalData => placePieces canonicalData dataShards shardSize
  | none => do
    let storedData := sortByIndex (allSorted.filter fun s => s.isData)
    if storedData.length ≠ dataShards then
      .error (.error ("Expected " ++ toString dataShards ++ " data shards, got " ++ toString storedData.length))
    placePieces (storedData.map Shard.data) dataShards shardSize

def verifyShards (shards : List Shard) (dataShards parityShards : ℕ) : Result (List ℕ) :=
  let allSorted := sortByIndex shards
  match allSorted with
  | [] => .error .typeError
  | first :: _ => do
    let reEncoded ← encode (← reEncodedInput allSorted dataShards parityShards first.data.length) dataShards parityShards
    allSorted.foldlM (fun corrupted shard => do
      return if ← isCorrupted reEncoded shard then corrupted ++ [shard.index] else corrupted) []

end ChainGuard.OffChain.ErasureCoding
