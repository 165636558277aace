import ChainGuard.OffChain.Encodings
import ChainGuard.OffChain.Numbers

/-! `ipfsProxyGuard`: the signatures of requests to the IPFS proxy, and what the proxy accepts. -/
namespace ChainGuard.OffChain.IpfsProxy
set_option autoImplicit false

/-- What the platform provides: the hash, the MAC of a message under a key, and how strings with other characters than
those of ASCII change their case. -/
structure Runtime where
  sha256 : Bytes → Bytes
  hmacSha256 : Bytes → Bytes → Bytes
  lowerOther : JsString → JsString
  upperOther : JsString → JsString

variable (rt : Runtime)

def IsAscii (s : JsString) : Prop := ∀ c ∈ s, c.toNat < 0x80

instance (s : JsString) : Decidable (IsAscii s) := List.decidableBAll _ s

/-- `s.toLowerCase()` -/
def toLowerCase (s : JsString) : JsString :=
  if IsAscii s then s.map fun c => if 65 ≤ c ∧ c ≤ 90 then c + 32 else c else rt.lowerOther s

/-- `s.toUpperCase()` -/
def toUpperCase (s : JsString) : JsString :=
  if IsAscii s then s.map fun c => if 97 ≤ c ∧ c ≤ 122 then c - 32 else c else rt.upperOther s

def UNSIGNED_PAYLOAD : JsString := js "UNSIGNED-PAYLOAD"

def SIGNATURE_HEADER : JsString := js "X-SpooVault-Signature"

def DEFAULT_MAX_SKEW_SEC : Float := 300

def isOriginAllowed (origin : Option JsString) (allowedOrigins : List JsString) : Bool :=
  let origin := origin.getD []
  decide (origin = [] ∨ js "*" ∈ allowedOrigins ∨ origin ∈ allowedOrigins)

def isMultipartContentType (contentType : Option JsString) : Bool :=
  decide (js "multipart/form-data" <:+: toLowerCase rt (contentType.getD []))

def sha256Hex (data : JsString) : JsString := hexString (rt.sha256 (stringToUint8Array data))

/-- `String(method)` is `"undefined"` where there is none. -/
def canonicalize (timestamp : Float) (method : Option JsString) (path bodyHash : JsString) : JsString :=
  numberToString timestamp ++ dot :: (toUpperCase rt (method.getD (js "undefined")) ++ dot :: (path ++ dot :: bodyHash))

def hmacSha256Hex (secret message : JsString) : JsString :=
  hexString (rt.hmacSha256 (stringToUint8Array secret) (stringToUint8Array message))

def formatSignatureHeader (timestamp : Float) (hex : JsString) : JsString :=
  js "t=" ++ (numberToString timestamp ++ (js ",v1=" ++ hex))

/-! ## The header -/

/-- The property that a piece of a header sets. -/
def assignment (piece : JsString) : Option (JsString × JsString) :=
  let trimmed := trim piece
  if trimmed = [] then none
  else if 0x3d ∉ trimmed then some (trimmed, [])
  else
    let key := trimmed.takeWhile (· ≠ 0x3d)
    some (trim key, trim (trimmed.drop (key.length + 1)))

def property (parts : List (JsString × JsString)) (key : JsString) : Option JsString :=
  ((parts.filter fun part => part.1 = key).getLast?).map Prod.snd

def parseSignatureHeader (value : Option JsString) : Option (Float × JsString) :=
  let value := value.getD []
  if value = [] then none
  else
    let parts := (value.splitOn 0x2c).filterMap assignment
    let timestamp := ((property parts (js "t")).map stringToNumber).getD nan
    let v1 := toLowerCase rt ((property parts (js "v1")).getD [])
    if timestamp.isFinite = false ∨ v1 = [] then none else some (timestamp, v1)

def timingSafeEqualHex (left right : JsString) : Bool :=
  if left.length ≠ right.length then false
  else decide ((left.zip right).foldl (fun mismatch (l, r) => mismatch ||| (l ^^^ r)) 0 = 0)

def resolveBodyHash (body : JsString) (unsignedBody : Bool) : JsString :=
  if unsignedBody then UNSIGNED_PAYLOAD else sha256Hex rt body

/-! ## Signing -/

/-- The arguments of `signProxyRequest`; `now` is what its clock says. -/
structure SignRequest where
  secret : JsString
  method : JsString
  path : JsString
  body : JsString
  unsignedBody : Bool
  timestamp : Option Float
  now : Float

def SignRequest.time (r : SignRequest) : Float := r.timestamp.getD r.now

structure Signed where
  timestamp : Float
  signature : JsString
  headers : List (JsString × JsString)

def canonicalOf (r : SignRequest) : JsString :=
  canonicalize rt r.time (some r.method) r.path (resolveBodyHash rt r.body r.unsignedBody)

def signProxyRequest (r : SignRequest) : Except Thrown Signed :=
  if r.secret = [] then .error (.error "IPFS proxy signing secret is not configured")
  else
    let v1 := hmacSha256Hex rt r.secret (canonicalOf rt r)
    let signature := formatSignatureHeader r.time v1
    .ok { timestamp := r.time, signature := signature, headers := [(SIGNATURE_HEADER, signature)] }

/-! ## Authorization -/

structure Decision where
  ok : Bool
  status : Option ℕ
  error : Option String
  deriving DecidableEq

def allowed : Decision := { ok := true, status := none, error := none }

def forbidden : Decision := { ok := false, status := some 403, error := some "Forbidden" }

/-- The arguments of `authorizeProxyRequest`; `now` is what the clock says. -/
structure ProxyRequest where
  method : Option JsString
  path : JsString
  origin : Option JsString
  signatureHeader : Option JsString
  body : JsString
  unsignedBody : Bool
  secret : Option JsString
  allowedOrigins : List JsString
  now : Float
  maxSkewSec : Option Float

def ProxyRequest.skew (r : ProxyRequest) : Float := r.maxSkewSec.getD DEFAULT_MAX_SKEW_SEC

def authorizeProxyRequest (r : ProxyRequest) : Decision :=
  if toUpperCase rt (r.method.getD []) = js "OPTIONS" then allowed
  else if r.secret.getD [] = [] then forbidden
  else if isOriginAllowed r.origin r.allowedOrigins = false then forbidden
  else match parseSignatureHeader rt r.signatureHeader with
    | none => forbidden
    | some (timestamp, v1) =>
      if r.skew < (r.now - timestamp).abs then forbidden
      else
        let bodyHash := resolveBodyHash rt r.body r.unsignedBody
        let canonical := canonicalize rt timestamp r.method r.path bodyHash
        let expected := hmacSha256Hex rt (r.secret.getD []) canonical
        if timingSafeEqualHex expected v1 = false then forbidden else allowed

structure IncomingRequest where
  method : Option JsString
  originalUrl : Option JsString
  path : Option JsString
  origin : Option JsString
  signatureHeader : Option JsString
  contentType : Option JsString
  rawBody : Option JsString

/-- What a proxy is configured with; `now` is what its clock says. -/
structure Env where
  secret : Option JsString
  allowedOrigins : List JsString
  now : Float
  maxSkewSec : Option Float

/-- The path with the query, without a fragment. -/
def IncomingRequest.fullPath (request : IncomingRequest) : JsString :=
  let url := if request.originalUrl.getD [] = [] then request.path.getD [] else request.originalUrl.getD []
  url.takeWhile (· ≠ 0x23)

def authorizeIncomingRequest (request : IncomingRequest) (env : Env) : Decision :=
  let unsignedBody := isMultipartContentType rt request.contentType
  authorizeProxyRequest rt
    { method := request.method
      path := request.fullPath
      origin := request.origin
      signatureHeader := request.signatureHeader
      body := if unsignedBody then [] else request.rawBody.getD []
      unsignedBody := unsignedBody
      secret := env.secret
      allowedOrigins := env.allowedOrigins
      now := env.now
      maxSkewSec := env.maxSkewSec }

/-! ## What is signed is accepted -/

theorem timingSafeEqualHex_iff {left right : JsString} : timingSafeEqualHex left right = true ↔ left = right := by
  have hfold : ∀ (l r : JsString), l.length = r.length → ∀ m : UInt16,
      (l.zip r).foldl (fun mismatch p => mismatch ||| (p.1 ^^^ p.2)) m = 0 ↔ m = 0 ∧ l = r := by
    intro l
    induction l with
    | nil =>
      intro r hr m
      rw [List.length_eq_zero_iff.mp hr.symm]
      simp
    | cons c l ih =>
      intro r hr m
      cases r with
      | nil => cases hr
      | cons d r =>
        have hlength : l.length = r.length := by simpa using hr
        rw [List.zip_cons_cons, List.foldl_cons, ih r hlength]
        simp [and_assoc]
  rw [timingSafeEqualHex]
  by_cases hlength : left.length = right.length
  · simp only [hlength, ne_eq, not_true_eq_false, if_false, decide_eq_true_eq]
    exact (hfold left right hlength 0).trans (and_iff_right rfl)
  · simp only [ne_eq, hlength, not_false_eq_true, if_true]
    apply iff_of_false Bool.false_ne_true
    intro h
    exact hlength (congrArg List.length h)

/-- A digit that `toHex` writes is none of the characters that a header is cut at, and keeps its case. -/
theorem hexString_lower {b : Bytes} {c : UInt16} (h : c ∈ hexString b) :
    c.toNat < 0x80 ∧ isWhiteSpace c = false ∧ c ≠ 0x2c ∧ c ≠ dot ∧ ¬ (65 ≤ c ∧ c ≤ 90) := by
  have hall : ∀ d : Fin 16, (hexDigit d).toNat < 0x80 ∧ isWhiteSpace (hexDigit d) = false ∧ hexDigit d ≠ 0x2c ∧
      hexDigit d ≠ dot ∧ ¬ (65 ≤ hexDigit d ∧ hexDigit d ≤ 90) := by decide
  obtain ⟨x, _, hx⟩ := List.mem_flatMap.mp h
  obtain ⟨hhigh, hlow⟩ := hexDigits_toNat x
  simp only [List.mem_cons, List.not_mem_nil, or_false] at hx
  obtain rfl | rfl := hx
  · exact hall ⟨_, hhigh⟩
  · exact hall ⟨_, hlow⟩

theorem toLowerCase_hexString (b : Bytes) : toLowerCase rt (hexString b) = hexString b := by
  have hascii : IsAscii (hexString b) := fun c hc => (hexString_lower hc).1
  rw [toLowerCase, if_pos hascii]
  refine (List.map_congr_left fun c hc => ?_).trans (List.map_id _)
  exact if_neg (hexString_lower hc).2.2.2.2

theorem assignment_eq {key value : JsString} (hkey : ∀ c ∈ key, isWhiteSpace c = false ∧ c ≠ 0x3d)
    (hvalue : ∀ c ∈ value, isWhiteSpace c = false) : assignment (key ++ 0x3d :: value) = some (key, value) := by
  have hspace : ∀ c ∈ key ++ 0x3d :: value, isWhiteSpace c = false := by
    intro c hc
    obtain hc | hc := List.mem_append.mp hc
    · exact (hkey c hc).1
    · obtain rfl | hc := List.mem_cons.mp hc
      · decide
      · exact hvalue c hc
  have htake : (key ++ 0x3d :: value).takeWhile (· ≠ 0x3d) = key := by
    rw [List.takeWhile_append_of_pos fun c hc => decide_eq_true (hkey c hc).2]
    simp
  have hdrop : (key ++ 0x3d :: value).drop (key.length + 1) = value := by
    rw [List.drop_append]
    simp
  rw [assignment, Secrets.trim_eq hspace]
  simp only [htake, hdrop, Secrets.trim_eq hvalue, Secrets.trim_eq fun c hc => (hkey c hc).1]
  rw [if_neg (by simp), if_neg (by simp)]

theorem parseSignatureHeader_format {timestamp : Float} (hfinite : timestamp.isFinite = true) {mac : Bytes}
    (hmac : mac ≠ []) : parseSignatureHeader rt (some (formatSignatureHeader timestamp (hexString mac))) =
      some (stringToNumber (numberToString timestamp), hexString mac) := by
  have hplain := numberToString_plain hfinite
  have hread : (stringToNumber (numberToString timestamp)).isFinite = true := by
    obtain h | ⟨_, h⟩ := stringToNumber_numberToString hfinite
    · rw [h]
      exact hfinite
    · rw [h]
      decide +kernel
  have hcomma : 0x2c ∉ js "t" ++ 0x3d :: numberToString timestamp ∧ 0x2c ∉ js "v1" ++ 0x3d :: hexString mac := by
    simp only [List.mem_append, List.mem_cons, not_or]
    exact ⟨⟨by decide, by decide, fun h => absurd (hplain _ h) (by decide)⟩,
      ⟨by decide, by decide, fun h => (hexString_lower h).2.2.1 rfl⟩⟩
  have hheader : formatSignatureHeader timestamp (hexString mac) =
      (js "t" ++ 0x3d :: numberToString timestamp) ++ 0x2c :: (js "v1" ++ 0x3d :: hexString mac) := by
    rw [formatSignatureHeader, show js "t=" = js "t" ++ [0x3d] by decide,
      show js ",v1=" = 0x2c :: (js "v1" ++ [0x3d]) by decide]
    simp
  have hpieces : (formatSignatureHeader timestamp (hexString mac)).splitOn 0x2c =
      [js "t" ++ 0x3d :: numberToString timestamp, js "v1" ++ 0x3d :: hexString mac] := by
    rw [hheader, List.splitOn_append_cons_self_of_not_mem hcomma.1, List.splitOn_eq_singleton hcomma.2]
  have hparts : ((formatSignatureHeader timestamp (hexString mac)).splitOn 0x2c).filterMap assignment =
      [(js "t", numberToString timestamp), (js "v1", hexString mac)] := by
    rw [hpieces]
    simp only [List.filterMap_cons, List.filterMap_nil]
    rw [assignment_eq (by decide) fun c hc => (isPlain_ascii (hplain c hc)).2,
      assignment_eq (by decide) fun c hc => (hexString_lower hc).2.1]
  have htime : property [(js "t", numberToString timestamp), (js "v1", hexString mac)] (js "t") =
      some (numberToString timestamp) := by
    simp [property, show js "v1" ≠ js "t" by decide]
  have hvalue : property [(js "t", numberToString timestamp), (js "v1", hexString mac)] (js "v1") =
      some (hexString mac) := by
    simp [property, show js "t" ≠ js "v1" by decide]
  have hhex : hexString mac ≠ [] := by
    intro h
    have hlength := hexString_length mac
    rw [h, List.length_nil] at hlength
    exact hmac (List.length_eq_zero_iff.mp (by omega))
  have hheaderNe : formatSignatureHeader timestamp (hexString mac) ≠ [] := by
    rw [hheader]
    simp
  rw [parseSignatureHeader]
  simp only [Option.getD_some, if_neg hheaderNe, hparts, htime, hvalue, Option.map_some, toLowerCase_hexString, hread,
    hhex, Bool.true_eq_false, or_self, if_false]

theorem sub_zero_abs (now : Float) {x y : Float} {s s' : Float.Model.UnpackedFloat.Sign}
    (hx : x.toModel.unpack = .zero s) (hy : y.toModel.unpack = .zero s') : (now - y).abs = (now - x).abs := by
  have hsub : ∀ {z : Float} {t : Float.Model.UnpackedFloat.Sign}, z.toModel.unpack = .zero t → (now - z).abs =
      .ofModel (Float.Model.abs (.pack (.sub .binary64 now.toModel.unpack (.zero t)))) := by
    intro z t hz
    rw [← hz]
    rfl
  rw [hsub hx, hsub hy]
  cases now.toModel.unpack with
  | notANumber => rfl
  | infinity t => rfl
  | finite t m e hm => rfl
  | zero t => cases t <;> cases s <;> cases s' <;> rfl

theorem time_read {timestamp : Float} (hfinite : timestamp.isFinite = true) :
    numberToString (stringToNumber (numberToString timestamp)) = numberToString timestamp ∧
      ∀ now, (now - stringToNumber (numberToString timestamp)).abs = (now - timestamp).abs := by
  obtain h | ⟨⟨s, hzero⟩, h⟩ := stringToNumber_numberToString hfinite
  · rw [h]
    exact ⟨rfl, fun _ => rfl⟩
  · have htext : numberToString timestamp = js "0" := by rw [numberToString, hzero]
    have htext' : numberToString (Doubles.ofDecimal false 0 0) = js "0" := by decide +kernel
    have hread : (Doubles.ofDecimal false 0 0).toModel.unpack = .zero .positive := rfl
    rw [h, htext, htext']
    exact ⟨rfl, fun now => sub_zero_abs now hzero hread⟩

def SignRequest.sent (r : SignRequest) (signature : JsString) (origin : Option JsString)
    (allowedOrigins : List JsString) (now : Float) (maxSkewSec : Option Float) : ProxyRequest where
  method := some r.method
  path := r.path
  origin := origin
  signatureHeader := some signature
  body := r.body
  unsignedBody := r.unsignedBody
  secret := some r.secret
  allowedOrigins := allowedOrigins
  now := now
  maxSkewSec := maxSkewSec

theorem signed_accepted (hmac : ∀ key message, rt.hmacSha256 key message ≠ []) {r : SignRequest} (hsecret : r.secret ≠ [])
    (hfinite : r.time.isFinite = true) {origin : Option JsString} {allowedOrigins : List JsString}
    (horigin : isOriginAllowed origin allowedOrigins = true) {now : Float} {maxSkewSec : Option Float}
    (hskew : ¬ maxSkewSec.getD DEFAULT_MAX_SKEW_SEC < (now - r.time).abs) :
    ∃ signed, signProxyRequest rt r = .ok signed ∧
      authorizeProxyRequest rt (r.sent signed.signature origin allowedOrigins now maxSkewSec) = allowed := by
  obtain ⟨htext, hdistance⟩ := time_read hfinite
  refine ⟨_, if_neg hsecret, ?_⟩
  have hparse := parseSignatureHeader_format rt hfinite (hmac (stringToUint8Array r.secret)
    (stringToUint8Array (canonicalOf rt r)))
  have hcanonical : canonicalize rt (stringToNumber (numberToString r.time)) (some r.method) r.path
      (resolveBodyHash rt r.body r.unsignedBody) = canonicalOf rt r := by
    rw [canonicalOf, canonicalize, canonicalize, htext]
  have hequal : timingSafeEqualHex (hmacSha256Hex rt r.secret (canonicalOf rt r))
      (hmacSha256Hex rt r.secret (canonicalOf rt r)) = true := timingSafeEqualHex_iff.mpr rfl
  rw [authorizeProxyRequest]
  simp only [SignRequest.sent, ProxyRequest.skew, Option.getD_some, if_neg hsecret, horigin, hmacSha256Hex]
  rw [hparse]
  simp only [hdistance, if_neg hskew, hcanonical, hmacSha256Hex] at hequal ⊢
  simp [hequal]

/-! ## What is accepted was signed -/

/-- Letters, and the dash that some methods have. -/
def IsMethod (method : JsString) : Prop := ∀ c ∈ method, (65 ≤ c ∧ c ≤ 90) ∨ (97 ≤ c ∧ c ≤ 122) ∨ c = 0x2d

instance (method : JsString) : Decidable (IsMethod method) := List.decidableBAll _ method

theorem toUpperCase_method {method : JsString} (h : IsMethod method) {c : UInt16} (hc : c ∈ toUpperCase rt method) :
    c.toNat < 0x80 ∧ c ≠ dot ∧ isDigit c = false := by
  have hall : ∀ n : Fin 128, ((65 ≤ UInt16.ofNat n ∧ UInt16.ofNat n ≤ 90) ∨
      (97 ≤ UInt16.ofNat n ∧ UInt16.ofNat n ≤ 122) ∨ UInt16.ofNat n = 0x2d) →
      let c := if 97 ≤ UInt16.ofNat n ∧ UInt16.ofNat n ≤ 122 then UInt16.ofNat n - 32 else UInt16.ofNat n
      c.toNat < 0x80 ∧ c ≠ dot ∧ isDigit c = false := by decide +kernel
  have hascii : IsAscii method := by
    intro c hc
    obtain ⟨_, hhigh⟩ | ⟨_, hhigh⟩ | rfl := h c hc
    · have hle : c.toNat ≤ 90 := UInt16.le_iff_toNat_le.mp hhigh
      omega
    · have hle : c.toNat ≤ 122 := UInt16.le_iff_toNat_le.mp hhigh
      omega
    · decide
  rw [toUpperCase, if_pos hascii] at hc
  obtain ⟨d, hd, rfl⟩ := List.mem_map.mp hc
  have hd' := hall ⟨d.toNat, hascii d hd⟩
  simp only [UInt16.ofNat_toNat] at hd'
  exact hd' (h d hd)

theorem resolveBodyHash_ascii (body : JsString) (unsignedBody : Bool) :
    ∀ c ∈ resolveBodyHash rt body unsignedBody, c.toNat < 0x80 ∧ c ≠ dot := by
  intro c hc
  rw [resolveBodyHash] at hc
  split at hc
  · have hall : ∀ c ∈ UNSIGNED_PAYLOAD, c.toNat < 0x80 ∧ c ≠ dot := by decide
    exact hall c hc
  · have hlower := hexString_lower hc
    exact ⟨hlower.1, hlower.2.2.2.1⟩

theorem resolveBodyHash_inj {body body' : JsString} {unsignedBody unsignedBody' : Bool}
    (h : resolveBodyHash rt body unsignedBody = resolveBodyHash rt body' unsignedBody') :
    unsignedBody = unsignedBody' ∧
      (unsignedBody = false → rt.sha256 (stringToUint8Array body) = rt.sha256 (stringToUint8Array body')) := by
  have hmarker : ∀ b : Bytes, UNSIGNED_PAYLOAD ≠ hexString b := by
    intro b heq
    have hmem : (0x55 : UInt16) ∈ hexString b := by
      rw [← heq]
      decide
    exact (hexString_lower hmem).2.2.2.2 (by decide)
  cases unsignedBody with
  | false =>
    cases unsignedBody' with
    | false => exact ⟨rfl, fun _ => hexString_injective h⟩
    | true => exact absurd h.symm (hmarker _)
  | true =>
    cases unsignedBody' with
    | false => exact absurd h (hmarker _)
    | true => exact ⟨rfl, fun hfalse => absurd hfalse (by decide)⟩

theorem cut_number {α : Type} {mark : α} {digit : α → Prop} {a a' b b' : List α}
    (ha : ∀ x y, a = x ++ mark :: y → ∃ d ∈ y.head?, digit d) (ha' : ∀ x y, a' = x ++ mark :: y → ∃ d ∈ y.head?, digit d)
    (hb : ∀ d ∈ b.head?, ¬ digit d) (hb' : ∀ d ∈ b'.head?, ¬ digit d) (h : a ++ mark :: b = a' ++ mark :: b') :
    a = a' ∧ b = b' := by
  obtain ⟨t, rfl, ht⟩ | ⟨t, rfl, ht⟩ := List.append_eq_append_iff.mp h
  · cases t with
    | nil => exact ⟨(List.append_nil a).symm, (List.cons.inj ht).2⟩
    | cons c t =>
      obtain ⟨rfl, rfl⟩ := List.cons.inj ht
      obtain ⟨d, hd, hdigit⟩ := ha' a t rfl
      obtain ⟨t', rfl⟩ := List.head?_eq_some_iff.mp hd
      exact absurd hdigit (hb d rfl)
  · cases t with
    | nil => exact ⟨List.append_nil a', (List.cons.inj ht).2.symm⟩
    | cons c t =>
      obtain ⟨rfl, rfl⟩ := List.cons.inj ht
      obtain ⟨d, hd, hdigit⟩ := ha a' t rfl
      obtain ⟨t', rfl⟩ := List.head?_eq_some_iff.mp hd
      exact absurd hdigit (hb' d rfl)

def IsDigitByte (b : UInt8) : Prop := 48 ≤ b ∧ b ≤ 57

instance : DecidablePred IsDigitByte := fun _ => inferInstanceAs (Decidable (_ ∧ _))

theorem byte_digit {c : UInt16} (h : c.toNat < 0x80) : IsDigitByte (UInt8.ofNat c.toNat) ↔ isDigit c = true := by
  have hall : ∀ n : Fin 128, (48 ≤ UInt8.ofNat n ∧ UInt8.ofNat n ≤ 57) ↔ isDigit (UInt16.ofNat n) = true := by
    decide +kernel
  have hc := hall ⟨c.toNat, h⟩
  simp only [UInt16.ofNat_toNat] at hc
  exact hc

theorem byte_dot {c : UInt16} (h : c.toNat < 0x80) (hc : UInt8.ofNat c.toNat = 0x2e) : c = dot := by
  have hall : ∀ n : Fin 128, UInt8.ofNat n = 0x2e → UInt16.ofNat n = dot := by decide +kernel
  have hdot := hall ⟨c.toNat, h⟩ hc
  simp only [UInt16.ofNat_toNat] at hdot
  exact hdot

theorem dot_not_mem_bytes {s : JsString} (h : ∀ c ∈ s, c.toNat < 0x80 ∧ c ≠ dot) : 0x2e ∉ stringToUint8Array s := by
  rw [stringToUint8Array_ascii fun c hc => (h c hc).1]
  intro hmem
  obtain ⟨c, hc, hbyte⟩ := List.mem_map.mp hmem
  exact (h c hc).2 (byte_dot (h c hc).1 hbyte)

theorem time_after_dot {x : Float} (h : x.isFinite = true) (a b : Bytes)
    (hab : stringToUint8Array (numberToString x) = a ++ 0x2e :: b) : ∃ d ∈ b.head?, IsDigitByte d := by
  have hascii : ∀ c ∈ numberToString x, c.toNat < 0x80 := fun c hc => (isPlain_ascii (numberToString_plain h c hc)).1
  rw [stringToUint8Array_ascii hascii] at hab
  obtain ⟨front, back, htext, rfl, hback⟩ := List.map_eq_append_iff.mp hab
  obtain ⟨c, rest, rfl, hc, rfl⟩ := List.map_eq_cons_iff.mp hback
  rw [htext] at hascii
  have hdot := byte_dot (hascii c (by simp)) hc
  rw [hdot] at htext
  obtain ⟨d, tail, rfl, hd⟩ := numberToString_after_dot h htext
  exact ⟨_, rfl, (byte_digit (hascii d (by simp))).mpr hd⟩

theorem canonicalize_bytes (timestamp : Float) (method : Option JsString) (path bodyHash : JsString) :
    stringToUint8Array (canonicalize rt timestamp method path bodyHash) =
      stringToUint8Array (numberToString timestamp) ++ 0x2e ::
        (stringToUint8Array (toUpperCase rt (method.getD (js "undefined"))) ++ 0x2e ::
          (stringToUint8Array path ++ 0x2e :: stringToUint8Array bodyHash)) := by
  have hdot : dot.toNat < 0x80 := by decide
  rw [canonicalize, stringToUint8Array_append hdot, stringToUint8Array_append hdot, stringToUint8Array_append hdot]
  rfl

theorem canonicalize_inj {timestamp timestamp' : Float} {method method' : Option JsString}
    {path path' body body' : JsString} {unsignedBody unsignedBody' : Bool} (hfinite : timestamp.isFinite = true)
    (hfinite' : timestamp'.isFinite = true) (hmethod : IsMethod (method.getD (js "undefined")))
    (hmethod' : IsMethod (method'.getD (js "undefined")))
    (h : stringToUint8Array (canonicalize rt timestamp method path (resolveBodyHash rt body unsignedBody)) =
      stringToUint8Array (canonicalize rt timestamp' method' path' (resolveBodyHash rt body' unsignedBody'))) :
    numberToString timestamp = numberToString timestamp' ∧
      toUpperCase rt (method.getD (js "undefined")) = toUpperCase rt (method'.getD (js "undefined")) ∧
      stringToUint8Array path = stringToUint8Array path' ∧
      resolveBodyHash rt body unsignedBody = resolveBodyHash rt body' unsignedBody' := by
  have hbegin : ∀ {m : JsString} (rest : Bytes), IsMethod m →
      ∀ d ∈ (stringToUint8Array (toUpperCase rt m) ++ 0x2e :: rest).head?, ¬ IsDigitByte d := by
    intro m rest hm d hd
    have hupper := fun c hc => toUpperCase_method rt hm (c := c) hc
    rw [stringToUint8Array_ascii fun c hc => (hupper c hc).1] at hd
    cases htext : toUpperCase rt m with
    | nil =>
      rw [htext] at hd
      rw [← Option.some.inj hd]
      decide
    | cons c text =>
      rw [htext] at hd hupper
      rw [← Option.some.inj hd, byte_digit (hupper c List.mem_cons_self).1, (hupper c List.mem_cons_self).2.2]
      exact Bool.false_ne_true
  have honeByte : ∀ {s : JsString}, (∀ c ∈ s, c.toNat < 0x80) → ∀ c ∈ s, c.toNat < 0x100 :=
    fun hs c hc => (hs c hc).trans (by decide)
  rw [canonicalize_bytes, canonicalize_bytes] at h
  obtain ⟨htime, h⟩ := cut_number (time_after_dot hfinite) (time_after_dot hfinite') (hbegin _ hmethod)
    (hbegin _ hmethod') h
  obtain ⟨hupper, h⟩ := cut_first
    (dot_not_mem_bytes fun c hc => ⟨(toUpperCase_method rt hmethod hc).1, (toUpperCase_method rt hmethod hc).2.1⟩)
    (dot_not_mem_bytes fun c hc => ⟨(toUpperCase_method rt hmethod' hc).1, (toUpperCase_method rt hmethod' hc).2.1⟩) h
  obtain ⟨hpath, hhash⟩ := cut_last (dot_not_mem_bytes (resolveBodyHash_ascii rt _ _))
    (dot_not_mem_bytes (resolveBodyHash_ascii rt _ _)) h
  refine ⟨oneByte_injective (honeByte ?_) htime, oneByte_injective (honeByte ?_) hupper, hpath,
    oneByte_injective (honeByte ?_) hhash⟩
  · exact fun c hc => (isPlain_ascii (numberToString_plain hfinite c hc)).1
  · exact fun c hc => (toUpperCase_method rt hmethod hc).1
  · exact fun c hc => (resolveBodyHash_ascii rt _ _ c hc).1

/-- A value that a header brings is the MAC of a message only where a signer has made it, of that message and under
that key. -/
def Unforgeable (signed : List SignRequest) (header : Option JsString) (secret : JsString) : Prop :=
  ∀ timestamp v1 message, parseSignatureHeader rt header = some (timestamp, v1) → hmacSha256Hex rt secret message = v1 →
    ∃ r ∈ signed, stringToUint8Array r.secret = stringToUint8Array secret ∧
      stringToUint8Array (canonicalOf rt r) = stringToUint8Array message

/-- A request with that time is one that was signed. Paths are text for the MAC, so lone surrogates count as the same;
where there are none, and where a path has one-byte units only, as it comes in a request line, it is the signed one. -/
structure Agrees (request : IncomingRequest) (timestamp : Float) (r : SignRequest) : Prop where
  time : timestamp = r.time ∨ IsZero timestamp ∧ IsZero r.time
  method : toUpperCase rt (request.method.getD (js "undefined")) = toUpperCase rt r.method
  path : stringToUint8Array request.fullPath = stringToUint8Array r.path
  path_eq : (∀ c ∈ request.fullPath, c.toNat < 0x100) ∨
    (Utf8.WellFormed (request.fullPath.map UInt16.toNat) ∧ Utf8.WellFormed (r.path.map UInt16.toNat)) →
    request.fullPath = r.path
  body : (isMultipartContentType rt request.contentType = true ∧ r.unsignedBody = true) ∨
    (isMultipartContentType rt request.contentType = false ∧ r.unsignedBody = false ∧
      rt.sha256 (stringToUint8Array (request.rawBody.getD [])) = rt.sha256 (stringToUint8Array r.body))

theorem parseSignatureHeader_finite {header : Option JsString} {timestamp : Float} {v1 : JsString}
    (h : parseSignatureHeader rt header = some (timestamp, v1)) : timestamp.isFinite = true := by
  simp only [parseSignatureHeader] at h
  split at h
  · cases h
  split at h
  · cases h
  · next hread =>
    obtain ⟨rfl, _⟩ := Prod.mk.inj (Option.some.inj h)
    simpa using (not_or.mp hread).1

theorem authorizeProxyRequest_mac {r : ProxyRequest} (hoptions : toUpperCase rt (r.method.getD []) ≠ js "OPTIONS")
    (haccepted : authorizeProxyRequest rt r = allowed) : ∃ timestamp v1,
      parseSignatureHeader rt r.signatureHeader = some (timestamp, v1) ∧
        hmacSha256Hex rt (r.secret.getD [])
          (canonicalize rt timestamp r.method r.path (resolveBodyHash rt r.body r.unsignedBody)) = v1 := by
  rw [authorizeProxyRequest, if_neg hoptions] at haccepted
  split at haccepted
  · cases haccepted
  split at haccepted
  · cases haccepted
  split at haccepted
  · cases haccepted
  · next timestamp v1 hparse =>
    split at haccepted
    · cases haccepted
    · dsimp only at haccepted
      split at haccepted
      · cases haccepted
      · next hequal => exact ⟨timestamp, v1, hparse, timingSafeEqualHex_iff.mp (by simpa using hequal)⟩

theorem accepted_agrees {signed : List SignRequest} {request : IncomingRequest} {env : Env}
    (hsigned : ∀ r ∈ signed, r.time.isFinite = true ∧ IsMethod r.method)
    (hmethod : IsMethod (request.method.getD (js "undefined")))
    (hoptions : toUpperCase rt (request.method.getD []) ≠ js "OPTIONS")
    (hideal : Unforgeable rt signed request.signatureHeader (env.secret.getD []))
    (haccepted : authorizeIncomingRequest rt request env = allowed) :
    ∃ timestamp v1, parseSignatureHeader rt request.signatureHeader = some (timestamp, v1) ∧
      ∃ r ∈ signed, Agrees rt request timestamp r := by
  obtain ⟨timestamp, v1, hparse, hmac⟩ := authorizeProxyRequest_mac rt hoptions haccepted
  obtain ⟨r, hr, _, hbytes⟩ := hideal timestamp v1 _ hparse hmac
  obtain ⟨hfinite, hletters⟩ := hsigned r hr
  have hread := parseSignatureHeader_finite rt hparse
  have hletters' : IsMethod ((some r.method).getD (js "undefined")) := hletters
  obtain ⟨htime, hupper, hpath, hhash⟩ := canonicalize_inj rt hread hfinite hmethod hletters' hbytes.symm
  obtain ⟨hunsigned, hbody⟩ := resolveBodyHash_inj rt hhash
  refine ⟨timestamp, v1, hparse, r, hr, numberToString_injective hread hfinite htime, hupper, hpath, ?_, ?_⟩
  · intro htext
    obtain honeByte | ⟨hwell, hwell'⟩ := htext
    · exact oneByte_injective honeByte hpath
    · exact wellFormed_injective hwell hwell' hpath
  · cases hmultipart : isMultipartContentType rt request.contentType with
    | true => exact Or.inl ⟨rfl, hunsigned.symm.trans hmultipart⟩
    | false =>
      have hbody := hbody hmultipart
      simp only [hmultipart, Bool.false_eq_true, if_false] at hbody
      exact Or.inr ⟨rfl, hunsigned.symm.trans hmultipart, hbody⟩

/-- The proxy accepts what was signed, and of requests that are no preflights nothing else. -/
theorem accepts_signed (hmac : ∀ key message, rt.hmacSha256 key message ≠ []) :
    (∀ r : SignRequest, r.secret ≠ [] → r.time.isFinite = true → ∀ origin allowedOrigins,
      isOriginAllowed origin allowedOrigins = true → ∀ now maxSkewSec,
      ¬ Option.getD maxSkewSec DEFAULT_MAX_SKEW_SEC < (now - r.time).abs → ∃ signed, signProxyRequest rt r = .ok signed ∧
        authorizeProxyRequest rt (r.sent signed.signature origin allowedOrigins now maxSkewSec) = allowed) ∧
      ∀ (signed : List SignRequest) (request : IncomingRequest) (env : Env), (∀ r ∈ signed, r.time.isFinite = true ∧ IsMethod r.method) →
        IsMethod (request.method.getD (js "undefined")) → toUpperCase rt (request.method.getD []) ≠ js "OPTIONS" →
        Unforgeable rt signed request.signatureHeader (env.secret.getD []) →
        authorizeIncomingRequest rt request env = allowed →
        ∃ timestamp v1, parseSignatureHeader rt request.signatureHeader = some (timestamp, v1) ∧
          ∃ r ∈ signed, Agrees rt request timestamp r :=
  ⟨fun _ hsecret hfinite _ _ horigin _ _ hskew => signed_accepted rt hmac hsecret hfinite horigin hskew,
    fun _ _ _ hsigned hmethod hoptions hideal haccepted =>
      accepted_agrees rt hsigned hmethod hoptions hideal haccepted⟩

def signedMessage : Bytes :=
  stringToUint8Array (js "1700000000.GET./api?x=1.e3b0c44298fc1c149afbf4c8996fb92427ae41e4649b934ca495991b7852b855")

/-- The digests as they are on the request's values. -/
def sampleRuntime : Runtime where
  sha256 text := if text = [] then bytesBE 32 0xe3b0c44298fc1c149afbf4c8996fb92427ae41e4649b934ca495991b7852b855 else []
  hmacSha256 key message := if key = stringToUint8Array (js "key") ∧ message = signedMessage then
    bytesBE 32 0xf51bd299fbb492d861ce3f5f5595fecceef7106b1bbd072cdc9dafd3a7ec44e0 else [0]
  lowerOther := id
  upperOther := id

def signedRequest : SignRequest where
  secret := js "key"
  method := js "GET"
  path := js "/api?x=1"
  body := []
  unsignedBody := false
  timestamp := some 1700000000
  now := 0

/-- The same request with other letters and a fragment, and with the time written in two other ways. -/
def respelledRequest : IncomingRequest where
  method := some (js "get")
  originalUrl := some (js "/api?x=1#top")
  path := none
  origin := none
  signatureHeader := some (js " zz, t = 0x6553F100 ,v1 = " ++
    (hmacSha256Hex sampleRuntime (js "key") (canonicalOf sampleRuntime signedRequest) ++ js ",t= 17e8,__proto__=3"))
  contentType := none
  rawBody := none

def respelledEnv : Env where
  secret := some (js "key")
  allowedOrigins := []
  now := 1700000100
  maxSkewSec := none

theorem sample_mac (key message : Bytes) : sampleRuntime.hmacSha256 key message ≠ [] := by
  simp only [sampleRuntime]
  split
  · decide
  · decide

theorem accepts_signed_respelled :
    (∃ signed, signProxyRequest sampleRuntime signedRequest = .ok signed ∧
      authorizeProxyRequest sampleRuntime (signedRequest.sent signed.signature none [] 1700000100 none) = allowed) ∧
      ∃ timestamp v1, parseSignatureHeader sampleRuntime respelledRequest.signatureHeader = some (timestamp, v1) ∧
        ∃ r ∈ [signedRequest], Agrees sampleRuntime respelledRequest timestamp r := by
  have hv1 : (parseSignatureHeader sampleRuntime respelledRequest.signatureHeader).map Prod.snd =
      some (hmacSha256Hex sampleRuntime (js "key") (canonicalOf sampleRuntime signedRequest)) := by decide +kernel
  have hideal : Unforgeable sampleRuntime [signedRequest] respelledRequest.signatureHeader (js "key") := by
    intro timestamp v1 message hparse hmac
    rw [hparse, ← hmac] at hv1
    have hbytes := hexString_injective (Option.some.inj hv1)
    have hcanonical : stringToUint8Array (canonicalOf sampleRuntime signedRequest) = signedMessage := by decide +kernel
    rw [hcanonical] at hbytes
    refine ⟨signedRequest, List.mem_singleton_self _, rfl, hcanonical.trans ?_⟩
    simp only [sampleRuntime, true_and, ↓reduceIte] at hbytes
    split at hbytes
    · next hsame => exact hsame.symm
    · exact absurd hbytes (by decide)
  have haccepted : authorizeIncomingRequest sampleRuntime respelledRequest respelledEnv = allowed := by decide +kernel
  obtain ⟨hsent, hagrees⟩ := accepts_signed sampleRuntime sample_mac
  constructor
  · exact hsent signedRequest (by decide) (by decide +kernel) none [] (by decide) 1700000100 none (by decide +kernel)
  · exact hagrees [signedRequest] respelledRequest respelledEnv (by decide +kernel) (by decide) (by decide) hideal haccepted

end ChainGuard.OffChain.IpfsProxy
