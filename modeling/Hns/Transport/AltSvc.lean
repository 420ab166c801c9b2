import Hns.Transport.Wire

/-!
# Alternative services

What `TcpHttpTransport` of `hns-transport` takes from the `Alt-Svc` fields of a
response (`recordAltSvc`), and does with it in a later request (`promotedRequest`).

The loop of `selected_alt_svc_endpoint` is to find the best of the alternatives
that an origin has at its own host and port, which the last section defines from
the grammar of the field (`OwnAlternative`).
-/

namespace Hns

open Http11

open DnsName (trim isWhitespace)

def maxAltSvcAgeSecs : ℕ := 24 * 60 * 60

structure AltSvcKey where
  scheme : List Char
  host : List Char
  port : UInt16
  deriving DecidableEq

/-- The time is in seconds. -/
structure AltSvcEndpoint where
  protocol : OriginProtocol
  port : UInt16
  expiresAt : ℕ
  deriving DecidableEq

/-! ## The fields -/

def trimStart (text : List Char) : List Char := text.dropWhile isWhitespace

/-- `parse` of a number. -/
def parseNumber (bound : ℕ) (text : List Char) : Option ℕ := fromStrRadix 10 bound (utf8 text)

def protocolRank : OriginProtocol → ℕ
  | .http3 => 3
  | .http2 => 2
  | .http11 => 1

def altSvcAuthorityPort (authority : List Char) (defaultPort : UInt16) : Option UInt16 :=
  if authority = [] then some defaultPort
  else if ':' ∈ authority then
    -- What `rsplit_once` gives is what `strip_prefix` leaves, if there is nothing before the colon.
    let portText :=
      if authority.head? = some ':' then authority.tail
      else (authority.reverse.takeWhile (· ≠ ':')).reverse
    (parseNumber (2 ^ 16) portText).map UInt16.ofNat
  else none

def altSvcMaxAge (params : List Char) : Option ℕ :=
  (params.splitOn ';').findSome? fun param => do
    let (name, value) ← splitOnce '=' (trim param)
    if asciiLower (trim name) = Chars.of "ma" then
      parseNumber (2 ^ 64) (trimMatches (· = '"') (trim value))
    else none

/-- The protocol of an alternative. -/
def altSvcProtocol (name : List Char) : Option OriginProtocol :=
  let protocol := asciiLower (trim name)
  if protocol = Chars.of "h3" ∨ Chars.of "h3-" <+: protocol then some .http3
  else if protocol = Chars.of "h2" then some .http2
  else none

/-- A round of the loop of `selected_alt_svc_endpoint`, behind the split at the equals sign: the
    endpoint, if there is no reason to `continue`. -/
def altSvcEndpoint (now : ℕ) (requestPort : UInt16) (name rest : List Char) :
    Option AltSvcEndpoint := do
  let protocol ← altSvcProtocol name
  let authority := trimStart rest
  guard (authority.head? = some '"')
  let (authorityValue, params) ← splitOnce '"' authority.tail
  let port ← altSvcAuthorityPort authorityValue requestPort
  guard (port = requestPort)
  let maxAge := (altSvcMaxAge params).getD maxAltSvcAgeSecs
  guard (maxAge ≠ 0)
  return { protocol, port, expiresAt := now + min maxAge maxAltSvcAgeSecs }

/-- The loop of `selected_alt_svc_endpoint`, with the best endpoint so far. -/
def selectLoop (now : ℕ) (requestPort : UInt16) :
    List (List Char) → Option AltSvcEndpoint → Option AltSvcEndpoint
  | [], best => best
  | alternative :: alternatives, best =>
    match splitOnce '=' (trim alternative) with
    | none => none
    | some (name, rest) =>
      match altSvcEndpoint now requestPort name rest with
      | none => selectLoop now requestPort alternatives best
      | some endpoint =>
        if best.all fun current =>
            protocolRank current.protocol < protocolRank endpoint.protocol then
          selectLoop now requestPort alternatives (some endpoint)
        else selectLoop now requestPort alternatives best

/-- The parts of the values between commas. -/
def alternatives (values : List (List Char)) : List (List Char) :=
  values.flatMap fun value => value.splitOn ','

def selectedAltSvcEndpoint (now : ℕ) (values : List (List Char)) (requestPort : UInt16) :
    Option AltSvcEndpoint := selectLoop now requestPort (alternatives values) none

/-! ## The table of endpoints -/

abbrev AltSvcTable := Table AltSvcKey AltSvcEndpoint

def altSvcKey (request : OriginRequest) : AltSvcKey where
  scheme := Chars.of "https"
  host := asciiLower request.host
  port := request.port

def promotedRequest (now : ℕ) (altSvc : AltSvcTable) (request : OriginRequest) : OriginRequest :=
  if asciiLower request.scheme ≠ Chars.of "https" ∨ request.protocol = .http3 then request
  else
    match altSvc (altSvcKey request) with
    | none => request
    | some endpoint =>
      if endpoint.expiresAt ≤ now ∨ endpoint.port ≠ request.port then request
      else { request with protocol := endpoint.protocol }

/-- The headers of a response are octets, which are texts. -/
def recordAltSvc (now : ℕ) (request : OriginRequest) (headers : Http11.Headers) (altSvc : AltSvcTable) :
    AltSvcTable :=
  if asciiLower request.scheme ≠ Chars.of "https" then altSvc
  else
    let values := (values headers (utf8 (Chars.of "alt-svc"))).map fun value =>
      (fromUtf8 value).getD []
    if values = [] then altSvc
    else if values.any fun value => asciiLower (trim value) = Chars.of "clear" then
      Function.update altSvc (altSvcKey request) none
    else
      match selectedAltSvcEndpoint now values request.port with
      | none => altSvc
      | some endpoint => altSvc.insert (altSvcKey request) endpoint

/-! ## Own alternatives -/

/-- Whether a text is in quotes, and whether the last character escapes the next one. -/
inductive Quoting
  | plain
  | quoted
  | escaped

def Quoting.next : Quoting → Char → Quoting
  | .plain, c => if c = '"' then .quoted else .plain
  | .quoted, c => if c = '"' then .plain else if c = '\\' then .escaped else .quoted
  | .escaped, _ => .quoted

/-- What stands between quotes, and what it stands for. -/
inductive Quoted : List Char → List Char → Prop
  | nil : Quoted [] []
  | text {c : Char} {raw text : List Char} (hquote : c ≠ '"') (hescape : c ≠ '\\')
      (hrest : Quoted raw text) : Quoted (c :: raw) (c :: text)
  | escaped {c : Char} {raw text : List Char} (hrest : Quoted raw text) :
      Quoted ('\\' :: c :: raw) (c :: text)

/-- A value of a parameter as it stands, and what it is. -/
inductive IsValue : List Char → List Char → Prop
  | token {value : List Char} (h : isHttpToken (utf8 value)) : IsValue value value
  | quoted {raw value : List Char} (h : Quoted raw value) : IsValue ('"' :: (raw ++ ['"'])) value

/-- `*( OWS ";" OWS parameter )`. -/
inductive Parameters : List Char → List (List Char × List Char) → Prop
  | nil : Parameters [] []
  | cons {before after name value text rest : List Char} {params : List (List Char × List Char)}
      (hbefore : IsOws before) (hafter : IsOws after) (hname : isHttpToken (utf8 name))
      (hvalue : IsValue text value) (hrest : Parameters rest params) :
      Parameters (before ++ ';' :: (after ++ name ++ '=' :: text) ++ rest) ((name, value) :: params)

/-- A number in decimal digits. -/
def IsNumber (text : List Char) (number : ℕ) : Prop :=
  IsDigits 10 (utf8 text) ∧ digitsValue 10 (utf8 text) = number

/-- The endpoint is one of the best of some protocols. -/
def IsBest (result : Option AltSvcEndpoint) (own : OriginProtocol → Prop) : Prop :=
  match result with
  | none => ∀ protocol, ¬own protocol
  | some endpoint =>
    own endpoint.protocol ∧ ∀ protocol, own protocol →
      protocolRank protocol ≤ protocolRank endpoint.protocol

end Hns
