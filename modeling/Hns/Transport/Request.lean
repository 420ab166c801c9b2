import Hns.Transport.Http11

/-!
# Requests on the wire

How `hns-transport` checks a request (`validateRequest`) and writes it for
HTTP/1.1 (`buildHttpRequest`).
-/

namespace Hns

open Http11

def isAsciiControl (byte : UInt8) : Bool := byte < 0x20 ∨ byte = 0x7f

def isValidHost (host : List Char) : Bool :=
  host ≠ [] ∧ (utf8 host).length ≤ 253 ∧
    (utf8 host).all fun byte => !isAsciiControl byte ∧ byte ∉ [0x2f, 0x3f, 0x23, 0x40, 0x20]

/-- The name of a header, without regard to case. -/
def IsNamed (name : List Char) (expected : String) : Prop := asciiLower name = Chars.of expected

instance (name : List Char) (expected : String) : Decidable (IsNamed name expected) :=
  inferInstanceAs (Decidable (_ = _))

def isProtocolUpgrade (headers : List (List Char × List Char)) : Bool :=
  headers.any fun header => IsNamed header.1 "upgrade" ∨
    (IsNamed header.1 "connection" ∧
      hasHeaderToken (utf8 header.2) (utf8 (Chars.of "upgrade")))

def isHopByHopHeader (name : List Char) : Bool :=
  ["connection", "keep-alive", "proxy-authenticate", "proxy-authorization", "proxy-connection",
    "te", "trailer", "transfer-encoding", "upgrade"].any fun header => IsNamed name header

def validateRequestCommon (request : OriginRequest) (limits : TransportLimits) :
    Except TransportError Unit := do
  if !isHttpToken (utf8 request.method) ∨ !isValidHost request.host ∨ request.port = 0 ∨
      request.pathAndQuery.head? ≠ some '/' ∨
      (utf8 request.pathAndQuery).any (fun byte => isAsciiControl byte ∨ byte = 0x20) then
    throw .invalidRequest
  if request.connectHost.any fun host => !isValidHost host then throw .invalidRequest
  if limits.maxRequestBodyBytes < request.body.length then throw .requestTooLarge
  if request.headers.any fun header => !isHttpToken (utf8 header.1) ∨ '\r' ∈ header.2 ∨
      '\n' ∈ header.2 then
    throw .invalidRequest

def validateRequest (request : OriginRequest) (limits : TransportLimits) :
    Except TransportError Unit := do
  validateRequestCommon request limits
  if isProtocolUpgrade request.headers then throw .unsupportedUpgrade

def hostHeader (host : List Char) (port : UInt16) (scheme : List Char) : List Char :=
  let defaultPort : UInt16 := if IsNamed scheme "https" then 443 else 80
  let bracketedHost := if ':' ∈ host ∧ host.head? ≠ some '[' then '[' :: host ++ [']'] else host
  if port = defaultPort then bracketedHost
  else bracketedHost ++ ':' :: Chars.decimal port.toNat

def buildHttpRequest (request : OriginRequest) (keepAlive : Bool) : List UInt8 :=
  let line (text : List Char) : List UInt8 := utf8 text ++ crlf
  let headers := request.headers.filter fun header =>
    ¬(isHopByHopHeader header.1 ∨ IsNamed header.1 "host" ∨ IsNamed header.1 "content-length")
  let connection := if keepAlive then Chars.of "keep-alive" else Chars.of "close"
  line (request.method.map Char.toUpper ++ [' '] ++ request.pathAndQuery ++ Chars.of " HTTP/1.1") ++
    line (Chars.of "Host: " ++ hostHeader request.host request.port request.scheme) ++
    line (Chars.of "User-Agent: hns-browser/0.2.7") ++ line (Chars.of "Accept: */*") ++
    headers.flatMap (fun header => line (header.1 ++ Chars.of ": " ++ header.2)) ++
    if request.body = [] then line (Chars.of "Connection: " ++ connection) ++ crlf
    else
      line (Chars.of "Content-Length: " ++ Chars.decimal request.body.length) ++
        line (Chars.of "Connection: " ++ connection) ++ crlf ++ request.body

end Hns
