import Hns.Core.Hash

/-!
# Handshake names

The names that Handshake gives out, and the hash under which the tree has one.
-/

namespace Hns

def maxHandshakeNameLen : ℕ := 63

inductive NameHashError
  | empty
  | tooLong
  | uppercase
  | invalidCharacter
  | invalidBoundary
  | blacklisted
  deriving DecidableEq

instance : ToString NameHashError where
  toString
    | .empty => "Handshake name is empty"
    | .tooLong => "Handshake name exceeds 63 bytes"
    | .uppercase => "Handshake name contains an uppercase character"
    | .invalidCharacter => "Handshake name contains an invalid character"
    | .invalidBoundary => "Handshake name begins or ends with '-' or '_'"
    | .blacklisted => "Handshake name is blacklisted"

/-- The octets of a text. -/
def utf8 (text : List Char) : List UInt8 := text.flatMap String.utf8EncodeChar

/-- The names that are reserved. -/
def blacklist : List (List Char) :=
  ["example".toList, "invalid".toList, "local".toList, "localhost".toList, "test".toList]

/-- The loop of `validate_handshake_name`, at `index` of a name of `length` octets. -/
def validateHandshakeBytes (length : ℕ) : ℕ → List UInt8 → Except NameHashError Unit
  | _, [] => .ok ()
  | index, byte :: rest =>
    if (0x30 ≤ byte ∧ byte ≤ 0x39) ∨ (0x61 ≤ byte ∧ byte ≤ 0x7a) then
      validateHandshakeBytes length (index + 1) rest
    else if 0x41 ≤ byte ∧ byte ≤ 0x5a then .error .uppercase
    else if byte = 0x2d ∨ byte = 0x5f then
      if index = 0 ∨ index + 1 = length then .error .invalidBoundary
      else validateHandshakeBytes length (index + 1) rest
    else .error .invalidCharacter

def validateHandshakeName (name : List Char) : Except NameHashError Unit :=
  let bytes := utf8 name
  if bytes = [] then .error .empty
  else if maxHandshakeNameLen < bytes.length then .error .tooLong
  else if name ∈ blacklist then .error .blacklisted
  else validateHandshakeBytes bytes.length 0 bytes

abbrev NameHash := Hash

/-- `NameHash::from_name`. -/
def NameHash.fromName [Digests] (name : List Char) : Except NameHashError NameHash :=
  (validateHandshakeName name).map fun _ => sha3_256 [utf8 name]

end Hns
