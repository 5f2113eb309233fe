import Hmux.Lib.Base64
import Hmux.Lib.Civil
import Hmux.Lib.Json.Go
import Hmux.Lib.Text

namespace Hmux.Auth

open Lib

/-!
# Credentials

`auth.rs`: what an account is known by.  The hash functions and the reader of base 32 are those of
other crates (`Crypto`); what they are applied to is spelled out.

The fingerprint of credentials leaves `last_step` out, so a code that is used up does not end the
logins of its account, while the switch of the second factor is part of it.

Nothing is assumed of the hash functions in general.  Where a proof needs two texts to have
different hashes, it says which texts these are.
-/

/-- The hash functions and the base 32 of other crates. -/
structure Crypto where
  sha256 : List UInt8 → Vector UInt8 32
  /-- PBKDF2 with HMAC-SHA256 and 600 000 rounds, of a password and a salt. -/
  pbkdf2 : List UInt8 → List UInt8 → Vector UInt8 32
  /-- HMAC-SHA1 of a key and a message. -/
  hmacSha1 : List UInt8 → List UInt8 → Vector UInt8 20
  /-- `BASE32_NOPAD.decode`. -/
  base32 : List UInt8 → Option (List UInt8)

/-- `Credentials`. -/
structure Credentials where
  username : String
  salt : List UInt8
  hash : List UInt8
  totpSecret : String
  lastStep : ℤ
  totpDisabled : Bool
  deriving DecidableEq

/-- `STANDARD.encode`. -/
def standard64 (l : List UInt8) : String :=
  String.ofList (Base64.encode Base64.standard true l)

/-- The eight bytes of a number, the highest first. -/
def beBytes (n : ℤ) : List UInt8 :=
  (List.range 8).map fun i => UInt8.ofNat ((n % 2 ^ 64).toNat / 256 ^ (7 - i) % 256)

section

variable (C : Crypto)

/-- `decode_totp_secret`. -/
def decodeTotpSecret (value : String) : Option (List UInt8) :=
  (C.base32 (bytes value)).filter fun b => b.length = 20

/-- `derive_password`. -/
def derivePassword (password : String) (salt : List UInt8) : List UInt8 :=
  (C.pbkdf2 (bytes password) salt).toList

/-- `token_hash`. -/
def tokenHash (token : String) : String := Base64.urlSafeNoPad (C.sha256 (bytes token)).toList

/-- `csrf_token`. -/
def csrfToken (token : String) : String :=
  Base64.urlSafeNoPad (C.sha256 (bytes "hmux csrf\x00" ++ bytes token)).toList

/-- `account_profile`. -/
def accountProfile (username : String) : String :=
  String.ofList ((C.sha256 (bytes username)).toList.flatMap fun b => Json.hexPair b.toNat)

end

/-- `token::valid`. -/
def validToken (value : String) : Bool :=
  (bytes value).length == 43 && (Base64.urlSafeBytes value).any fun b => b.length == 32

namespace Credentials

variable (C : Crypto)

/-- `validate`. -/
def valid (c : Credentials) : Bool :=
  !(c.username == "") && c.salt.length == 32 && c.hash.length == 32 &&
    (decodeTotpSecret C c.totpSecret).isSome

/-- `fingerprint_input`. -/
def fingerprintInput (c : Credentials) : String :=
  String.ofList <|
    "\x7b\"username\":".toList ++ Json.goString c.username ++
    ",\"salt\":".toList ++ Json.goString (standard64 c.salt) ++
    ",\"hash\":".toList ++ Json.goString (standard64 c.hash) ++
    ",\"totp_secret\":".toList ++ Json.goString c.totpSecret ++
    (if c.totpDisabled then ",\"totp_disabled\":true".toList else []) ++ "\x7d".toList

/-- `fingerprint`. -/
def fingerprint (c : Credentials) : String :=
  Base64.urlSafeNoPad (C.sha256 (bytes c.fingerprintInput)).toList

/-- The six digits for a step. -/
def totpCode (secret : List UInt8) (step : ℤ) : String :=
  let digest := (C.hmacSha1 secret (beBytes step)).toList
  let offset := (digest.getD 19 0).toNat % 16
  let word := (List.range 4).foldl (fun n i => n * 256 + (digest.getD (offset + i) 0).toNat) 0
  String.ofList (Civil.fixed 6 (word % 2 ^ 31 % 1000000))

/-- `match_code`: the step of a code, one of three around the time. -/
def matchCode (c : Credentials) (code : String) (unixSeconds : ℤ) : Option ℤ :=
  match decodeTotpSecret C c.totpSecret with
  | none => none
  | some secret =>
    if (bytes code).length ≠ 6 || !(bytes code).all fun b => 48 ≤ b && b ≤ 57 then none
    else
      -- the quotient is rounded towards zero
      [-1, 0, 1].findSome? fun delta =>
        let step := unixSeconds.tdiv 30 + delta
        if totpCode C secret step = code then some step else none

/-- The fingerprint does not depend on the last step. -/
@[simp] theorem fingerprint_lastStep (c : Credentials) (step : ℤ) :
    fingerprint C { c with lastStep := step } = fingerprint C c := rfl

end Credentials

end Hmux.Auth
