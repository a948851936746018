import Mathlib.Tactic.Common

/-!
# Errors of the crypto crate

One variant for each of its areas, with the text of the failure.
-/

namespace Ezpds.Crypto

inductive CryptoError where
  | keyGeneration (message : String)
  | encryption (message : String)
  | decryption (message : String)
  | secretSharing (message : String)
  | secretReconstruction (message : String)
  | shareVersion (message : String)
  | shareChecksum (message : String)
  | shareFormat (message : String)
  | plcOperation (message : String)
  | signatureVerification (message : String)
  | space (message : String)
  deriving DecidableEq, Repr

/-- The text that the error displays. -/
def CryptoError.text : CryptoError → String
  | keyGeneration message => "key generation failed: " ++ message
  | encryption message => "encryption failed: " ++ message
  | decryption message => "decryption failed: " ++ message
  | secretSharing message => "secret sharing failed: " ++ message
  | secretReconstruction message => "secret reconstruction failed: " ++ message
  | shareVersion message => "share envelope has unsupported version: " ++ message
  | shareChecksum message => "share envelope checksum mismatch: " ++ message
  | shareFormat message => "share envelope malformed: " ++ message
  | plcOperation message => "plc operation failed: " ++ message
  | signatureVerification message => "signature verification failed: " ++ message
  | space message => "space primitive failed: " ++ message

end Ezpds.Crypto
