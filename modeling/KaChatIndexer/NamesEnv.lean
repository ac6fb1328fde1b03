import KaChatIndexer.NamesState

/-!
# What the applier takes from outside the repository

The hash functions, the curve check, the hex and JSON decoders are third-party crates, and the
iteration order of a `HashMap` is unspecified: they are parameters of the model. The JSON decoder
is only asked for the record's raw fields, so the rules of `parse_profile` stay in the model.
-/
namespace KaChatIndexer.NamesEnv
open ByteStrings NamesState

/-- What `serde_json` reads from a profile record, before the repository's own checks. -/
structure RawProfile where
  v : Option UInt32
  avatar : Option Bytes
  banner : Option Bytes
  bio : Option Bytes
  linktree : Option Bytes
  primaryName : Option Bytes

structure Env where
  /-- `blake3::hash` -/
  blake3 : Bytes → Bytes32
  /-- `blake2b_simd` with a 32-byte digest -/
  blake2b256 : Bytes → Bytes32
  /-- `secp256k1::XOnlyPublicKey::from_slice(k).is_ok()` -/
  isXOnlyKey : Bytes32 → Bool
  /-- `hex::decode` -/
  hexDecode : Bytes → Option Bytes
  /-- `serde_json::from_str::<RawProfile>` -/
  rawProfile : Bytes → Option RawProfile
  /-- The order in which the UTXO map is iterated: its keys, each once. -/
  iter : (m : UtxoMap) → { l : List Outpoint // l.Nodup ∧ ∀ op, op ∈ l ↔ op ∈ m }

variable (env : Env)

/-- `key = blake3(name)`. -/
def nameKey (name : Bytes) : Bytes32 := env.blake3 name

/-- `OP_BLAKE2B <32: hash> OP_EQUAL`. -/
def p2shScript (redeem : Bytes) : Bytes :=
  [0xaa, 0x20] ++ (env.blake2b256 redeem).toList ++ [0x87]

def decode32 (s : Bytes) : Option Bytes32 := (env.hexDecode s).bind (tryInto 32)

/-- A key that can sign: non-zero and a valid x-only secp256k1 key. -/
def usableKey (k : Bytes32) : Bool := k ≠ zero32 && env.isXOnlyKey k

end KaChatIndexer.NamesEnv
