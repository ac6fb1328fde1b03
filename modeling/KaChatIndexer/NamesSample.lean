import Mathlib.Data.List.Sort
import KaChatIndexer.NamesApply

/-!
# A small registry

The registry of the repository's own unit tests (arbitrary but self-consistent redeem prefixes and
suffixes) with the name `alice` in it. The hash functions are tables of the digests of the inputs
that these transactions hash.
-/
namespace KaChatIndexer.NamesSample
open ByteStrings NamesCodec NamesState NamesEnv NamesTransition NamesTemplates NamesRegistry
open NamesApply

/-- A 32-byte string written as one big-endian number. -/
def bytes32 (n : ℕ) : Bytes32 :=
  ⟨(List.range 32).map fun i => UInt8.ofNat (n / 256 ^ (31 - i)), by simp⟩

def fill (b : UInt8) : Bytes32 := List.Vector.replicate 32 b

def outpointDigits (op : Outpoint) : List ℕ := op.2.toNat :: digits op.1

theorem outpointDigits_injective : Function.Injective outpointDigits := by
  intro a b h
  obtain ⟨hidx, hid⟩ := List.cons.inj h
  exact Prod.ext (digits_injective hid) (UInt32.toNat_inj.mp hidx)

/-- The tracked outpoints in one fixed order. -/
def sortedKeys (m : UtxoMap) : List Outpoint :=
  Quot.liftOn m.keys.val (List.insertionSort fun a b => outpointDigits a ≤ outpointDigits b) <| by
    intro l l' hperm
    have : Std.Antisymm fun a b : Outpoint => outpointDigits a ≤ outpointDigits b :=
      ⟨fun a b h h' => outpointDigits_injective (le_antisymm h h')⟩
    have : IsTrans Outpoint fun a b => outpointDigits a ≤ outpointDigits b :=
      ⟨fun _ _ _ h h' => le_trans h h'⟩
    have : Std.Total fun a b : Outpoint => outpointDigits a ≤ outpointDigits b :=
      ⟨fun a b => le_total _ _⟩
    exact (((List.perm_insertionSort _ l).trans hperm).trans
      (List.perm_insertionSort _ l').symm).eq_of_pairwise'
      (List.pairwise_insertionSort _ l) (List.pairwise_insertionSort _ l')

theorem sortedKeys_perm (m : UtxoMap) : (sortedKeys m : Multiset Outpoint) = m.keys.val := by
  unfold sortedKeys
  induction m.keys.val using Quot.inductionOn with
  | _ l => exact Quot.sound (List.perm_insertionSort _ l)

def hexDigit (c : UInt8) : Option UInt8 :=
  if 0x30 ≤ c && c ≤ 0x39 then some (c - 0x30)
  else if 0x61 ≤ c && c ≤ 0x66 then some (c - 0x57)
  else if 0x41 ≤ c && c ≤ 0x46 then some (c - 0x37)
  else none

def hexDecode : Bytes → Option Bytes
  | [] => some []
  | [_] => none
  | h :: l :: rest => do some ((16 * (← hexDigit h) + (← hexDigit l)) :: (← hexDecode rest))

def hexEncode (b : Bytes) : Bytes :=
  b.flatMap fun c => [c / 16, c % 16].map fun d => if d < 10 then d + 0x30 else d + 0x57

def template (stateLen : ℕ) : ContractTemplate := ⟨[0x6b], [0xaa, 0xbb, 0xcc], stateLen⟩

def templates : Templates := Templates.v2 (template 66) (template 126) (template 75)

def registryCovenant : Bytes32 := fill 0xcc

/-- The same templates under a registry id. -/
def boundTemplates : Templates := { templates with registryId := some registryCovenant }

def now : Int64 := 1790000000000

def alice : Bytes32 := bytes32 0x71b278f3dc434447fc620500e47b6a80b0cb0df76a1051119fe19ed4953242df
def bob : Bytes32 := bytes32 0xe476f1b379438de7a1acfd567a94a8c53f08b9714042f7f17e5791645afc3176

/-- The x coordinate of the secp256k1 generator. -/
def signer : Bytes32 := bytes32 0x79be667ef9dcbbac55a06295ce870b07029bfcdb2dce28d959f2815b16f81798

def genesisGap : GapState := ⟨zero32, fill 0xff⟩
def aliceLeft : GapState := ⟨zero32, alice⟩
def aliceRight : GapState := ⟨alice, fill 0xff⟩
def bobLeft : GapState := ⟨alice, bob⟩
def bobRight : GapState := ⟨bob, fill 0xff⟩

def aliceName (owner : Bytes32) : NameState where
  key := alice
  name := padName (ascii "alice")
  owner := owner
  price := 0
  periodStart := now
  expiresAt := now + 2 * yearMs

def bobName : NameState where
  key := bob
  name := padName (ascii "bob")
  owner := fill 8
  price := 0
  periodStart := now
  expiresAt := now + 1 * yearMs

def offer : OfferState := ⟨alice, signer, none, 0⟩

/-- Redeem scripts with their digests. -/
def redeems : List (Bytes × Bytes32) :=
  [((template 66).redeem aliceLeft.encode,
      bytes32 0xb325bcaf16e254b5cec7456179e2f036045c4e26260f24586542ab1ee58c8401),
    ((template 66).redeem aliceRight.encode,
      bytes32 0x31cd6a92231a862a2a86378a8fe65c5db8ca83b7379ff5aab25d3d748ce60e67),
    ((template 66).redeem bobLeft.encode,
      bytes32 0x5ad4228b2e494d0e3489bb156ba1b40621cd2fbebe2368852315a51d2a94d92a),
    ((template 66).redeem bobRight.encode,
      bytes32 0x40ec79eb7dbf9a24707f4659cb862e7cb96a46a93f97237a41f6e5e250819f3c),
    ((template 126).redeem (aliceName (fill 7)).encode,
      bytes32 0x3aecbd99130e7f060e810badd621f2522463b32bac1c5df43e6df2675f03f3ab),
    ((template 126).redeem (aliceName (fill 8)).encode,
      bytes32 0x0f1579200da20345255834dc922b47834ed9014434c59ba04bf74108166a2f86),
    ((template 126).redeem bobName.encode,
      bytes32 0x8c660b87dddb75beb2e3f2d8d7873259ad847b21e3bc4eaee9d057749373b53e),
    ((template 75).redeem offer.encode,
      bytes32 0x5efa6589353aba2ad871934e99d121bd6ffac4ce97fba013881180a228602edb),
    (offer.encode,
      bytes32 0x0c58e5dfc8aefe5d6f259fc6d22c31ff50d4116935c0477a115c2381a6a97527)]

def env : Env where
  blake3 b := if b = ascii "alice" then alice else if b = ascii "bob" then bob else zero32
  blake2b256 b := ((redeems.find? fun x => x.1 = b).map Prod.snd).getD zero32
  isXOnlyKey k := k = signer
  hexDecode := hexDecode
  rawProfile _ := none
  iter m := ⟨sortedKeys m, by
      rw [← Multiset.coe_nodup, sortedKeys_perm]
      exact m.keys.nodup, fun op => by
      rw [← Multiset.mem_coe, sortedKeys_perm]
      exact Finmap.mem_keys⟩

/-- A minimal push of at most 255 bytes. -/
def pushBytes (d : Bytes) : Bytes :=
  if d = [] then [0x00]
  else if d.length ≤ 75 then UInt8.ofNat d.length :: d
  else 0x4c :: UInt8.ofNat d.length :: d

/-- `<args..> <4-byte tag> <redeem>`. -/
def sigScript (args : List Bytes) (tag redeem : Bytes) : Bytes :=
  args.flatMap pushBytes ++ pushBytes tag ++ pushBytes redeem

/-- A spend of a registry output: the entry's arguments, its tag and the redeem script. -/
def input (op : Outpoint) (args : List Bytes) (tag redeem : Bytes) : TxInput :=
  ⟨op, sigScript args tag redeem, [], none⟩

def output (script : Bytes) : TxOutput := ⟨script, 100000000, none⟩

def genesis : Outpoint := (fill 0x9a, 0)

def seeded : Registry := Registry.new.seedGenesis genesis genesisGap

/-- `alice`, registered from the genesis gap for two years. -/
def registerAlice : Tx where
  id := fill 0x11
  inputs := [input genesis
    [ascii "alice", (fill 7).toList, (fill 3).toList, [0x00, 0x6c, 0x50, 0xc4, 0xa0, 0x01], [2], [], []]
    [0x86, 0x67, 0xaf, 0x5e] (templates.gap.redeem genesisGap.encode)]
  outputs := [output (templates.gapSpk env aliceLeft), output (templates.gapSpk env aliceRight),
    output (templates.nameSpk env (aliceName (fill 7)))]
  payload := []
  acceptingBlock := fill 0xbb
  acceptingDaa := 585800000
  blockTime := now
  inputs_le := by decide
  outputs_le := by decide
  inputs_ne_id := by decide

/-- The outpoint of `alice` after her registration. -/
def aliceOutpoint : Outpoint := (fill 0x11, 2)

/-- `alice` in other hands. -/
def transferAlice : Tx where
  id := fill 0x44
  inputs := [input aliceOutpoint [(fill 8).toList] [0x79, 0x4d, 0xca, 0x54]
    (templates.name.redeem (aliceName (fill 7)).encode)]
  outputs := [output (templates.nameSpk env (aliceName (fill 8)))]
  payload := []
  acceptingBlock := fill 0xbc
  acceptingDaa := 585800000
  blockTime := now
  inputs_le := by decide
  outputs_le := by decide
  inputs_ne_id := by decide

/-- The marker payload of `offer`. -/
def offerMarker : Bytes :=
  ascii "kchat:1:offer:" ++ hexEncode alice.toList ++ [0x3a] ++ hexEncode signer.toList ++ [0x3a, 0x30]

/-- An offer for `alice`. -/
def makeOffer : Tx where
  id := fill 0x22
  inputs := []
  outputs := [output (templates.offerSpk env offer)]
  payload := offerMarker
  acceptingBlock := fill 0xbc
  acceptingDaa := 585800010
  blockTime := now
  inputs_le := by decide
  outputs_le := by decide
  inputs_ne_id := by decide

theorem no_outputs_le : ([] : List TxOutput).length ≤ 2 ^ 32 := by decide

/-- The buyer takes the offer back. -/
def withdrawOffer : Tx where
  id := fill 0x33
  inputs := [input (fill 0x22, 0) [] [0x80, 0x34, 0x4f, 0xf1]
    (templates.offer.redeem offer.encode)]
  outputs := []
  payload := []
  acceptingBlock := fill 0xbd
  acceptingDaa := 585800020
  blockTime := now
  inputs_le := by decide
  outputs_le := no_outputs_le
  inputs_ne_id := by decide

end KaChatIndexer.NamesSample
