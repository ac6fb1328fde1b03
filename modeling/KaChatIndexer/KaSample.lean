import KaChatIndexer.KaHandlers

/-!
# Sample transactions

Small transactions to run the processor on: keys and signatures of one repeated digit, every
signature accepted.
-/
namespace KaChatIndexer.KaSample
open ByteStrings KaText KaActions KaStore KaHandlers Interleaving

def sampleEnv : Env := ⟨fun _ => none, fun _ _ _ => true, fun _ => false⟩

def noOutputs : Bytes → Option (Option (List TxOutput)) := fun _ => none

/-- The compressed key of 32 bytes of one digit. -/
def sampleKey (parity digit : Char) : Text := '0' :: parity :: List.replicate 64 digit

def sampleSignature (digit : Char) : Text := List.replicate 128 digit

/-- The transaction `id` with a K action of these fields. -/
def sample (id : UInt8) (time : ℤ) (fields : List Text) : Transaction :=
  ⟨[id], some ("kchat:1:".toList ++ joinFields fields), some time⟩

/-- The job of each number runs that many statements. -/
def statements (counts : List (ℕ × ℕ)) : List (Act Transaction) :=
  counts.flatMap fun (job, n) => List.replicate n (.exec job)

end KaChatIndexer.KaSample
