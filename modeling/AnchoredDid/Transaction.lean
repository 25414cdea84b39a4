import AnchoredDid.Json.Record

/-!
# Transactions

A transaction spends outputs of earlier ones and makes new ones, each locked by a script. Its id is
the double hash of its serialised form; ids are shown with their bytes reversed. In JSON an input's
script and an output's value may be left out.

A transaction also has a version and a lock time, and its inputs have sequence numbers and
witnesses. Nothing reads them except for the id, which does not depend on witnesses. They are left
out, and serialised as version two, lock time zero and the greatest sequence numbers, so
`Transaction.id` is the id of those transactions only that have them so.
-/

namespace AnchoredDid

/-- An output of an earlier transaction, by its index. -/
structure OutPoint where
  txid : Digest
  index : Nat
  deriving DecidableEq

structure TxInput where
  outpoint : OutPoint
  script : Bytes
  deriving DecidableEq

structure TxOutput where
  value : Nat
  script : Bytes
  deriving DecidableEq

structure Transaction where
  inputs : List TxInput
  outputs : List TxOutput
  deriving DecidableEq

namespace OutPoint

/-- What an input names that spends no output. -/
def null : OutPoint := ⟨Digest.zero, 0xffffffff⟩

def isNull (o : OutPoint) : Bool := o = null

end OutPoint

/-- A transaction id as it is shown. -/
def showTxid (txid : Digest) : String :=
  Hex.encode txid.bytes.reverse

/-- The id that is shown as these bytes. -/
def txidOfShown? (bytes : Bytes) : Option Digest :=
  Digest.ofBytes? bytes.reverse

namespace Transaction

/-- The count before a list, in as few bytes as the format allows. -/
def compactSize (n : Nat) : Bytes :=
  if n < 0xfd then [UInt8.ofNat n]
  else if n < 0x10000 then 0xfd :: Bytes.ofNatLittle 2 n
  else if n < 0x100000000 then 0xfe :: Bytes.ofNatLittle 4 n
  else 0xff :: Bytes.ofNatLittle 8 n

def scriptBytes (script : Bytes) : Bytes :=
  compactSize script.length ++ script

def inputBytes (input : TxInput) : Bytes :=
  input.outpoint.txid.bytes ++ Bytes.ofNatLittle 4 input.outpoint.index
    ++ scriptBytes input.script ++ [0xff, 0xff, 0xff, 0xff]

def outputBytes (output : TxOutput) : Bytes :=
  Bytes.ofNatLittle 8 output.value ++ scriptBytes output.script

/-- Version two, inputs, outputs, lock time zero. -/
def bytes (tx : Transaction) : Bytes :=
  [2, 0, 0, 0] ++ compactSize tx.inputs.length ++ tx.inputs.flatMap inputBytes
    ++ compactSize tx.outputs.length ++ tx.outputs.flatMap outputBytes ++ [0, 0, 0, 0]

def id (tx : Transaction) : Digest :=
  sha256 (sha256 tx.bytes).bytes

end Transaction

/-- An id in JSON, in either case of hexadecimal. -/
def txidOfJson? (value : Json) : Option Digest :=
  value.bytes?.bind txidOfShown?

namespace OutPoint

/-- The index is taken modulo the size of its field. -/
def ofJson? (value : Json) : Option OutPoint := do
  let txid ← (value.member? "txid").bind txidOfJson?
  let index ← (value.member? "vout").bind Json.nat?
  return ⟨txid, index % Nat.pow 2 32⟩

/-- The members that name an output. -/
def members (o : OutPoint) : List (String × Json) :=
  [("txid", showTxid o.txid), ("vout", Json.ofNat o.index)]

end OutPoint

namespace TxInput

def ofJson? (value : Json) : Option TxInput := do
  let outpoint ← OutPoint.ofJson? value
  let script ← Json.orElse [] Json.bytes? (value.member? "script")
  return ⟨outpoint, script⟩

def toJson (input : TxInput) : Json :=
  Json.ofMembers (input.outpoint.members ++ [("script", Json.ofBytes input.script)])

end TxInput

namespace TxOutput

def ofJson? (value : Json) : Option TxOutput := do
  let amount ← Json.orElse 0 Json.nat? (value.member? "value")
  let script ← (value.member? "script").bind Json.bytes?
  return ⟨amount, script⟩

def toJson (output : TxOutput) : Json :=
  Json.ofMembers [("value", Json.ofNat output.value), ("script", Json.ofBytes output.script)]

end TxOutput

namespace Transaction

def ofJson? (value : Json) : Option Transaction := do
  let inputs ← (value.member? "in").bind (Json.listOf? TxInput.ofJson?)
  let outputs ← (value.member? "out").bind (Json.listOf? TxOutput.ofJson?)
  return ⟨inputs, outputs⟩

def toJson (tx : Transaction) : Json :=
  Json.ofMembers [("txid", showTxid tx.id), ("in", .array (tx.inputs.map TxInput.toJson)),
    ("out", .array (tx.outputs.map TxOutput.toJson))]

end Transaction

end AnchoredDid
