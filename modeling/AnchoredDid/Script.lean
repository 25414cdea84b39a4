import AnchoredDid.Transaction

/-!
# Scripts that carry signals

A script is read as a list of instructions, of which only pushes of bytes matter here. A transaction
announces thirty-two bytes by an output whose script starts with `OP_RETURN`; of several such
outputs the last counts, and in it the first push of that size.
-/

namespace AnchoredDid.Script

inductive Instruction where
  | push (bytes : Bytes)
  | operation (code : UInt8)
  deriving DecidableEq

/-- The opcode that ends a script and lets it carry data. -/
def opReturn : UInt8 := 0x6a

/-- A push of `size` bytes and what follows it, if there are so many. -/
def takePush? (size : Nat) (rest : Bytes) : Option (Bytes × Bytes) :=
  if size ≤ rest.length then some (rest.take size, rest.drop size) else none

/-- A push whose size is written in the first `width` bytes. -/
def takeSized? (width : Nat) (rest : Bytes) : Option (Bytes × Bytes) :=
  if width ≤ rest.length then
    takePush? (Bytes.toNatLittle (rest.take width)) (rest.drop width)
  else none

/-- The push that an opcode announces; none if it announces none or the script is too short. -/
def push? (code : UInt8) (rest : Bytes) : Option (Bytes × Bytes) :=
  if code.toNat ≤ 75 then takePush? code.toNat rest
  else if code = 0x4c then takeSized? 1 rest
  else if code = 0x4d then takeSized? 2 rest
  else takeSized? 4 rest

/-- At most `fuel` instructions; a push that lacks bytes ends the list. -/
def read : (fuel : Nat) → Bytes → List Instruction
  | 0, _ | _, [] => []
  | fuel + 1, code :: rest =>
    if code.toNat ≤ 0x4e then
      match push? code rest with
      | some (bytes, rest) => .push bytes :: read fuel rest
      | none => []
    else .operation code :: read fuel rest

/-- The instructions of a script. Each takes at least one byte. -/
def instructions (script : Bytes) : List Instruction :=
  read script.length script

def isReturn (script : Bytes) : Bool :=
  script.head? = some opReturn

/-- The digest that an instruction pushes. -/
def pushedDigest? : Instruction → Option Digest
  | .push bytes => Digest.ofBytes? bytes
  | .operation _ => none

/-- A script that announces a digest. -/
def announcing (d : Digest) : Bytes :=
  opReturn :: 32 :: d.bytes

/-- The digest that a transaction announces. -/
def announced? (tx : Transaction) : Option Digest := do
  let output ← tx.outputs.reverse.find? fun output => isReturn output.script
  (instructions output.script).drop 1 |>.findSome? pushedDigest?

end AnchoredDid.Script
