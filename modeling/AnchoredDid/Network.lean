/-!
# Networks

An identifier is anchored to one of six networks. Its addresses follow one of four conventions: both
older test networks share theirs, and mutinynet is a signet.
-/

namespace AnchoredDid

/-- How addresses are written and which of them are valid. -/
inductive AddressNetwork where
  | bitcoin
  | testnet
  | signet
  | regtest
  deriving DecidableEq, Repr

def AddressNetwork.name : AddressNetwork → String
  | .bitcoin => "bitcoin"
  | .testnet => "testnet"
  | .signet => "signet"
  | .regtest => "regtest"

inductive Network where
  | bitcoin
  | signet
  | regtest
  | testnet3
  | testnet4
  | mutinynet
  deriving DecidableEq, Repr

namespace Network

/-- Every network, in the order of their numbers. -/
def all : List Network :=
  [bitcoin, signet, regtest, testnet3, testnet4, mutinynet]

/-- The number of a network inside an identifier, below sixteen. -/
def nibble : Network → Nat
  | bitcoin => 0
  | signet => 1
  | regtest => 2
  | testnet3 => 3
  | testnet4 => 4
  | mutinynet => 5

def ofNibble? (n : Nat) : Option Network :=
  all.find? fun network => network.nibble = n

def name : Network → String
  | bitcoin => "bitcoin"
  | signet => "signet"
  | regtest => "regtest"
  | testnet3 => "testnet3"
  | testnet4 => "testnet4"
  | mutinynet => "mutinynet"

def ofName? (name : String) : Option Network :=
  all.find? fun network => network.name = name

def addresses : Network → AddressNetwork
  | bitcoin => .bitcoin
  | signet | mutinynet => .signet
  | regtest => .regtest
  | testnet3 | testnet4 => .testnet

@[simp] theorem ofNibble?_nibble (network : Network) : ofNibble? network.nibble = some network := by
  cases network <;> rfl

end Network

end AnchoredDid
