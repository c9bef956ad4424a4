import CyberCash.Contract.ERC20

/-!
# Approvals by signature

`ERC20Permit` with the parts of `ECDSA` and `EIP712` it goes through. The two
machine primitives, `keccak256` and `ecrecover`, and the domain separator fixed
at deployment are the fields of `Evm`; nothing is assumed about them.
-/

namespace CyberCash

open Solidity Function

/-- What the token takes from the machine it is deployed on. `ecrecover` gives
the zero address for an invalid signature. -/
structure Evm where
  keccak256 : List Byte → BitVec 256
  ecrecover : BitVec 256 → Byte → BitVec 256 → BitVec 256 → Address
  domainSeparator : BitVec 256

def asciiBytes (text : String) : List Byte :=
  text.toList.map fun c => BitVec.ofNat 8 c.toNat

/-- The 32 bytes of a word, most significant first. -/
def wordBytes (w : BitVec 256) : List Byte :=
  (List.range 32).map fun i => w.extractLsb' (8 * (31 - i)) 8

def addressWord (a : Address) : BitVec 256 := a.setWidth 256

namespace ECDSA

/-- `secp256k1n / 2`: signatures above it are the malleable twins. -/
def halfOrder : ℕ :=
  0x7FFFFFFFFFFFFFFFFFFFFFFFFFFFFFFF5D576E7357A4501DDFE92F46681B20A0

def recover (evm : Evm) (hash : BitVec 256) (v : Byte) (r s : BitVec 256) :
    Result Address := do
  require (s.toNat ≤ halfOrder) (.error "ECDSA: invalid signature 's' value")
  let signer := evm.ecrecover hash v r s
  require (signer ≠ 0) (.error "ECDSA: invalid signature")
  return signer

def toTypedDataHash (evm : Evm) (structHash : BitVec 256) : BitVec 256 :=
  evm.keccak256
    ([0x19, 0x01] ++ wordBytes evm.domainSeparator ++ wordBytes structHash)

end ECDSA

structure ERC20Permit extends ERC20 where
  _nonces : Address → ℕ

namespace ERC20Permit

def permitTypehash (evm : Evm) : BitVec 256 :=
  evm.keccak256 (asciiBytes
    "Permit(address owner,address spender,uint256 value,uint256 nonce,uint256 deadline)")

def permitHash (evm : Evm) (owner spender : Address)
    (value nonce deadline : ℕ) : BitVec 256 :=
  evm.keccak256 (wordBytes (permitTypehash evm) ++
    wordBytes (addressWord owner) ++ wordBytes (addressWord spender) ++
    wordBytes (BitVec.ofNat 256 value) ++ wordBytes (BitVec.ofNat 256 nonce) ++
    wordBytes (BitVec.ofNat 256 deadline))

def nonces (e : ERC20Permit) (owner : Address) : ℕ := e._nonces owner

/-- Returns the nonce used and the storage with the next one. -/
def _useNonce (e : ERC20Permit) (owner : Address) : ℕ × ERC20Permit :=
  (e._nonces owner,
    { e with _nonces := update e._nonces owner (uncheckedAdd (e._nonces owner) 1) })

def permit (evm : Evm) (e : ERC20Permit) (msg : Msg) (owner spender : Address)
    (value deadline : ℕ) (v : Byte) (r s : BitVec 256) :
    Result ERC20Permit := do
  require (msg.timestamp ≤ deadline) (.error "ERC20Permit: expired deadline")
  let (nonce, e) := e._useNonce owner
  let structHash := permitHash evm owner spender value nonce deadline
  let hash := ECDSA.toTypedDataHash evm structHash
  let signer ← ECDSA.recover evm hash v r s
  require (signer = owner) (.error "ERC20Permit: invalid signature")
  let erc20 ← e.toERC20._approve owner spender value
  return { e with toERC20 := erc20 }

end ERC20Permit

end CyberCash
