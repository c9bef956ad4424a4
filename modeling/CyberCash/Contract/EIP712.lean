import CyberCash.Contract.ERC20Permit

/-!
# The signing domain

`EIP712` with the `ShortStrings` it stores its name and version in. The domain
separator is cached at deployment together with the chain it was made for, and
rebuilt when the token finds itself on another chain. A `string` is its bytes.
-/

namespace CyberCash

open Solidity

/-- The chain and the address a contract finds itself at. -/
structure Env where
  chainid : BitVec 256
  this : Address

namespace ShortStrings

inductive ShortStringError : Type where
  | stringTooLong (str : List Byte)
  | invalidShortString
deriving DecidableEq, Repr

abbrev Result : Type → Type := Except (Revert ShortStringError)

/-- `bytes32(bstr)`: the first 32 bytes, padded with zeros on the right. -/
def bytes32 (bstr : List Byte) : BitVec 256 :=
  (List.range 32).foldl
    (fun w i => w ||| (bstr.getD i 0).setWidth 256 <<< (8 * (31 - i))) 0

/-- Identifies strings longer than 31 bytes. -/
def _FALLBACK_SENTINEL : BitVec 256 := 0xFF#256

def toShortString (str : List Byte) : Result (BitVec 256) :=
  if 31 < str.length then .error (.custom (.stringTooLong str))
  else .ok (bytes32 str ||| BitVec.ofNat 256 str.length)

def byteLength (sstr : BitVec 256) : Result ℕ :=
  let result := (sstr &&& 0xFF#256).toNat
  if 31 < result then .error (.custom .invalidShortString) else .ok result

/-- The memory string starts with the length and the word. -/
def toString (sstr : BitVec 256) : Result (List Byte) := do
  let len ← byteLength sstr
  return (wordBytes sstr).take len

/-- Returns the word and the storage string, written if the string is long. -/
def toShortStringWithFallback (value store : List Byte) :
    Result (BitVec 256 × List Byte) :=
  if value.length < 32 then do
    let sstr ← toShortString value
    return (sstr, store)
  else return (_FALLBACK_SENTINEL, value)

def toStringWithFallback (value : BitVec 256) (store : List Byte) :
    Result (List Byte) :=
  if value ≠ _FALLBACK_SENTINEL then toString value else return store

end ShortStrings

open ShortStrings (toShortStringWithFallback toStringWithFallback)

/-- The immutables of `EIP712`, and the two strings that may be in storage. -/
structure EIP712 where
  _cachedDomainSeparator : BitVec 256
  _cachedChainId : BitVec 256
  _cachedThis : Address
  _hashedName : BitVec 256
  _hashedVersion : BitVec 256
  _name : BitVec 256
  _version : BitVec 256
  _nameFallback : List Byte
  _versionFallback : List Byte

/-- What `eip712Domain` returns. -/
structure DomainFields where
  fields : Byte
  name : List Byte
  version : List Byte
  chainId : BitVec 256
  verifyingContract : Address
  salt : BitVec 256
  extensions : List (BitVec 256)
deriving DecidableEq

namespace EIP712

variable (keccak256 : List Byte → BitVec 256)

def _TYPE_HASH : BitVec 256 :=
  keccak256 (asciiBytes
    "EIP712Domain(string name,string version,uint256 chainId,address verifyingContract)")

def _buildDomainSeparator (_hashedName _hashedVersion : BitVec 256) (env : Env) :
    BitVec 256 :=
  keccak256 (wordBytes (_TYPE_HASH keccak256) ++ wordBytes _hashedName ++
    wordBytes _hashedVersion ++ wordBytes env.chainid ++
    wordBytes (addressWord env.this))

def constructor (env : Env) (name version : List Byte) :
    ShortStrings.Result EIP712 := do
  let (_name, _nameFallback) ← toShortStringWithFallback name []
  let (_version, _versionFallback) ← toShortStringWithFallback version []
  let _hashedName := keccak256 name
  let _hashedVersion := keccak256 version
  return {
    _name, _version, _nameFallback, _versionFallback, _hashedName, _hashedVersion
    _cachedChainId := env.chainid
    _cachedDomainSeparator :=
      _buildDomainSeparator keccak256 _hashedName _hashedVersion env
    _cachedThis := env.this }

/-- The domain separator for the current chain. -/
def _domainSeparatorV4 (d : EIP712) (env : Env) : BitVec 256 :=
  if env.this = d._cachedThis ∧ env.chainid = d._cachedChainId then
    d._cachedDomainSeparator
  else _buildDomainSeparator keccak256 d._hashedName d._hashedVersion env

/-- The machine as the token sees it in `env`. -/
def evm (ecrecover : BitVec 256 → Byte → BitVec 256 → BitVec 256 → Address)
    (d : EIP712) (env : Env) : Evm :=
  ⟨keccak256, ecrecover, d._domainSeparatorV4 keccak256 env⟩

def eip712Domain (d : EIP712) (env : Env) : ShortStrings.Result DomainFields := do
  let name ← toStringWithFallback d._name d._nameFallback
  let version ← toStringWithFallback d._version d._versionFallback
  return ⟨0x0F, name, version, env.chainid, env.this, 0, []⟩

end EIP712

namespace ERC20Permit

/-- `constructor(name) EIP712(name, "1")`. -/
def constructor (keccak256 : List Byte → BitVec 256) (env : Env)
    (name : List Byte) : ShortStrings.Result EIP712 :=
  EIP712.constructor keccak256 env name (asciiBytes "1")

def DOMAIN_SEPARATOR (keccak256 : List Byte → BitVec 256) (d : EIP712)
    (env : Env) : BitVec 256 :=
  d._domainSeparatorV4 keccak256 env

end ERC20Permit

end CyberCash
