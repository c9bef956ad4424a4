import CyberCash.Contract.EIP712
import CyberCash.Library.Hashing
import Mathlib.Data.List.GetD

/-!
# Signed data

Bit `j` of a word is bit `j % 8` of its byte `31 - j / 8`: with this one fact
the 32 bytes of a word determine it, and a packed short string unpacks to
itself. A long string is found in storage, because no packed string looks like
the sentinel. The messages hashed for a domain and for a permit are sequences of
words, so that equal digests mean equal fields or a collision of two messages
that are named.
-/

namespace CyberCash

open Solidity ShortStrings Hashing

/-! ## Words and bytes -/

theorem getLsbD_foldl_or {α : Type} (f : α → BitVec 256) (l : List α)
    (w : BitVec 256) (j : ℕ) :
    (l.foldl (fun w i => w ||| f i) w).getLsbD j =
      (w.getLsbD j || l.any fun i => (f i).getLsbD j) := by
  induction l generalizing w with
  | nil => simp
  | cons i l ih => simp [ih, Bool.or_assoc]

theorem getLsbD_bytes32 (bs : List Byte) {j : ℕ} (hj : j < 256) :
    (bytes32 bs).getLsbD j = (bs.getD (31 - j / 8) 0).getLsbD (j % 8) := by
  have hplace (i : ℕ) : ((bs.getD i 0).setWidth 256 <<< (8 * (31 - i))).getLsbD j =
      (decide (8 * (31 - i) ≤ j) && (bs.getD i 0).getLsbD (j - 8 * (31 - i))) := by
    simp only [BitVec.getLsbD_shiftLeft, BitVec.getLsbD_setWidth, hj, decide_true,
      Bool.true_and]
    by_cases hle : 8 * (31 - i) ≤ j
    · have hlt : j - 8 * (31 - i) < 256 := by omega
      simp [hle, hlt]
    · have hlt : j < 8 * (31 - i) := by omega
      simp [hle, hlt]
  have hzero : (0 : BitVec 256).getLsbD j = false := BitVec.getLsbD_zero
  unfold bytes32
  rw [getLsbD_foldl_or, hzero, Bool.false_or, Bool.eq_iff_iff,
    List.any_eq_true]
  constructor
  · rintro ⟨i, hi, hbit⟩
    rw [List.mem_range] at hi
    rw [hplace, Bool.and_eq_true, decide_eq_true_eq] at hbit
    obtain ⟨hle, hbit⟩ := hbit
    -- a byte has eight bits, so only one place can have set this one
    have hlt := BitVec.lt_of_getLsbD hbit
    have hi' : i = 31 - j / 8 := by omega
    have hj' : j - 8 * (31 - i) = j % 8 := by omega
    rw [hj'] at hbit
    rwa [← hi']
  · intro hbit
    refine ⟨31 - j / 8, List.mem_range.mpr (by omega), ?_⟩
    rw [hplace, Bool.and_eq_true, decide_eq_true_eq]
    have hj' : j - 8 * (31 - (31 - j / 8)) = j % 8 := by omega
    rw [hj']
    exact ⟨by omega, hbit⟩

@[simp] theorem length_wordBytes (w : BitVec 256) : (wordBytes w).length = 32 := by
  simp [wordBytes]

theorem getD_wordBytes (w : BitVec 256) {i : ℕ} (hi : i < 32) :
    (wordBytes w).getD i 0 = w.extractLsb' (8 * (31 - i)) 8 := by
  simp [wordBytes, hi]

/-- **A word is read back from its bytes.** -/
theorem bytes32_wordBytes (w : BitVec 256) : bytes32 (wordBytes w) = w := by
  apply BitVec.eq_of_getLsbD_eq
  intro j hj
  have hmod : j % 8 < 8 := Nat.mod_lt j (by decide)
  have hplace : 8 * (31 - (31 - j / 8)) + j % 8 = j := by omega
  rw [getLsbD_bytes32 _ hj, getD_wordBytes w (by omega), BitVec.getLsbD_extractLsb',
    hplace]
  simp [hmod]

theorem wordBytes_injective : Function.Injective wordBytes :=
  Function.LeftInverse.injective bytes32_wordBytes

theorem addressWord_injective : Function.Injective addressWord := by
  intro a b h
  have hback := congrArg (BitVec.setWidth 160) h
  simpa [addressWord] using hback

/-- A sequence of words is determined by its bytes. -/
theorem flatMap_wordBytes_injective {ws ws' : List (BitVec 256)}
    (h : ws.flatMap wordBytes = ws'.flatMap wordBytes) : ws = ws' := by
  induction ws generalizing ws' with
  | nil =>
      cases ws' with
      | nil => rfl
      | cons w ws' =>
          have hlen := congrArg List.length h
          rw [List.flatMap_nil, List.flatMap_cons, List.length_append,
            length_wordBytes, List.length_nil] at hlen
          omega
  | cons w ws ih =>
      cases ws' with
      | nil =>
          have hlen := congrArg List.length h
          rw [List.flatMap_nil, List.flatMap_cons, List.length_append,
            length_wordBytes, List.length_nil] at hlen
          omega
      | cons w' ws' =>
          rw [List.flatMap_cons, List.flatMap_cons] at h
          obtain ⟨hhead, htail⟩ := List.append_inj h (by simp)
          rw [wordBytes_injective hhead, ih htail]

/-! ## Short strings -/

namespace ShortStrings

variable {str store : List Byte}

/-- The packed word of a short string. -/
def pack (str : List Byte) : BitVec 256 := bytes32 str ||| BitVec.ofNat 256 str.length

theorem toShortString_eq (h : str.length ≤ 31) : toShortString str = .ok (pack str) :=
  if_neg (by omega)

theorem getLsbD_pack (h : str.length ≤ 31) {j : ℕ} (hj : j < 256) :
    (pack str).getLsbD j =
      if j < 8 then str.length.testBit j
      else (str.getD (31 - j / 8) 0).getLsbD (j % 8) := by
  unfold pack
  rw [BitVec.getLsbD_or, getLsbD_bytes32 _ hj, BitVec.getLsbD_ofNat, decide_eq_true hj,
    Bool.true_and]
  by_cases hlow : j < 8
  · -- no byte of the string is that far to the right
    have hnone : str.getD (31 - j / 8) 0 = 0 :=
      List.getD_eq_default _ _ (by omega)
    have hzero : (0 : Byte).getLsbD (j % 8) = false := BitVec.getLsbD_zero
    rw [if_pos hlow, hnone, hzero, Bool.false_or]
  · have hbyte : str.length < 2 ^ j :=
      lt_of_lt_of_le (by omega : str.length < 2 ^ 8)
        (Nat.pow_le_pow_right (by decide) (by omega))
    rw [if_neg hlow, Nat.testBit_lt_two_pow hbyte, Bool.or_false]

/-- The last byte of a packed string is its length. -/
theorem pack_and_mask (h : str.length ≤ 31) :
    pack str &&& 0xFF#256 = BitVec.ofNat 256 str.length := by
  apply BitVec.eq_of_getLsbD_eq
  intro j hj
  rw [BitVec.getLsbD_and, getLsbD_pack h hj, BitVec.getLsbD_ofNat, BitVec.getLsbD_ofNat,
    decide_eq_true hj, Bool.true_and, Bool.true_and]
  have hmask : Nat.testBit 0xFF j = decide (j < 8) := Nat.testBit_two_pow_sub_one 8 j
  rw [hmask]
  by_cases hlow : j < 8
  · rw [if_pos hlow, decide_eq_true hlow, Bool.and_true]
  · have hbyte : str.length < 2 ^ j :=
      lt_of_lt_of_le (by omega : str.length < 2 ^ 8)
        (Nat.pow_le_pow_right (by decide) (by omega))
    rw [decide_eq_false hlow, Bool.and_false, Nat.testBit_lt_two_pow hbyte]

theorem byteLength_pack (h : str.length ≤ 31) : byteLength (pack str) = .ok str.length := by
  have hlen : (pack str &&& 0xFF#256).toNat = str.length := by
    rw [pack_and_mask h, BitVec.toNat_ofNat]
    exact Nat.mod_eq_of_lt (by omega)
  unfold byteLength
  rw [hlen]
  exact if_neg (by omega)

/-- The byte of a string at its place in the packed word. -/
theorem extract_pack (h : str.length ≤ 31) {i : ℕ} (hi : i < str.length) :
    (pack str).extractLsb' (8 * (31 - i)) 8 = str.getD i 0 := by
  apply BitVec.eq_of_getLsbD_eq
  intro k hk
  have hplace : 31 - (8 * (31 - i) + k) / 8 = i := by omega
  have hbit : (8 * (31 - i) + k) % 8 = k := by omega
  rw [BitVec.getLsbD_extractLsb', decide_eq_true hk, Bool.true_and,
    getLsbD_pack h (by omega), if_neg (by omega), hplace, hbit]

theorem take_wordBytes_pack (h : str.length ≤ 31) :
    (wordBytes (pack str)).take str.length = str := by
  apply List.ext_getElem
  · rw [List.length_take, length_wordBytes]
    omega
  · intro i hi hi'
    have hbyte := getD_wordBytes (pack str) (i := i) (by omega)
    rw [extract_pack h hi', List.getD_eq_getElem _ _ (by rw [length_wordBytes]; omega),
      List.getD_eq_getElem _ _ hi'] at hbyte
    rw [List.getElem_take, hbyte]

theorem pack_ne_sentinel (h : str.length ≤ 31) : pack str ≠ _FALLBACK_SENTINEL := by
  intro heq
  have hlen := byteLength_pack h
  rw [heq] at hlen
  exact absurd hlen (by simp [byteLength, _FALLBACK_SENTINEL])

/-- **Round trip.** What was encoded is decoded, however long it is. -/
theorem toStringWithFallback_encoded (str store : List Byte) :
    ∃ w st, toShortStringWithFallback str store = .ok (w, st) ∧
      toStringWithFallback w st = .ok str := by
  unfold toShortStringWithFallback toStringWithFallback
  by_cases hshort : str.length < 32
  · have h : str.length ≤ 31 := by omega
    refine ⟨pack str, store, ?_, ?_⟩
    · rw [if_pos hshort, toShortString_eq h, ok_bind, pure_eq_ok]
    · rw [if_pos (pack_ne_sentinel h)]
      unfold ShortStrings.toString
      rw [byteLength_pack h, ok_bind, pure_eq_ok, take_wordBytes_pack h]
  · refine ⟨_FALLBACK_SENTINEL, str, if_neg hshort, ?_⟩
    exact if_neg (not_not_intro rfl)

end ShortStrings

/-! ## Domains -/

namespace DomainFields

variable (keccak256 : List Byte → BitVec 256) (f g : DomainFields)

/-- The encoded domain. Strings enter by their hashes. -/
def words : List (BitVec 256) :=
  [EIP712._TYPE_HASH keccak256, keccak256 f.name, keccak256 f.version, f.chainId,
    addressWord f.verifyingContract]

def separator : BitVec 256 := keccak256 ((f.words keccak256).flatMap wordBytes)

/-- All that is hashed on the way to the separator, the type apart. -/
def hashed : List (List Byte) :=
  [f.name, f.version, (f.words keccak256).flatMap wordBytes]

variable {keccak256 f g}

theorem separator_binds (h : f.separator keccak256 = g.separator keccak256) :
    (f.name = g.name ∧ f.version = g.version ∧ f.chainId = g.chainId ∧
      f.verifyingContract = g.verifyingContract) ∨
    Collision keccak256 (f.hashed keccak256 ++ g.hashed keccak256) := by
  rcases eq_or_collision (f.hashed keccak256 ++ g.hashed keccak256) h
    (by simp [hashed]) (by simp [hashed]) with hbytes | hc
  · have hwords := flatMap_wordBytes_injective hbytes
    simp only [words, List.cons.injEq, and_true, true_and] at hwords
    obtain ⟨hname, hversion, hchain, hthis⟩ := hwords
    rcases eq_or_collision (f.hashed keccak256 ++ g.hashed keccak256) hname
      (by simp [hashed]) (by simp [hashed]) with hname | hc
    · rcases eq_or_collision (f.hashed keccak256 ++ g.hashed keccak256) hversion
        (by simp [hashed]) (by simp [hashed]) with hversion | hc
      · exact .inl ⟨hname, hversion, hchain, addressWord_injective hthis⟩
      · exact .inr hc
    · exact .inr hc
  · exact .inr hc

end DomainFields

namespace EIP712

variable {keccak256 : List Byte → BitVec 256} {env₀ : Env} {name version : List Byte}
  {d : EIP712}

theorem _buildDomainSeparator_eq (env : Env) (name version : List Byte) :
    _buildDomainSeparator keccak256 (keccak256 name) (keccak256 version) env =
      DomainFields.separator keccak256
        ⟨0x0F, name, version, env.chainid, env.this, 0, []⟩ := by
  simp [_buildDomainSeparator, DomainFields.separator, DomainFields.words]

/-- A deployed domain publishes its strings, and its separator is always that of
the chain and the address it finds itself at: the cache is not visible. -/
theorem constructor_ok (keccak256 : List Byte → BitVec 256) (env₀ : Env)
    (name version : List Byte) :
    ∃ d, EIP712.constructor keccak256 env₀ name version = .ok d ∧
      ∀ env, let f : DomainFields := ⟨0x0F, name, version, env.chainid, env.this, 0, []⟩
        d.eip712Domain env = .ok f ∧
          d._domainSeparatorV4 keccak256 env = f.separator keccak256 := by
  obtain ⟨w, st, hname, hname'⟩ := toStringWithFallback_encoded name []
  obtain ⟨w', st', hversion, hversion'⟩ := toStringWithFallback_encoded version []
  unfold EIP712.constructor
  rw [hname, ok_bind]
  dsimp only
  rw [hversion, ok_bind]
  refine ⟨_, rfl, ?_⟩
  intro env
  constructor
  · unfold eip712Domain
    dsimp only
    rw [hname', ok_bind, hversion', ok_bind]
    rfl
  · rw [← _buildDomainSeparator_eq]
    unfold _domainSeparatorV4
    dsimp only
    split
    · next hsame =>
      -- the same chain and address as at deployment
      unfold _buildDomainSeparator
      rw [hsame.1, hsame.2]
    · rfl

end EIP712

/-! ## Permits -/

/-- What the owner signs. -/
structure Permit where
  owner : Address
  spender : Address
  value : Uint256
  nonce : Uint256
  deadline : Uint256
deriving DecidableEq

namespace Permit

variable (evm : Evm) (p q : Permit)

def words : List (BitVec 256) :=
  [ERC20Permit.permitTypehash evm, addressWord p.owner, addressWord p.spender,
    p.value, p.nonce, p.deadline]

def structHash : BitVec 256 :=
  ERC20Permit.permitHash evm p.owner p.spender p.value.toNat p.nonce.toNat
    p.deadline.toNat

def digest : BitVec 256 := ECDSA.toTypedDataHash evm (p.structHash evm)

/-- All that is hashed on the way to the digest, the type apart. -/
def hashed : List (List Byte) :=
  [(p.words evm).flatMap wordBytes,
    [0x19, 0x01] ++ [evm.domainSeparator, p.structHash evm].flatMap wordBytes]

theorem structHash_eq :
    p.structHash evm = evm.keccak256 ((p.words evm).flatMap wordBytes) := by
  simp [structHash, ERC20Permit.permitHash, words]

theorem digest_eq :
    p.digest evm = evm.keccak256
      ([0x19, 0x01] ++ [evm.domainSeparator, p.structHash evm].flatMap wordBytes) := by
  simp [digest, ECDSA.toTypedDataHash]

variable {evm p q}

/-- **A digest binds the permit and the domain.** -/
theorem digest_binds {evm' : Evm} (hkeccak : evm'.keccak256 = evm.keccak256)
    (h : p.digest evm = q.digest evm') :
    (p = q ∧ evm.domainSeparator = evm'.domainSeparator) ∨
      Collision evm.keccak256 (p.hashed evm ++ q.hashed evm') := by
  have htype : ERC20Permit.permitTypehash evm' = ERC20Permit.permitTypehash evm := by
    unfold ERC20Permit.permitTypehash
    rw [hkeccak]
  rw [digest_eq, digest_eq, hkeccak] at h
  rcases eq_or_collision (p.hashed evm ++ q.hashed evm') h
    (by simp [hashed]) (by simp [hashed]) with hbytes | hc
  · have hwords := flatMap_wordBytes_injective (List.append_cancel_left hbytes)
    simp only [List.cons.injEq, and_true] at hwords
    obtain ⟨hdomain, hstruct⟩ := hwords
    rw [structHash_eq, structHash_eq, hkeccak] at hstruct
    rcases eq_or_collision (p.hashed evm ++ q.hashed evm') hstruct
      (by simp [hashed]) (by simp [hashed]) with hbytes' | hc
    · have hfields := flatMap_wordBytes_injective hbytes'
      simp only [words, htype, List.cons.injEq, and_true, true_and] at hfields
      obtain ⟨howner, hspender, hvalue, hnonce, hdeadline⟩ := hfields
      refine .inl ⟨?_, hdomain⟩
      obtain ⟨⟩ := p
      obtain ⟨⟩ := q
      simp only [Permit.mk.injEq]
      exact ⟨addressWord_injective howner, addressWord_injective hspender, hvalue,
        hnonce, hdeadline⟩
    · exact .inr hc
  · exact .inr hc

end Permit

end CyberCash
