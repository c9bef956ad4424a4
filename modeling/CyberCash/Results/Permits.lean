import CyberCash.Semantics.Approvals
import CyberCash.Semantics.TypedData
import CyberCash.Results.BlockOrder

/-!
# What a signature is good for

The domain of the token, the permits signed in it and their nonces. A digest
stands for one permit in one domain, a permit uses up the nonce it was signed
over, and a run never returns to a nonce: so a signature works once, on one
chain, for one token. The one thing assumed of the hash is nothing: where a
statement would fail, it names the messages that would have to collide.
-/

namespace CyberCash

open Solidity Function State TimedRun Hashing

/-! ## The domain -/

section Domain

variable (keccak256 : List Byte → BitVec 256)

/-- **The domain is what it is published to be.** Whatever its name, a deployed
token publishes the name and the version it was given, whether they were packed
into a word or written to storage, with the chain and the address it finds
itself at; and its separator is computed from what it publishes, on the chain
of the deployment and on every other. -/
theorem domain_is_published (env₀ : Env) (name : List Byte) :
    ∃ d, ERC20Permit.constructor keccak256 env₀ name = .ok d ∧
      ∀ env, ∃ f, d.eip712Domain env = .ok f ∧
        f = ⟨0x0F, name, asciiBytes "1", env.chainid, env.this, 0, []⟩ ∧
        ERC20Permit.DOMAIN_SEPARATOR keccak256 d env = f.separator keccak256 := by
  obtain ⟨d, hd, hpublished⟩ :=
    EIP712.constructor_ok keccak256 env₀ name (asciiBytes "1")
  refine ⟨d, hd, ?_⟩
  intro env
  obtain ⟨hdomain, hseparator⟩ := hpublished env
  exact ⟨_, hdomain, rfl, hseparator⟩

variable {keccak256}

/-- The fields published by a deployed token. -/
theorem published_of_deployed {env₀ : Env} {name : List Byte} {d : EIP712}
    (hd : ERC20Permit.constructor keccak256 env₀ name = .ok d) (env : Env) :
    ∃ f, d.eip712Domain env = .ok f ∧ f.name = name ∧ f.chainId = env.chainid ∧
      f.verifyingContract = env.this ∧
      d._domainSeparatorV4 keccak256 env = f.separator keccak256 := by
  obtain ⟨d', hd', hpublished⟩ :=
    EIP712.constructor_ok keccak256 env₀ name (asciiBytes "1")
  obtain rfl := Except.ok.inj (hd.symm.trans hd')
  obtain ⟨hdomain, hseparator⟩ := hpublished env
  exact ⟨_, hdomain, rfl, rfl, rfl, hseparator⟩

end Domain

/-! ## Permits along a run -/

namespace State

/-- The permit a call uses up: the owner's current nonce is part of it. -/
def permitUsed (s : State) (tx : Tx) : Option Permit :=
  match tx.call with
  | .permit owner spender value deadline _ _ _ =>
      some ⟨owner, spender, value, BitVec.ofNat 256 (s._nonces owner), deadline⟩
  | _ => none

end State

def permitsUsed (steps : List TokenStep) : List Permit :=
  steps.filterMap fun st => st.pre.permitUsed st.label

/-- How many of the permits are the owner's. -/
def usedBy (owner : Address) (ps : List Permit) : ℕ :=
  ps.countP fun p => decide (p.owner = owner)

/-- Nonces are words. -/
def State.NonceWords (s : State) : Prop := ∀ a, s._nonces a < 2 ^ 256

section Runs

variable {evm : Evm} {t t' : ℕ} {s s' : State} {tx : Tx} {steps : List TokenStep}

/-- **Step lemma.** A permit counts its owner's nonce up, nothing else does. -/
theorem step_nonces (hg : Good tx.now s) (hw : s.NonceWords)
    (h : step evm s tx = .ok s') (a : Address) :
    s'._nonces a =
      (s._nonces a + usedBy a (s.permitUsed tx).toList) % 2 ^ 256 := by
  have hsame : s._nonces a = (s._nonces a + 0) % 2 ^ 256 :=
    (Nat.mod_eq_of_lt (hw a)).symm
  cases hcall : tx.call.isApproval with
  | false =>
      rw [(step_effect hg h).nonces hcall]
      have hnone : s.permitUsed tx = none := by
        unfold permitUsed
        obtain ⟨msg, call⟩ := tx
        cases call <;> first | rfl | exact Bool.noConfusion hcall
      rw [hnone]
      exact hsame
  | true =>
      obtain ⟨owner, spender, x, -, -, -, -, rfl⟩ := step_approval h hcall hg.allowance
      rw [reapproved_nonces]
      obtain ⟨msg, call⟩ := tx
      cases call with
      | permit owner spender value deadline v r sig =>
          show update s._nonces owner (uncheckedAdd (s._nonces owner) 1) a = _
          by_cases ha : a = owner
          · subst ha
            rw [update_self]
            simp [permitUsed, usedBy, uncheckedAdd]
          · rw [update_of_ne ha]
            simpa [permitUsed, usedBy, Ne.symm ha] using hsame
      | _ => exact hsame

theorem NonceWords.step (hg : Good tx.now s) (hw : s.NonceWords)
    (h : step evm s tx = .ok s') : s'.NonceWords := by
  intro a
  rw [step_nonces hg hw h]
  exact Nat.mod_lt _ (Nat.two_pow_pos 256)

theorem Reachable.nonceWords (hs : Reachable evm t s) : s.NonceWords := by
  obtain ⟨t₀, owner, g, past, hg, hrun⟩ := hs
  have hall : Good t s ∧ s.NonceWords := by
    refine hrun.invariant (I := fun t r => Good t r ∧ r.NonceWords) ?_
      ⟨constructor_good hg, ?_⟩
    · rintro t r tx r' ⟨hr, hw⟩ ht hnext
      exact ⟨hr.next ht hnext, NonceWords.step (hr.later ht) hw hnext⟩
    · obtain ⟨-, rfl⟩ := constructor_inv hg
      intro a
      exact Nat.two_pow_pos 256
  exact hall.2

theorem usedBy_append (a : Address) (ps qs : List Permit) :
    usedBy a (ps ++ qs) = usedBy a ps + usedBy a qs := List.countP_append

theorem permitsUsed_cons (st : TokenStep) (steps : List TokenStep) :
    permitsUsed (st :: steps) =
      (st.pre.permitUsed st.label).toList ++ permitsUsed steps := by
  unfold permitsUsed
  cases hp : st.pre.permitUsed st.label with
  | none => simp [hp]
  | some p => simp [hp]

theorem permitUsed_nonce (hw : s.NonceWords) {p : Permit}
    (hp : s.permitUsed tx = some p) : p.nonce.toNat = s._nonces p.owner := by
  unfold permitUsed at hp
  split at hp
  · obtain rfl := Option.some.inj hp
    rw [BitVec.toNat_ofNat]
    exact Nat.mod_eq_of_lt (hw _)
  · cases hp

/-- **Run lemma.** The nonce of an owner counts the permits used. -/
theorem TokenRun.nonces (hg : Good t s) (hw : s.NonceWords)
    (hrun : TokenRun evm t s steps t' s') (a : Address) :
    s'._nonces a = (s._nonces a + usedBy a (permitsUsed steps)) % 2 ^ 256 := by
  induction hrun with
  | @nil t s => exact (Nat.mod_eq_of_lt (hw a)).symm
  | cons ht hnext _ ih =>
      have hlater := hg.later ht
      rw [ih (hg.next ht hnext) (NonceWords.step hlater hw hnext),
        step_nonces hlater hw hnext, permitsUsed_cons, usedBy_append,
        Nat.mod_add_mod, Nat.add_assoc]

/-- A permit used in a run was signed over a nonce between the first and the
last of its owner. -/
theorem nonce_of_used (hg : Good t s) (hw : s.NonceWords)
    (hrun : TokenRun evm t s steps t' s') {p : Permit} (hp : p ∈ permitsUsed steps) :
    ∃ c < usedBy p.owner (permitsUsed steps),
      p.nonce.toNat = (s._nonces p.owner + c) % 2 ^ 256 := by
  induction hrun with
  | nil => cases hp
  | @cons t t' s s₁ s' tx steps ht hnext hrest ih =>
      have hlater := hg.later ht
      rw [permitsUsed_cons, List.mem_append] at hp
      rw [permitsUsed_cons, usedBy_append]
      rcases hp with hhead | htail
      · have hused : s.permitUsed tx = some p := Option.mem_toList.mp hhead
        have hone : usedBy p.owner (s.permitUsed tx).toList = 1 := by
          simp [hused, usedBy]
        refine ⟨0, ?_, ?_⟩
        · show 0 < usedBy p.owner (s.permitUsed tx).toList + _
          omega
        · rw [permitUsed_nonce hw hused, Nat.add_zero]
          exact (Nat.mod_eq_of_lt (hw _)).symm
      · obtain ⟨c, hc, hnonce⟩ := ih (hg.next ht hnext) (NonceWords.step hlater hw hnext)
          htail
        refine ⟨usedBy p.owner (s.permitUsed tx).toList + c, ?_, ?_⟩
        · exact Nat.add_lt_add_left hc _
        · rw [hnonce, step_nonces hlater hw hnext, Nat.mod_add_mod, Nat.add_assoc]

theorem usedBy_le (a : Address) (steps : List TokenStep) :
    usedBy a (permitsUsed steps) ≤ steps.length :=
  List.countP_le_length.trans (List.length_filterMap_le _ _)

/-- **No permit is used twice**, as long as the calls can be counted in a word. -/
theorem nodup_permitsUsed (hg : Good t s) (hw : s.NonceWords)
    (hrun : TokenRun evm t s steps t' s') (hlen : steps.length < 2 ^ 256) :
    (permitsUsed steps).Nodup := by
  induction hrun with
  | nil => exact List.nodup_nil
  | @cons t t' s s₁ s' tx steps ht hnext hrest ih =>
      have hlater := hg.later ht
      have hg₁ := hg.next ht hnext
      have hw₁ := NonceWords.step hlater hw hnext
      rw [List.length_cons] at hlen
      have htail := ih hg₁ hw₁ (by omega)
      rw [permitsUsed_cons]
      cases hused : s.permitUsed tx with
      | none => exact htail
      | some p =>
          refine List.nodup_cons.mpr ⟨?_, htail⟩
          intro hp
          obtain ⟨c, hc, hnonce⟩ := nonce_of_used hg₁ hw₁ hrest hp
          have hcount := usedBy_le p.owner steps
          have hone : usedBy p.owner (s.permitUsed tx).toList = 1 := by
            simp [hused, usedBy]
          -- the nonce has been counted up, and does not come round again
          rw [permitUsed_nonce hw hused, step_nonces hlater hw hnext, hone] at hnonce
          have hword := hw p.owner
          omega

/-- What a permit that went through was accepted for, and by which signature. -/
theorem step_permitUsed {p : Permit} (h : step evm s tx = .ok s')
    (hw : s.NonceWords) (hp : s.permitUsed tx = some p) :
    ∃ v r sig, tx.call = .permit p.owner p.spender p.value p.deadline v r sig ∧
      tx.now ≤ p.deadline.toNat ∧
      s'._allowances p.owner p.spender = p.value.toNat ∧
      ECDSA.recover evm (p.digest evm) v r sig = .ok p.owner := by
  obtain ⟨msg, call⟩ := tx
  cases call with
  | permit owner spender value deadline v r sig =>
      obtain rfl := Option.some.inj hp
      obtain ⟨hpermitted, rfl⟩ := permit_inv h
      refine ⟨v, r, sig, rfl, hpermitted.inTime, ?_, ?_⟩
      · show update s._allowances owner _ owner spender = _
        rw [update_self, update_self]
      · have hnonce : (BitVec.ofNat 256 (s._nonces owner)).toNat = s._nonces owner := by
          rw [BitVec.toNat_ofNat]
          exact Nat.mod_eq_of_lt (hw owner)
        unfold Permit.digest Permit.structHash
        rw [hnonce]
        exact hpermitted.signer
  | _ => cases hp

end Runs

/-! ## The main results -/

/-- **A signature works once.** Along every run, the nonce of an owner counts
the permits used; no two of them are the same, and two with one digest would
exhibit a collision of the hash; the `v`, `r` and `s` that the call passes with
each are a signature of the owner over its digest, and the call is made within
the deadline and sets the allowance it names. -/
theorem permits_used_once {evm : Evm} {t t' : ℕ} {s s' : State}
    {steps : List TokenStep} (hs : Reachable evm t s)
    (hrun : TokenRun evm t s steps t' s') (hlen : steps.length < 2 ^ 256) :
    (∀ a, s'._nonces a = (s._nonces a + usedBy a (permitsUsed steps)) % 2 ^ 256) ∧
    (permitsUsed steps).Pairwise (fun p q => p ≠ q ∧ (p.digest evm = q.digest evm →
      Collision evm.keccak256 (p.hashed evm ++ q.hashed evm))) ∧
    ∀ st ∈ steps, ∀ p, st.pre.permitUsed st.label = some p →
      ∃ v r sig,
        st.label.call = .permit p.owner p.spender p.value p.deadline v r sig ∧
        st.label.now ≤ p.deadline.toNat ∧
        st.post._allowances p.owner p.spender = p.value.toNat ∧
        ECDSA.recover evm (p.digest evm) v r sig = .ok p.owner := by
  have hg := hs.good
  have hw := hs.nonceWords
  refine ⟨TokenRun.nonces hg hw hrun, ?_, ?_⟩
  · apply (nodup_permitsUsed hg hw hrun hlen).imp
    intro p q hne
    refine ⟨hne, ?_⟩
    intro hdigest
    exact (Permit.digest_binds rfl hdigest).resolve_left fun h => hne h.1
  · clear hlen
    induction hrun with
    | nil =>
        intro st hst
        cases hst
    | cons ht hnext _ ih =>
        intro st hst p hp
        rcases List.mem_cons.mp hst with rfl | hst
        · exact step_permitUsed hnext hw hp
        · exact ih (hs.step ht hnext) (hg.next ht hnext)
            (NonceWords.step (hg.later ht) hw hnext) st hst p hp

/-! A permit over 1000 tokens for account `3`, signed with the private key `1` for
the token of that name at address `20` on chain 42161. -/

def sampleEnv : Env := ⟨42161, 20⟩

def sampleName : List Byte := asciiBytes "CyberCash"

def samplePermit : Permit where
  owner := 0x7E5F4552091A69125d5DfCb7b8C2659029395Bdf
  spender := 3
  value := 1000
  nonce := 0
  deadline := 500

def sampleSeparator : BitVec 256 :=
  0x696d811204bef151b60401ac97877007920cd85f24bb5c65161bc65f4991ff32

/-- `keccak256` on the messages of the permit. -/
def sampleKeccak (m : List Byte) : BitVec 256 :=
  let domainType := 0x8b73c3c69bb8fe3d512ecc4cf759cc79239f7b179b0ffacaa9a75d522b39400f
  let permitType := 0x6e71edae12b1b97f4d1f60370fef10105fa2faae0126114a169c64845d6126c9
  let name := 0x0c81e5cb2cd06b05222c983724e0b56ff13606767a3da8cb738800591b5da744
  let version := 0xc89efdaa54c0f20c7adf612882df0950f5a951637e0307cdcb4c672f298b8bc6
  let permit := 0x63ff99c23e96031c09b7433b1fcf045b08f90322b89c0607591f326d0916b606
  if m = asciiBytes "EIP712Domain(string name,string version,uint256 chainId,address verifyingContract)"
  then domainType
  else if m = asciiBytes "Permit(address owner,address spender,uint256 value,uint256 nonce,uint256 deadline)"
  then permitType
  else if m = asciiBytes "CyberCash" then name
  else if m = asciiBytes "1" then version
  else if m = [domainType, name, version, 42161, 20].flatMap wordBytes then sampleSeparator
  else if m = [permitType, addressWord samplePermit.owner, 3, 1000, 0, 500].flatMap
    wordBytes then permit
  else if m = [0x19, 0x01] ++ [sampleSeparator, permit].flatMap wordBytes then
    0xc7f2fa061b934ea19b90950dfd505c615d818d0fe451c74534fae2198af03f9c
  else 0

def sampleV : Byte := 27

def sampleR : BitVec 256 :=
  0x2a5bbcb0eede528e6abe5f2ec50ad7887eb5677af383a460b05ee23bf892dfe5

def sampleS : BitVec 256 :=
  0x4658f2bc481891f1c920e99b330787111fb3119a6a581bb65d26847735f0f243

/-- The machine that knows this one signature. -/
def signingEvm : Evm where
  keccak256 := sampleKeccak
  ecrecover hash v r s :=
    if hash = 0xc7f2fa061b934ea19b90950dfd505c615d818d0fe451c74534fae2198af03f9c ∧
      v = sampleV ∧ r = sampleR ∧ s = sampleS then samplePermit.owner else 0
  domainSeparator := sampleSeparator

example : EIP712._buildDomainSeparator sampleKeccak (sampleKeccak sampleName)
    (sampleKeccak (asciiBytes "1")) sampleEnv = signingEvm.domainSeparator := by
  decide +kernel

def permitTx : Tx :=
  ⟨traderMsg 400, .permit samplePermit.owner 3 1000 500 sampleV sampleR sampleS⟩

/-- The permit is accepted for the signature passed with it, and counted. -/
theorem sample_permit_used :
    ∃ g s steps, State.constructor 0 1 = .ok g ∧
      TokenRun signingEvm 0 g steps 400 s ∧ permitsUsed steps = [samplePermit] ∧
      s._nonces samplePermit.owner = 1 ∧
      ECDSA.recover signingEvm (samplePermit.digest signingEvm) sampleV sampleR
        sampleS = .ok samplePermit.owner := by
  have hok : (State.constructor 0 1 >>= fun g => step signingEvm g permitTx).isOk =
      true := by decide +kernel
  obtain ⟨s, hs⟩ := exists_of_isOk hok
  obtain ⟨g, hg, hstep⟩ := bind_eq_ok.mp hs
  have hrun : TokenRun signingEvm 0 g [⟨g, permitTx, s⟩] 400 s :=
    .cons (by decide) hstep .nil
  have hnonces : g._nonces = fun _ => 0 := by
    obtain ⟨-, rfl⟩ := constructor_inv hg
    rfl
  have hpermit : g.permitUsed permitTx = some samplePermit := by
    simp [State.permitUsed, permitTx, hnonces, samplePermit]
  have hused : permitsUsed [⟨g, permitTx, s⟩] = [samplePermit] := by
    rw [permitsUsed_cons, hpermit]
    rfl
  have hreachable : Reachable signingEvm 0 g := ⟨0, 1, g, [], hg, .nil⟩
  have hlen : [(⟨g, permitTx, s⟩ : TokenStep)].length < 2 ^ 256 :=
    Nat.one_lt_two_pow (by decide)
  obtain ⟨hcount, -, haccepted⟩ := permits_used_once hreachable hrun hlen
  obtain ⟨v, r, sig, hcall, -, -, hsigner⟩ :=
    haccepted _ List.mem_cons_self samplePermit hpermit
  refine ⟨g, s, _, hg, hrun, hused, ?_, ?_⟩
  · rw [hcount, hused, hnonces]
    decide
  · obtain ⟨-, -, -, -, rfl, rfl, rfl⟩ := Call.permit.inj hcall
    exact hsigner

/-- **A signature works for one token on one chain.** When a permit on one
deployed token and a permit on another, or on the same one after a fork, have
one digest, then it is the same permit, the tokens have the same name and stand
at the same address on the same chain; or two of the messages hashed for the
two digests collide. -/
theorem permit_bound_to_domain {keccak256 : List Byte → BitVec 256}
    {ecrecover : BitVec 256 → Byte → BitVec 256 → BitVec 256 → Address}
    {deployed deployed' env env' : Env} {name name' : List Byte} {d d' : EIP712}
    (hd : ERC20Permit.constructor keccak256 deployed name = .ok d)
    (hd' : ERC20Permit.constructor keccak256 deployed' name' = .ok d')
    {p q : Permit} {f g : DomainFields} (hf : d.eip712Domain env = .ok f)
    (hg : d'.eip712Domain env' = .ok g)
    (h : p.digest (d.evm keccak256 ecrecover env) =
      q.digest (d'.evm keccak256 ecrecover env')) :
    (p = q ∧ name = name' ∧ env.chainid = env'.chainid ∧ env.this = env'.this) ∨
    Collision keccak256
      (f.hashed keccak256 ++ g.hashed keccak256 ++
        (p.hashed (d.evm keccak256 ecrecover env) ++
          q.hashed (d'.evm keccak256 ecrecover env'))) := by
  obtain ⟨f', hf', hname, hchain, hthis, hseparator⟩ := published_of_deployed hd env
  obtain ⟨g', hg', hname', hchain', hthis', hseparator'⟩ := published_of_deployed hd' env'
  obtain rfl := Except.ok.inj (hf.symm.trans hf')
  obtain rfl := Except.ok.inj (hg.symm.trans hg')
  have hkeccak : (d'.evm keccak256 ecrecover env').keccak256 =
      (d.evm keccak256 ecrecover env).keccak256 := rfl
  rcases Permit.digest_binds hkeccak h with ⟨hpermit, hdomain⟩ | hc
  · have hsame : f.separator keccak256 = g.separator keccak256 :=
      hseparator.symm.trans (hdomain.trans hseparator')
    rcases DomainFields.separator_binds hsame with ⟨hn, -, hc, ht⟩ | hc
    · refine .inl ⟨hpermit, ?_, ?_, ?_⟩
      · rw [← hname, ← hname', hn]
      · rw [← hchain, ← hchain', hc]
      · rw [← hthis, ← hthis', ht]
    · exact .inr (hc.mono (List.subset_append_left _ _))
  · exact .inr (hc.mono (List.subset_append_right _ _))

/-- A token deployed on the chain and one that came to it by a fork: the permit
has one digest for both, whether the separator is the cached one or rebuilt, and
no other permit has it without a collision. -/
theorem sample_bound_to_domain :
    ∃ d d' f, ERC20Permit.constructor sampleKeccak sampleEnv sampleName = .ok d ∧
      ERC20Permit.constructor sampleKeccak ⟨1, 20⟩ sampleName = .ok d' ∧
      d.eip712Domain sampleEnv = .ok f ∧ d'.eip712Domain sampleEnv = .ok f ∧
      samplePermit.digest (d'.evm sampleKeccak signingEvm.ecrecover sampleEnv) =
        samplePermit.digest (d.evm sampleKeccak signingEvm.ecrecover sampleEnv) ∧
      ∀ q : Permit, q ≠ samplePermit →
        samplePermit.digest (d.evm sampleKeccak signingEvm.ecrecover sampleEnv) =
          q.digest (d'.evm sampleKeccak signingEvm.ecrecover sampleEnv) →
        Collision sampleKeccak (f.hashed sampleKeccak ++ f.hashed sampleKeccak ++
          (samplePermit.hashed (d.evm sampleKeccak signingEvm.ecrecover sampleEnv) ++
            q.hashed (d'.evm sampleKeccak signingEvm.ecrecover sampleEnv))) := by
  obtain ⟨d, hd, hpublished⟩ :=
    EIP712.constructor_ok sampleKeccak sampleEnv sampleName (asciiBytes "1")
  obtain ⟨d', hd', hpublished'⟩ :=
    EIP712.constructor_ok sampleKeccak ⟨1, 20⟩ sampleName (asciiBytes "1")
  obtain ⟨hf, hseparator⟩ := hpublished sampleEnv
  obtain ⟨hf', hseparator'⟩ := hpublished' sampleEnv
  have hmachine : d'.evm sampleKeccak signingEvm.ecrecover sampleEnv =
      d.evm sampleKeccak signingEvm.ecrecover sampleEnv := by
    unfold EIP712.evm
    rw [hseparator, hseparator']
  refine ⟨d, d', _, hd, hd', hf, hf', congrArg samplePermit.digest hmachine, ?_⟩
  intro q hother hdigest
  refine (permit_bound_to_domain hd hd' hf hf' hdigest).resolve_left ?_
  rintro ⟨rfl, -⟩
  exact hother rfl

end CyberCash
