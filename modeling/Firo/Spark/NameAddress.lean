import Firo.LibSpark.Address
import Firo.Spark.NameConsent

/-! No two names have the same address string. An address has several spellings, so two names may
still stand for one address; they do not when every name is registered with the spelling that
`Address::encode` writes. -/
namespace Firo.Spark

open Firo.Lib Firo.LibSpark CSparkNameManager

variable {Coin Tag GroupElement : Type} {env : NameEnv} {cp : ConsensusParams}
  {x x' : NameChain Coin Tag} {P : String → Prop}

/-- Every address that a name is registered with, or that the index of a block keeps for
a name that it took away, meets `P`. -/
structure NameChain.Stored (P : String → Prop) (x : NameChain Coin Tag) : Prop where
  names : ∀ (k : String) data, x.names.sparkNames[k]? = some data → P data.sparkAddress
  chain : ∀ b ∈ x.chain, ∀ (k : String) data, b.removedSparkNames[k]? = some data →
    P data.sparkAddress
  blockIndex : ∀ h b, x.blockIndex h = some b → ∀ (k : String) data,
    b.removedSparkNames[k]? = some data → P data.sparkAddress

/-- The addresses of the names that a block registers or transfers meet `P`. -/
def Spells (env : NameEnv) (cp : ConsensusParams) (P : String → Prop) :
    NameChain Coin Tag → NameAction Coin Tag → Prop
  | x, .connect block _ =>
    ∀ p ∈ (blockNames env cp (nextBlockHeight x.chain) block.vtx).toList, P p.2.sparkAddress
  | _, _ => True

instance [DecidablePred P] (x : NameChain Coin Tag) :
    (a : NameAction Coin Tag) → Decidable (Spells env cp P x a)
  | .connect block _ => inferInstanceAs (Decidable (∀ p ∈ (blockNames env cp
      (nextBlockHeight x.chain) block.vtx).toList, P p.2.sparkAddress))
  | .failed _ _ => .isTrue trivial
  | .disconnect => .isTrue trivial

namespace NameChain.Stored

lemma entry (h : x.Stored P) {block : CBlock} {index : CBlockIndex Coin Tag}
    (hentry : blockIndexEntry cp x.chain x.blockIndex block = some index) (k : String)
    (data : CSparkNameBlockIndexData) (hdata : index.removedSparkNames[k]? = some data) :
    P data.sparkAddress := by
  obtain ⟨-, -, rfl⟩ | ⟨_, _, -, -, -, ⟨hknown, -⟩ | ⟨-, rfl⟩⟩ := blockIndexEntry_eq_some hentry
  · simp at hdata
  · exact h.blockIndex _ _ hknown k data hdata
  · simp at hdata

lemma update_blockIndex (h : x.Stored P) (hash : Uint256)
    {entry : Option (CBlockIndex Coin Tag)}
    (hentry : ∀ b, entry = some b → ∀ (k : String) data, b.removedSparkNames[k]? = some data →
      P data.sparkAddress) (hash' : Uint256) (b : CBlockIndex Coin Tag)
    (hb : Function.update x.blockIndex hash entry hash' = some b) (k : String)
    (data : CSparkNameBlockIndexData) (hdata : b.removedSparkNames[k]? = some data) :
    P data.sparkAddress := by
  by_cases hh : hash' = hash
  · rw [hh, Function.update_self] at hb
    exact hentry b hb k data hdata
  · rw [Function.update_of_ne hh] at hb
    exact h.blockIndex hash' b hb k data hdata

lemma connected (h : x.Stored P) (hx : x.Inv env cp) {block : CBlock}
    {spark index b : CBlockIndex Coin Tag} (hok : Spells env cp P x (.connect block spark))
    (hconn : NameConnected env cp x block spark index b x') : x'.Stored P := by
  obtain ⟨-, -, -, -, hrecorded⟩ := hconn.spec
  refine ⟨fun k data hdata => ?_, ?_, ?_⟩
  · cases hd : (index.own env cp)[k]? with
    | some d =>
      obtain ⟨data', hdata', haddress, -⟩ := hconn.record_of_own hd
      rw [Option.some.inj (hdata.symm.trans hdata'), haddress]
      exact hok (k, d) (Std.ExtTreeMap.mem_toList_iff_getElem?_eq_some.mpr (hconn.own_eq hx ▸ hd))
    | none =>
      obtain ⟨old, hold, hcore, -⟩ := hconn.record_of_not_own hd hdata
      have haddress : old.sparkAddress = data.sparkAddress := congrArg Prod.fst hcore
      exact haddress ▸ h.names k old hold
  · rw [hconn.chain_eq, List.forall_mem_cons]
    refine ⟨fun k data hdata => ?_, h.chain⟩
    -- a removed name had its address before the block
    have hremoved := hrecorded.removed k
    rw [listCore_eq_some.mpr ⟨data, hdata, rfl⟩, removedCore] at hremoved
    split at hremoved
    case isTrue =>
      obtain ⟨old, hold, hcore⟩ := core_eq_some.mp hremoved.symm
      have haddress : old.sparkAddress = data.sparkAddress := congrArg Prod.fst hcore
      exact haddress ▸ h.names k old hold
    case isFalse => cases hremoved
  · rw [hconn.blockIndex_eq]
    exact h.update_blockIndex block.hash fun _ hb => by cases hb

lemma step (h : x.Stored P) (hx : x.Inv env cp) {a : NameAction Coin Tag}
    (hok : Spells env cp P x a) (hstep : x.step env cp a = some x') : x'.Stored P := by
  cases a with
  | connect block spark =>
    obtain ⟨hchain, -, rfl⟩ | ⟨index, b, hconn⟩ := hx.connect_cases hstep
    · refine ⟨h.names, fun b hb k data hdata => ?_,
        h.update_blockIndex block.hash fun _ hb => by cases hb⟩
      rw [List.mem_singleton.mp hb] at hdata
      simp [CBlockIndex.withSpark] at hdata
    · exact h.connected hx hok hconn
  | failed block spark =>
    obtain ⟨index, hentry, hx'⟩ := Option.bind_eq_some_iff.mp hstep
    cases hx'
    refine ⟨h.names, h.chain, h.update_blockIndex block.hash fun b hb => ?_⟩
    cases hb
    exact fun k data hdata => h.entry hentry k data hdata
  | disconnect =>
    simp only [NameChain.step] at hstep
    split at hstep
    case h_2 => cases hstep
    case h_1 b p chain hchain =>
      cases hstep
      obtain ⟨know, htree⟩ := hx
      rw [hchain] at htree
      obtain ⟨kp, -, -, hdis⟩ := htree.disconnecting
      have hb : ∀ (k : String) data, b.removedSparkNames[k]? = some data →
          P data.sparkAddress := h.chain b (hchain ▸ List.mem_cons_self)
      refine ⟨fun k data hdata => ?_, fun b' hb' => ?_, ?_⟩
      · rw [hdis.sparkNames_removeBlock, Option.or_eq_some_iff] at hdata
        rcases hdata with hremoved | ⟨-, hkept⟩
        · exact hb k data hremoved
        · split at hkept
          case isTrue => cases hkept
          case isFalse => exact h.names k data hkept
      · exact h.chain b' (hchain ▸ List.mem_cons_of_mem _ hb')
      · refine h.update_blockIndex b.hash fun b' hb' => ?_
        cases hb'
        exact hb

end NameChain.Stored

/-- What holds of the addresses of all names in blocks holds of the stored ones. -/
lemma stored_of_reach (h : NameReach env cp (Spells env cp P) x) : x.Stored P := by
  induction h with
  | init => exact ⟨fun k data hdata => by simp at hdata, nofun, nofun⟩
  | step a hreach hok hstep ih => exact ih.step (nameInv_of_reach hreach) hok hstep

/-- A string that, if it decodes, is the one that `Address::encode` writes for its address
on the network. -/
def CanonicalAddress (addressEnv : AddressEnv GroupElement) (network : Char) (s : String) : Prop :=
  ∀ p ∈ Address.decode addressEnv s.toList, Address.encode addressEnv network p.2 = some s.toList

instance (addressEnv : AddressEnv GroupElement) (network : Char) :
    DecidablePred (CanonicalAddress addressEnv network) :=
  fun s => inferInstanceAs (Decidable (∀ p ∈ Address.decode addressEnv s.toList,
    Address.encode addressEnv network p.2 = some s.toList))

/-- In a run in which every name is registered with a canonical address string, different
names stand for different addresses. -/
theorem addresses_distinct_of_canonical {addressEnv : AddressEnv GroupElement} {network : Char}
    (h : NameReach env cp (Spells env cp (CanonicalAddress addressEnv network)) x)
    {k k' : String} {data data' : CSparkNameBlockIndexData} (hk : k ≠ k')
    (hdata : x.names.sparkNames[k]? = some data)
    (hdata' : x.names.sparkNames[k']? = some data') {n n' : Char}
    {address address' : Address GroupElement}
    (hdecode : Address.decode addressEnv data.sparkAddress.toList = some (n, address))
    (hdecode' : Address.decode addressEnv data'.sparkAddress.toList = some (n', address')) :
    address ≠ address' := by
  rintro rfl
  have hstored := stored_of_reach h
  have hencode := hstored.names k data hdata (n, address) hdecode
  have hencode' := hstored.names k' data' hdata' (n', address) hdecode'
  have hsame : data.sparkAddress = data'.sparkAddress :=
    String.toList_injective (Option.some.inj (hencode.symm.trans hencode'))
  have hinverse := (nameInv_of_reach h).namesInv.inverse
  have hname : x.names.sparkNameAddresses[data.sparkAddress]? = some k :=
    (hinverse _ _).mpr ⟨data, hdata, rfl⟩
  have hname' : x.names.sparkNameAddresses[data.sparkAddress]? = some k' :=
    (hinverse _ _).mpr ⟨data', hdata', hsame.symm⟩
  exact hk (Option.some.inj (hname.symm.trans hname'))

namespace Toy

def addresses : AddressEnv (List UInt8) where
  sha512 _ := List.replicate 64 0
  serialize := id
  deserialize := some

def address (d : UInt8) : Address (List UInt8) :=
  ⟨List.replicate 16 d, List.replicate 34 2, List.replicate 34 3⟩

/-- The address 'X', the same address in upper case, and another address. -/
def spelling (s : String) : String :=
  if s = "X" then canonical 1
  else if s = "Y" then String.ofList ((canonical 1).toList.map Char.toUpper)
  else canonical 2
where
  canonical (d : UInt8) : String :=
    String.ofList ((Address.encode addresses 'm' (address d)).getD [])

def spelledNames : NameEnv :=
  { names with
    parseSparkNameTxData := fun tx v => match parseSparkNameTxData tx v with
      | .data d n => .data { d with sparkAddress := spelling d.sparkAddress } n
      | payload => payload
    extractSparkNameFromScript := fun script =>
      (names.extractSparkNameFromScript script).map fun p => (p.1, spelling p.2)
    decodeAddress := fun s => (Address.decode addresses s.toList).map fun p =>
      p.2.d ++ p.2.Q1 ++ p.2.Q2 }

def twoNames (sparkAddress sparkAddress' : UInt8) : List (NameAction Unit Unit) :=
  connectNames [(0, []), (1, [nameTx 1 opRegister 97 sparkAddress 0 100 0,
    nameTx 2 opRegister 98 sparkAddress' 0 100 0])]

end Toy

theorem addresses_distinct_of_canonical_twoNames :
    ∃ (x : NameChain Unit Unit) (data data' : CSparkNameBlockIndexData)
      (p p' : Char × Address (List UInt8)),
      NameReach Toy.spelledNames (Toy.params 1) (Spells Toy.spelledNames (Toy.params 1)
        (CanonicalAddress Toy.addresses 'm')) x ∧
      x.names.sparkNames["A"]? = some data ∧ x.names.sparkNames["B"]? = some data' ∧
      Address.decode Toy.addresses data.sparkAddress.toList = some p ∧
      Address.decode Toy.addresses data'.sparkAddress.toList = some p' ∧ p.2 ≠ p'.2 := by
  have hrun : ((Toy.twoNames 88 90).foldlM (fun x a =>
      if Spells Toy.spelledNames (Toy.params 1) (CanonicalAddress Toy.addresses 'm') x a
      then x.step Toy.spelledNames (Toy.params 1) a else none) {}).any (fun x =>
        x.names.sparkNames["A"]?.any (fun data => x.names.sparkNames["B"]?.any fun data' =>
          (Address.decode Toy.addresses data.sparkAddress.toList).any fun _ =>
          (Address.decode Toy.addresses data'.sparkAddress.toList).any fun _ => true)) = true := by
    decide +kernel
  simp only [Option.any_eq_true] at hrun
  obtain ⟨x, hx, data, hdata, data', hdata', p, hp, p', hp', -⟩ := hrun
  have hreach := Reach.of_foldlM_guarded .init hx
  exact ⟨x, data, data', p, p', hreach, hdata, hdata', hp, hp',
    addresses_distinct_of_canonical hreach (by decide) hdata hdata' hp hp'⟩

/-- Two names with one address, in lower case and in upper case. -/
theorem two_names_one_address : ∃ (x : NameChain Unit Unit) (data data' : CSparkNameBlockIndexData)
      (p p' : Char × Address (List UInt8)),
      NameReach Toy.spelledNames (Toy.params 1) (fun _ _ => True) x ∧
      x.names.sparkNames["A"]? = some data ∧ x.names.sparkNames["B"]? = some data' ∧
      Address.decode Toy.addresses data.sparkAddress.toList = some p ∧
      Address.decode Toy.addresses data'.sparkAddress.toList = some p' ∧ p.2 = p'.2 := by
  have hrun : ((Toy.twoNames 88 89).foldlM
      (NameChain.step Toy.spelledNames (Toy.params 1)) {}).any (fun x =>
        x.names.sparkNames["A"]?.any (fun data => x.names.sparkNames["B"]?.any fun data' =>
          (Address.decode Toy.addresses data.sparkAddress.toList).any fun p =>
          (Address.decode Toy.addresses data'.sparkAddress.toList).any fun p' =>
            decide (p.2 = p'.2))) = true := by
    decide +kernel
  simp only [Option.any_eq_true, decide_eq_true_eq] at hrun
  obtain ⟨x, hx, data, hdata, data', hdata', p, hp, p', hp', hsame⟩ := hrun
  exact ⟨x, data, data', p, p', Reach.of_foldlM .init (fun _ _ _ => trivial) hx, hdata, hdata',
    hp, hp', hsame⟩

end Firo.Spark
