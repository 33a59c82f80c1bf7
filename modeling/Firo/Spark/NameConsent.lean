import Firo.Spark.NameRun

/-! The address of a registered name changes only by a transfer that the owner of the old address
signed. From v2.1 on the signed message commits to the expiry height of the name, which every
operation on the name moves up, so no message serves twice. -/
namespace Firo.Spark

open Firo.Lib CSparkNameManager

variable {Coin Tag : Type} {env : NameEnv} {cp : ConsensusParams}

def CSparkNameTxData.signed (d : CSparkNameTxData) : CSparkNameTxData :=
  { d with addressOwnershipProof := [], transferOwnershipProof := [] }

variable {k : String}

namespace CSparkNameManager

variable {m : CSparkNameManager}

variable {nHeight : Int} {d : CSparkNameTxData}

lemma checkBlockNames_spec {vtx} {own own'}
    (h : checkBlockNames m env cp nHeight vtx own = .ok own') :
    (∀ tx ∈ vtx, ∀ d, txName env cp nHeight tx = some d →
      ∃ canonical nDoS pos, NameChecked m env cp tx nHeight canonical nDoS d pos) ∧
    ∀ (k : String) d, own'[k]? = some d ↔ own[k]? = some d ∨
      ∃ tx ∈ vtx, txName env cp nHeight tx = some d ∧ toUpper d.name = k := by
  induction vtx generalizing own with
  | nil =>
    obtain rfl := Except.ok.inj h
    simp
  | cons tx rest ih =>
    rw [List.forall_mem_cons]
    simp only [List.mem_cons, exists_eq_or_imp]
    rw [checkBlockNames] at h
    split at h
    case isFalse hspend =>
      simpa [txName_of_not_spend (Bool.eq_false_iff.mpr hspend)] using ih h
    case isTrue =>
      obtain ⟨data, hdata, hrest⟩ := except_bind_eq_ok.mp h
      obtain ⟨hname, hchecked⟩ := checkSparkNameTx_eq_ok hdata
      rw [← hname]
      cases data with
      | none => simpa using ih hrest
      | some d' =>
        obtain ⟨_, hconflict, hrest⟩ := except_bind_eq_ok.mp hrest
        obtain ⟨hfree, -⟩ := not_isInConflict (rejectIf_eq_ok.mp hconflict)
        obtain ⟨canonical, pos, hd'⟩ := hchecked d' rfl
        obtain ⟨hall, hiff⟩ := ih hrest
        refine ⟨⟨fun d hd => Option.some.inj hd ▸ ⟨canonical, _, pos, hd'⟩, hall⟩, fun k d => ?_⟩
        rw [hiff, getElem?_insert_eq]
        split
        case isTrue hk => grind
        case isFalse hk => grind

/-- What the checks of a transfer guarantee: it comes from the address of the name, whose
owner signed both addresses and the new record; behind the grace period of v2.1 also the
expiry height. -/
structure TransferProved (m : CSparkNameManager) (env : NameEnv) (cp : ConsensusParams)
    (nHeight : Int) (d : CSparkNameTxData) : Prop where
  inputsHash_eq : cp.nSparkNamesV21StartBlock + cp.stage41SparkNamesGracefulPeriod ≤ nHeight →
    d.inputsHash = env.hashExpirationHeight (uint64 (existingExpirationHeight m d))
  owner : m.sparkNameAddresses[d.oldSparkAddress]? = some (toUpper d.name)
  signed : ∃ address message proof canonical, env.decodeAddress d.oldSparkAddress = some address ∧
    env.getSparkNameOwnershipMessage (env.hashTransferProof d.oldSparkAddress d.sparkAddress
      (env.hashSparkNameData d.signed)) false = some message ∧
    env.deserializeOwnershipProof d.transferOwnershipProof = some (proof, canonical) ∧
    env.verifyOwn address message proof = true

lemma checkNameTransfer_eq_ok {canonical : Bool} {nDoS : Nat} {u}
    (h : checkNameTransfer m env cp nHeight canonical nDoS d = .ok u) :
    TransferProved m env cp nHeight d := by
  unfold checkNameTransfer at h
  dsimp only at h
  split at h
  case isTrue hv21 =>
    simp only [except_bind_eq_ok, rejectIf_eq_ok, orReject_eq_ok] at h
    obtain ⟨_, hinputs, address, haddress, _, hold, ⟨proof, canon⟩, hproof, _, -, message,
      hmessage, hverify⟩ := h
    refine ⟨fun hgrace => ?_, by simpa using hold, address, message, proof, canon, haddress,
      hmessage, hproof, by simpa using hverify⟩
    have hnot : ¬ nHeight < cp.nSparkNamesV21StartBlock + cp.stage41SparkNamesGracefulPeriod :=
      not_lt.mpr hgrace
    simpa [hnot] using hinputs
  case isFalse hv21 =>
    simp only [except_bind_eq_ok, rejectIf_eq_ok, orReject_eq_ok] at h
    obtain ⟨address, haddress, _, hold, ⟨proof, canon⟩, hproof, _, -, message, hmessage,
      hverify⟩ := h
    have hgraceful := cp.graceful_nonneg
    exact ⟨fun hgrace => absurd (by omega) hv21, by simpa using hold, address, message,
      proof, canon, haddress, hmessage, hproof, by simpa using hverify⟩

def maxValidity : Int := nBlockPerYear * 15

/-- The expiry height of a name behind a tip: ahead of it, by at most `maxValidity`. -/
def ExpiresAfter (tipHeight : Int) (height : Nat) : Prop :=
  tipHeight < height ∧ (height : Int) ≤ tipHeight + maxValidity

lemma validity_of_checked {nDoS : Nat} (hpos : 0 ≤ nHeight) (hmax : nHeight ≤ INT_MAX)
    (hlive : ∀ data, m.sparkNames[toUpper d.name]? = some data →
      ExpiresAfter (nHeight - 1) data.sparkNameValidityHeight)
    (h : checkNameValidity m cp nHeight nDoS d = .ok ()) :
    0 < d.sparkNameValidityBlocks ∧ (d.sparkNameValidityBlocks : Int) ≤ maxValidity ∧
      (cp.nSparkNamesV21StartBlock ≤ nHeight → ∀ data, m.sparkNames[toUpper d.name]? = some data →
        (data.sparkNameValidityHeight : Int) - nHeight + d.sparkNameValidityBlocks ≤
          maxValidity) := by
  unfold checkNameValidity at h
  obtain ⟨_, hzero, h⟩ := except_bind_eq_ok.mp h
  obtain ⟨_, hyears, h⟩ := except_bind_eq_ok.mp h
  rw [rejectIf_eq_ok] at hzero hyears
  have hpos' : 0 < d.sparkNameValidityBlocks := by
    simpa [Nat.pos_iff_ne_zero] using hzero
  have hle : (d.sparkNameValidityBlocks : Int) ≤ maxValidity := by
    simpa [maxValidity] using hyears
  refine ⟨hpos', hle, fun hv21 data hdata => ?_⟩
  dsimp only at h
  rw [if_pos hv21] at h
  have hlive' := hlive data hdata
  unfold ExpiresAfter at hlive'
  simp only [existingExpirationHeight, hdata, rejectIf_eq_ok, decide_eq_false_iff_not, not_lt] at h
  have hwrap : int32 (int32 data.sparkNameValidityHeight - nHeight + d.sparkNameValidityBlocks) =
      (data.sparkNameValidityHeight : Int) - nHeight + d.sparkNameValidityBlocks := by
    rw [sub_add, int32_int32_sub, ← sub_add]
    unfold maxValidity nBlockPerYear INT_MAX at *
    exact int32_of_lt (by omega) (by omega)
  have hne : (int32 data.sparkNameValidityHeight != -1) = true := by
    unfold maxValidity nBlockPerYear INT_MAX at *
    rw [bne_iff_ne, int32_eq]
    omega
  rw [hne, if_pos rfl, hwrap] at h
  exact (le_max_right _ _).trans h

lemma coreValidity_eq {nDoS : Nat} (hk : toUpper d.name = k) (hpos : 0 ≤ nHeight)
    (hmax : nHeight ≤ INT_MAX)
    (hlive : ∀ data, m.sparkNames[k]? = some data → ExpiresAfter (nHeight - 1)
      data.sparkNameValidityHeight)
    (h : checkNameValidity m cp nHeight nDoS d = .ok ()) :
    (coreValidity m.core cp nHeight k d : Int) = d.sparkNameValidityBlocks +
      if cp.nSparkNamesV21StartBlock ≤ nHeight then
        (m.sparkNames[k]?).elim nHeight fun old => max old.sparkNameValidityHeight nHeight
      else nHeight := by
  subst hk
  obtain ⟨hblocks, hle, htotal⟩ := validity_of_checked hpos hmax hlive h
  have hint : int32 d.sparkNameValidityBlocks = d.sparkNameValidityBlocks := by
    unfold maxValidity nBlockPerYear at hle
    exact int32_of_lt (by omega) (by omega)
  have hfresh : (uint32 (nHeight + (d.sparkNameValidityBlocks + 0)) : Int) =
      d.sparkNameValidityBlocks + nHeight := by
    unfold maxValidity nBlockPerYear INT_MAX at *
    rw [uint32_of_lt (by omega) (by omega), add_zero, add_comm]
  unfold coreValidity
  by_cases hv21 : cp.nSparkNamesV21StartBlock ≤ nHeight
  · simp only [if_pos hv21, hint]
    cases hdata : m.sparkNames[toUpper d.name]? with
    | none =>
      have hcore : m.core (toUpper d.name) = none := by simp [core, hdata]
      simp only [hcore, hfresh, Option.elim_none]
    | some data =>
      have hcore : m.core (toUpper d.name) = some data.core := by simp [core, hdata]
      have htotal' := htotal hv21 data hdata
      obtain ⟨hlow, hhigh⟩ := hlive data hdata
      have hremaining : max 0 (int32 (int32 data.sparkNameValidityHeight - nHeight)) =
          (data.sparkNameValidityHeight : Int) - nHeight := by
        unfold maxValidity nBlockPerYear INT_MAX at *
        rw [int32_int32_sub, int32_of_lt (by omega) (by omega), max_eq_right (by omega)]
      have huint : (uint32 (nHeight + (d.sparkNameValidityBlocks +
          ((data.sparkNameValidityHeight : Int) - nHeight))) : Int) =
          d.sparkNameValidityBlocks + data.sparkNameValidityHeight := by
        unfold maxValidity nBlockPerYear INT_MAX at *
        rw [uint32_of_lt (by omega) (by omega)]
        omega
      simp only [hcore, CSparkNameBlockIndexData.core, hremaining, Option.elim_some, huint]
      rw [max_eq_left (by omega)]
  · simp only [if_neg hv21, hint, hfresh]

lemma coreValidity_of_checked {nDoS : Nat} (hk : toUpper d.name = k) (hpos : 0 ≤ nHeight)
    (hmax : nHeight ≤ INT_MAX)
    (hlive : ∀ data, m.sparkNames[k]? = some data → ExpiresAfter (nHeight - 1)
      data.sparkNameValidityHeight)
    (h : checkNameValidity m cp nHeight nDoS d = .ok ()) :
    ExpiresAfter nHeight (coreValidity m.core cp nHeight k d) ∧
      (cp.nSparkNamesV21StartBlock ≤ nHeight → ∀ data, m.sparkNames[k]? = some data →
        data.sparkNameValidityHeight < coreValidity m.core cp nHeight k d) := by
  have heq := coreValidity_eq hk hpos hmax hlive h
  subst hk
  obtain ⟨hblocks, hle, htotal⟩ := validity_of_checked hpos hmax hlive h
  unfold ExpiresAfter
  by_cases hv21 : cp.nSparkNamesV21StartBlock ≤ nHeight
  · rw [if_pos hv21] at heq
    cases hdata : m.sparkNames[toUpper d.name]? with
    | none =>
      rw [hdata, Option.elim_none] at heq
      exact ⟨⟨by omega, by omega⟩, fun _ data hnone => by cases hnone⟩
    | some data =>
      rw [hdata, Option.elim_some] at heq
      have htotal' := htotal hv21 data hdata
      obtain ⟨hlow, hhigh⟩ := hlive data hdata
      refine ⟨⟨by omega, by omega⟩, fun _ data' hdata' => ?_⟩
      cases hdata'
      omega
  · rw [if_neg hv21] at heq
    exact ⟨⟨by omega, by omega⟩, fun hle => absurd hle hv21⟩

end CSparkNameManager

variable {x x' : NameChain Coin Tag} {block : CBlock} {spark index b : CBlockIndex Coin Tag}

namespace NameConnected

variable (h : NameConnected env cp x block spark index b x')

include h

lemma height_eq (hx : x.Inv env cp) : index.nHeight = nextBlockHeight x.chain := by
  obtain ⟨know, htree⟩ := hx
  have hentry := h.entry
  obtain ⟨tip, rest, hchain⟩ := List.exists_cons_of_ne_nil h.ne_nil
  rw [hchain] at htree hentry ⊢
  exact (htree.entry hentry).2.2.2.1

lemma own_eq (hx : x.Inv env cp) :
    index.own env cp = blockNames env cp (nextBlockHeight x.chain) block.vtx := by
  rw [← h.height_eq hx]
  exact (checkBlockNames_eq_ok NamesAccepted.empty h.checked).2

lemma nextBlockHeight_eq : nextBlockHeight x'.chain = index.nHeight + 1 := by
  obtain ⟨-, -, -, hbheight, -⟩ := h.spec
  rw [h.chain_eq, ← hbheight]
  rfl

lemma own_checked {d} (hd : (index.own env cp)[k]? = some d) :
    ∃ tx ∈ block.vtx, txName env cp index.nHeight tx = some d ∧ toUpper d.name = k ∧
      ∃ canonical nDoS pos,
        NameChecked x.names env cp tx index.nHeight canonical nDoS d pos := by
  obtain ⟨hchecked, hown⟩ := checkBlockNames_spec h.checked
  obtain ⟨tx, htx, hname, hk⟩ := ((hown k d).mp hd).resolve_left (by simp)
  exact ⟨tx, htx, hname, hk, hchecked tx htx d hname⟩

lemma record_of_own {d} (hd : (index.own env cp)[k]? = some d) :
    ∃ data, x'.names.sparkNames[k]? = some data ∧ data.sparkAddress = d.sparkAddress ∧
      data.sparkNameValidityHeight = coreValidity x.names.core cp index.nHeight k d := by
  obtain ⟨-, hcore, -⟩ := h.spec
  have hk := congrFun hcore k
  rw [nextCore, addedCore, hd, Option.map_some, Option.some_or] at hk
  obtain ⟨data, hdata, heq⟩ := core_eq_some.mp hk
  exact ⟨data, hdata, congrArg Prod.fst heq, congrArg Prod.snd heq⟩

lemma core_of_not_own (hd : (index.own env cp)[k]? = none) :
    x'.names.core k = if expires x.names.core index.nHeight k then none else x.names.core k := by
  obtain ⟨-, hcore, -⟩ := h.spec
  have hk := congrFun hcore k
  rwa [nextCore, addedCore, hd, Option.map_none, Option.none_or] at hk

lemma record_of_not_own (hd : (index.own env cp)[k]? = none) {data}
    (hdata : x'.names.sparkNames[k]? = some data) :
    ∃ old, x.names.sparkNames[k]? = some old ∧ old.core = data.core ∧
      index.nHeight < old.sparkNameValidityHeight := by
  have hcore := h.core_of_not_own hd
  rw [core_eq_some.mpr ⟨data, hdata, rfl⟩] at hcore
  split at hcore
  case isTrue => cases hcore
  case isFalse hexp =>
    obtain ⟨old, hold, heq⟩ := core_eq_some.mp hcore.symm
    refine ⟨old, hold, heq, ?_⟩
    by_contra hle
    exact hexp ((expires_core k index.nHeight).mpr ⟨old, hold, decide_eq_true (not_lt.mp hle)⟩)

end NameConnected

/-- Blocks are only connected, at heights that an `int` holds. -/
def ConnectsOnly : NameChain Coin Tag → NameAction Coin Tag → Prop
  | _, .disconnect => False
  | x, _ => nextBlockHeight x.chain ≤ INT_MAX

instance (x : NameChain Coin Tag) (a : NameAction Coin Tag) : Decidable (ConnectsOnly x a) :=
  match a with
  | .disconnect => isFalse id
  | .connect _ _ | .failed _ _ => inferInstanceAs (Decidable (_ ≤ _))

structure NameChain.Live (x : NameChain Coin Tag) : Prop where
  height : 0 ≤ nextBlockHeight x.chain
  expiry : ∀ (k : String) data, x.names.sparkNames[k]? = some data →
    ExpiresAfter (nextBlockHeight x.chain - 1) data.sparkNameValidityHeight

namespace NameConnected

variable (h : NameConnected env cp x block spark index b x') (hx : x.Inv env cp) (hlive : x.Live)
  (hmax : nextBlockHeight x.chain ≤ INT_MAX)

include h hx hlive hmax

lemma validity_of_own {d} (hd : (index.own env cp)[k]? = some d) :
    ExpiresAfter index.nHeight (coreValidity x.names.core cp index.nHeight k d) ∧
      (cp.nSparkNamesV21StartBlock ≤ index.nHeight → ∀ data, x.names.sparkNames[k]? = some data →
        data.sparkNameValidityHeight < coreValidity x.names.core cp index.nHeight k d) := by
  obtain ⟨tx, -, -, hk, canonical, nDoS, pos, hchecked⟩ := h.own_checked hd
  have hheight := h.height_eq hx
  refine coreValidity_of_checked hk (hheight ▸ hlive.height) (hheight ▸ hmax) ?_ hchecked.validity
  intro data hdata
  rw [hheight]
  exact hlive.expiry k data hdata

lemma live : x'.Live := by
  have hheight := h.height_eq hx
  have hnext := h.nextBlockHeight_eq
  have hpos := hlive.height
  constructor
  · omega
  · intro k data hdata
    rw [hnext, add_sub_cancel_right]
    cases hd : (index.own env cp)[k]? with
    | some d =>
      obtain ⟨data', hdata', -, hvalidity⟩ := h.record_of_own hd
      rw [Option.some.inj (hdata.symm.trans hdata'), hvalidity]
      exact (h.validity_of_own hx hlive hmax hd).1
    | none =>
      obtain ⟨old, hold, hcore, hlt⟩ := h.record_of_not_own hd hdata
      have hvalidity : old.sparkNameValidityHeight = data.sparkNameValidityHeight :=
        congrArg Prod.snd hcore
      obtain ⟨-, hhigh⟩ := hlive.expiry k old hold
      rw [← hvalidity]
      exact ⟨hlt, by omega⟩

end NameConnected

/-- Connecting a block keeps every stored name within its validity. -/
lemma NameChain.Live.step {a} (hlive : x.Live) (hx : x.Inv env cp)
    (hok : ConnectsOnly x a) (hstep : x.step env cp a = some x') : x'.Live := by
  cases a with
  | disconnect => exact hok.elim
  | failed block spark =>
    obtain ⟨index, -, hx'⟩ := Option.bind_eq_some_iff.mp hstep
    cases hx'
    exact ⟨hlive.height, hlive.expiry⟩
  | connect block spark =>
    obtain ⟨hchain, -, rfl⟩ | ⟨index, b, hconn⟩ := hx.connect_cases hstep
    · obtain ⟨know, htree⟩ := hx
      rw [hchain] at htree
      refine ⟨show (0 : Int) ≤ 0 + 1 by decide, fun k data hdata => ?_⟩
      have hcore := congrFun htree.core_eq k
      rw [core_eq_some.mpr ⟨data, hdata, rfl⟩] at hcore
      cases hcore
    · exact hconn.live hx hlive hok

/-- In runs without disconnected blocks all stored names are valid. -/
lemma live_of_reach (h : NameReach env cp ConnectsOnly x) : x.Live := by
  induction h with
  | init => exact ⟨le_rfl, fun k data hdata => by simp at hdata⟩
  | step a hreach hok hstep ih => exact ih.step (nameInv_of_reach hreach) hok hstep

/-- Since the block at `nHeight`, where the name `k` got the expiry height `height`, its
record has no smaller one, or it has expired. -/
structure NameChain.Since (x : NameChain Coin Tag) (nHeight : Int) (k : String)
    (height : Nat) : Prop where
  later : nHeight < nextBlockHeight x.chain
  registered : ∀ data, x.names.sparkNames[k]? = some data → height ≤ data.sparkNameValidityHeight
  expired : x.names.sparkNames[k]? = none → (height : Int) < nextBlockHeight x.chain

namespace NameConnected

variable (h : NameConnected env cp x block spark index b x') (hx : x.Inv env cp) (hlive : x.Live)
  (hmax : nextBlockHeight x.chain ≤ INT_MAX) {k : String} {nHeight : Int}

include h hx hlive hmax

lemma lt_of_since {height : Nat} (hv21 : cp.nSparkNamesV21StartBlock ≤ nHeight)
    (hsince : x.Since nHeight k height) {d} (hd : (index.own env cp)[k]? = some d) :
    height < coreValidity x.names.core cp index.nHeight k d := by
  have hheight := h.height_eq hx
  obtain ⟨hafter, hincrease⟩ := h.validity_of_own hx hlive hmax hd
  cases hdata : x.names.sparkNames[k]? with
  | some data =>
    exact (hsince.registered data hdata).trans_lt
      (hincrease (by have := hsince.later; omega) data hdata)
  | none =>
    have hexpired := hsince.expired hdata
    have hlow := hafter.1
    omega

omit hx hlive hmax in
lemma since_of_own {data} (hdata : x'.names.sparkNames[k]? = some data) :
    x'.Since index.nHeight k data.sparkNameValidityHeight := by
  have hnext := h.nextBlockHeight_eq
  refine ⟨by omega, fun data' hdata' => ?_, fun hnone => ?_⟩
  · rw [Option.some.inj (hdata.symm.trans hdata')]
  · cases hnone.symm.trans hdata

lemma since {height : Nat} (hv21 : cp.nSparkNamesV21StartBlock ≤ nHeight)
    (hsince : x.Since nHeight k height) : x'.Since nHeight k height := by
  have hheight := h.height_eq hx
  have hnext := h.nextBlockHeight_eq
  refine ⟨?_, fun data hdata => ?_, fun hnone => ?_⟩
  · rw [hnext, hheight]
    exact hsince.later.trans (lt_add_one _)
  · cases hd : (index.own env cp)[k]? with
    | some d =>
      obtain ⟨data', hdata', -, hvalidity⟩ := h.record_of_own hd
      rw [Option.some.inj (hdata.symm.trans hdata'), hvalidity]
      exact (h.lt_of_since hx hlive hmax hv21 hsince hd).le
    | none =>
      obtain ⟨old, hold, hcore, -⟩ := h.record_of_not_own hd hdata
      have hvalidity : old.sparkNameValidityHeight = data.sparkNameValidityHeight :=
        congrArg Prod.snd hcore
      exact hvalidity ▸ hsince.registered old hold
  · have hd : (index.own env cp)[k]? = none := by
      rw [Option.eq_none_iff_forall_ne_some]
      intro d hd
      obtain ⟨data, hdata, -⟩ := h.record_of_own hd
      cases hnone.symm.trans hdata
    rw [hnext, hheight]
    cases hold : x.names.sparkNames[k]? with
    | none => exact (hsince.expired hold).trans (lt_add_one _)
    | some old =>
      -- the name is gone, so it expired with this block
      have hcore := h.core_of_not_own hd
      have hnone' : x'.names.core k = none := by simp [core, hnone]
      rw [hnone'] at hcore
      split at hcore
      case isTrue hexp =>
        obtain ⟨data, hdata, hloses⟩ := (expires_core k index.nHeight).mp hexp
        have hle := of_decide_eq_true hloses
        have hge := hsince.registered data hdata
        omega
      case isFalse =>
        rw [core_eq_some.mpr ⟨old, hold, rfl⟩] at hcore
        cases hcore

end NameConnected

/-- A name that is registered keeps its expiry or gets a later one. -/
lemma since_of_reach {nHeight : Int} {height : Nat} (hx : x.Inv env cp) (hlive : x.Live)
    (hv21 : cp.nSparkNamesV21StartBlock ≤ nHeight) (hsince : x.Since nHeight k height)
    {y} (h : Reach (NameChain.step env cp) ConnectsOnly x y) :
    y.Inv env cp ∧ y.Live ∧ y.Since nHeight k height := by
  apply h.invariant (I := fun y => y.Inv env cp ∧ y.Live ∧ y.Since nHeight k height)
    ⟨hx, hlive, hsince⟩
  rintro y a y' ⟨hy, hylive, hysince⟩ hok hstep
  refine ⟨hy.step hstep, hylive.step hy hok hstep, ?_⟩
  cases a with
  | disconnect => exact hok.elim
  | failed block spark =>
    obtain ⟨index, -, hy'⟩ := Option.bind_eq_some_iff.mp hstep
    cases hy'
    exact ⟨hysince.later, hysince.registered, hysince.expired⟩
  | connect block spark =>
    obtain ⟨hchain, -, rfl⟩ | ⟨index, b, hconn⟩ := hy.connect_cases hstep
    · obtain ⟨know, htree⟩ := hy
      rw [hchain] at htree
      have hcore := congrFun htree.core_eq k
      have hnone : y.names.sparkNames[k]? = none := by simpa [core] using hcore
      have hexpired := hysince.expired hnone
      rw [hchain] at hexpired
      change (height : Int) < 0 at hexpired
      omega
    · exact hconn.since hy hylive hok hv21 hysince

lemma blockNames_genesis (env) (cp) (nHeight : Int) :
    blockNames env cp nHeight cp.genesis.vtx = ∅ := by
  unfold blockNames
  have hnone : ∀ tx ∈ cp.genesis.vtx, txName env cp nHeight tx = none := by
    intro tx htx
    apply txName_of_not_spend
    have hspark := cp.genesis_noSpark tx htx
    rw [CTransaction.isSparkTransaction, Bool.or_eq_false_iff] at hspark
    exact hspark.2
  generalize cp.genesis.vtx = vtx at hnone
  induction vtx with
  | nil => rfl
  | cons tx rest ih =>
    rw [List.forall_mem_cons] at hnone
    rw [List.foldl_cons, hnone.1]
    exact ih hnone.2

lemma NameChain.Inv.connected_of_op (hx : x.Inv env cp) {d}
    (hstep : x.step env cp (.connect block spark) = some x')
    (hd : (blockNames env cp (nextBlockHeight x.chain) block.vtx)[k]? = some d) :
    ∃ index b, NameConnected env cp x block spark index b x' ∧
      index.nHeight = nextBlockHeight x.chain ∧ (index.own env cp)[k]? = some d := by
  obtain ⟨-, hgenesis, -⟩ | ⟨index, b, hconn⟩ := hx.connect_cases hstep
  · rw [hgenesis, blockNames_genesis] at hd
    simp at hd
  · exact ⟨index, b, hconn, hconn.height_eq hx, (hconn.own_eq hx).symm ▸ hd⟩

/-- A transfer of a name from one address to another that the old owner signed. -/
structure SignedTransfer (env : NameEnv) (d : CSparkNameTxData) (k oldAddress newAddress : String) :
    Prop where
  transfer : isNameTransfer d = true
  name_eq : toUpper d.name = k
  old_eq : d.oldSparkAddress = oldAddress
  new_eq : d.sparkAddress = newAddress
  signed : ∃ address message proof canonical, env.decodeAddress oldAddress = some address ∧
    env.getSparkNameOwnershipMessage (env.hashTransferProof oldAddress newAddress
      (env.hashSparkNameData d.signed)) false = some message ∧
    env.deserializeOwnershipProof d.transferOwnershipProof = some (proof, canonical) ∧
    env.verifyOwn address message proof = true

lemma NameConnected.signedTransfer (h : NameConnected env cp x block spark index b x')
    (hx : x.Inv env cp) {old new} (hold : x.names.sparkNames[k]? = some old)
    (hnew : x'.names.sparkNames[k]? = some new) (hne : old.sparkAddress ≠ new.sparkAddress) :
    ∃ tx ∈ block.vtx, ∃ d, txName env cp (nextBlockHeight x.chain) tx = some d ∧
      SignedTransfer env d k old.sparkAddress new.sparkAddress := by
  cases hd : (index.own env cp)[k]? with
  | none =>
    obtain ⟨old', hold', hcore, -⟩ := h.record_of_not_own hd hnew
    rw [Option.some.inj (hold.symm.trans hold')] at hne
    exact absurd (congrArg Prod.fst hcore) hne
  | some d =>
    obtain ⟨tx, htx, hname, hk, canonical, nDoS, pos, hchecked⟩ := h.own_checked hd
    obtain ⟨data, hdata, haddress, -⟩ := h.record_of_own hd
    obtain rfl := Option.some.inj (hnew.symm.trans hdata)
    have htransfer : isNameTransfer d = true := by
      by_contra hnot
      have howner := hchecked.accepted.owner (by simpa using hnot) old (hk ▸ hold)
      exact hne (howner.trans haddress.symm)
    have hproved := checkNameTransfer_eq_ok (hchecked.transfer htransfer)
    have hold_eq : d.oldSparkAddress = old.sparkAddress := by
      obtain ⟨old', hold', hown⟩ := (hx.namesInv.inverse _ _).mp hproved.owner
      rw [hk] at hold'
      rw [← hown, Option.some.inj (hold'.symm.trans hold)]
    refine ⟨tx, htx, d, h.height_eq hx ▸ hname, htransfer, hk, hold_eq, haddress.symm, ?_⟩
    rw [← hold_eq, haddress]
    exact hproved.signed

/-- The message that the owner of the old address signs for a transfer. -/
def NameEnv.transferMessage (env : NameEnv) (d : CSparkNameTxData) : Option Nat :=
  env.getSparkNameOwnershipMessage (env.transferDigest d.signed) false

lemma NameConnected.inputsHash_eq (h : NameConnected env cp x block spark index b x')
    (hx : x.Inv env cp) (hlive : x.Live) (hmax : nextBlockHeight x.chain ≤ INT_MAX)
    (hgrace : cp.nSparkNamesV21StartBlock + cp.stage41SparkNamesGracefulPeriod ≤ index.nHeight)
    {d} (hd : (index.own env cp)[k]? = some d) (ht : isNameTransfer d = true) :
    ∃ data, x.names.sparkNames[k]? = some data ∧ data.sparkNameValidityHeight < 2 ^ 32 ∧
      d.inputsHash = env.hashExpirationHeight (uint64 (int32 data.sparkNameValidityHeight)) := by
  obtain ⟨tx, -, -, hk, canonical, nDoS, pos, hchecked⟩ := h.own_checked hd
  have hproved := checkNameTransfer_eq_ok (hchecked.transfer ht)
  obtain ⟨data, hdata, -⟩ := (hx.namesInv.inverse _ _).mp hproved.owner
  have hinputs := hproved.inputsHash_eq hgrace
  have hdata' : x.names.sparkNames[toUpper d.name]? = some data := hdata
  rw [existingExpirationHeight, hdata'] at hinputs
  refine ⟨data, hk ▸ hdata', ?_, hinputs⟩
  have hhigh := (hlive.expiry _ data hdata').2
  unfold maxValidity nBlockPerYear INT_MAX at *
  omega

lemma uint64_int32_inj {a b : Nat} (ha : a < 2 ^ 32) (hb : b < 2 ^ 32)
    (h : uint64 (int32 a) = uint64 (int32 b)) : a = b := by
  simp only [uint64, int32_eq] at h
  omega

lemma uint64_lt (n : Int) : uint64 n < 2 ^ 64 := by
  unfold uint64
  omega

/-- Along a chain of connected blocks a name that changes its address was transferred by
its owner, who signed both addresses and the new record. Behind the grace period of v2.1
every operation moves the expiry height of the name up, so that two transfers of the name
have different messages, where the hashes do not collide. -/
theorem names_move_by_consent {signed : Set CSparkNameTxData}
    (hheights : ∀ a b, a < 2 ^ 64 → b < 2 ^ 64 →
      env.hashExpirationHeight a = env.hashExpirationHeight b → a = b)
    (hmessages : ∀ d d₂, d.signed ∈ signed → d₂.signed ∈ signed →
      env.transferMessage d = env.transferMessage d₂ → d.signed = d₂.signed)
    (hreach : NameReach env cp ConnectsOnly x) (hmax : nextBlockHeight x.chain ≤ INT_MAX)
    (hstep : x.step env cp (.connect block spark) = some x') :
    (∀ (k : String) old new, x.names.sparkNames[k]? = some old →
      x'.names.sparkNames[k]? = some new → old.sparkAddress ≠ new.sparkAddress →
      ∃ tx ∈ block.vtx, ∃ d, txName env cp (nextBlockHeight x.chain) tx = some d ∧
        SignedTransfer env d k old.sparkAddress new.sparkAddress) ∧
    (cp.nSparkNamesV21StartBlock + cp.stage41SparkNamesGracefulPeriod ≤
        nextBlockHeight x.chain → ∀ (k : String) d new,
      (blockNames env cp (nextBlockHeight x.chain) block.vtx)[k]? = some d →
      x'.names.sparkNames[k]? = some new →
      (∀ old, x.names.sparkNames[k]? = some old →
        old.sparkNameValidityHeight < new.sparkNameValidityHeight) ∧
      ∀ y y' block₂ spark₂ d₂ new₂, Reach (NameChain.step env cp) ConnectsOnly x' y →
        nextBlockHeight y.chain ≤ INT_MAX →
        y.step env cp (.connect block₂ spark₂) = some y' →
        (blockNames env cp (nextBlockHeight y.chain) block₂.vtx)[k]? = some d₂ →
        y'.names.sparkNames[k]? = some new₂ →
        new.sparkNameValidityHeight < new₂.sparkNameValidityHeight ∧
        (isNameTransfer d = true → isNameTransfer d₂ = true → d.signed ∈ signed →
          d₂.signed ∈ signed → env.transferMessage d ≠ env.transferMessage d₂)) := by
  have hx := nameInv_of_reach hreach
  have hlive := live_of_reach hreach
  constructor
  · intro k old new hold hnew hne
    obtain ⟨hchain, -, rfl⟩ | ⟨index, b, hconn⟩ := hx.connect_cases hstep
    · rw [Option.some.inj (hold.symm.trans hnew)] at hne
      exact absurd rfl hne
    · exact hconn.signedTransfer hx hold hnew hne
  · intro hgrace k d new hd hnew
    have hgraceful := cp.graceful_nonneg
    obtain ⟨index, b, hconn, hheight, hown⟩ := hx.connected_of_op hstep hd
    have hv21 : cp.nSparkNamesV21StartBlock ≤ index.nHeight := by omega
    obtain ⟨data, hdata, -, hvalidity⟩ := hconn.record_of_own hown
    obtain rfl := Option.some.inj (hnew.symm.trans hdata)
    have hincrease := (hconn.validity_of_own hx hlive hmax hown).2 hv21
    rw [← hvalidity] at hincrease
    refine ⟨hincrease, ?_⟩
    intro y y' block₂ spark₂ d₂ new₂ hrun hymax hystep hd₂ hnew₂
    obtain ⟨hy, hylive, hysince⟩ := since_of_reach (hconn.inv hx) (hconn.live hx hlive hmax)
      hv21 (hconn.since_of_own hnew) hrun
    obtain ⟨index₂, b₂, hconn₂, hheight₂, hown₂⟩ := hy.connected_of_op hystep hd₂
    obtain ⟨data₂, hdata₂, -, hvalidity₂⟩ := hconn₂.record_of_own hown₂
    obtain rfl := Option.some.inj (hnew₂.symm.trans hdata₂)
    refine ⟨?_, ?_⟩
    · rw [hvalidity₂]
      exact hconn₂.lt_of_since hy hylive hymax hv21 hysince hown₂
    · intro ht ht₂ hs hs₂ heq
      obtain ⟨e, he, hlt, hinputs⟩ := hconn.inputsHash_eq hx hlive hmax (hheight ▸ hgrace) hown ht
      have hgrace₂ : cp.nSparkNamesV21StartBlock + cp.stage41SparkNamesGracefulPeriod ≤
          index₂.nHeight := by
        have hlater := hysince.later
        omega
      obtain ⟨e₂, he₂, hlt₂, hinputs₂⟩ := hconn₂.inputsHash_eq hy hylive hymax hgrace₂ hown₂ ht₂
      have hsigned := congrArg CSparkNameTxData.inputsHash (hmessages d d₂ hs hs₂ heq)
      change d.inputsHash = d₂.inputsHash at hsigned
      rw [hinputs, hinputs₂] at hsigned
      have hsame := uint64_int32_inj hlt hlt₂ (hheights _ _ (uint64_lt _) (uint64_lt _) hsigned)
      have hfirst := hincrease e he
      have hsecond := hysince.registered e₂ he₂
      omega

/-- The name "a" goes from the address "X" to "Y" and on to "Z". -/
theorem names_move_by_consent_twoTransfers :
    ∃ x x' y' : NameChain Unit Unit, NameReach Toy.names (Toy.params 1) ConnectsOnly x ∧
      x.step Toy.names (Toy.params 1) (Toy.transfer 97) = some x' ∧
      x'.step Toy.names (Toy.params 1) (.connect
        (Toy.block 3 [Toy.nameTx 3 opTransfer 97 90 89 100 201]) (.plain 3)) = some y' ∧
      Toy.names.transferMessage (Toy.nameData opTransfer 97 89 88 100 101) ≠
        Toy.names.transferMessage (Toy.nameData opTransfer 97 90 89 100 201) := by
  have hrun : (Toy.registration.foldlM (fun x a => if ConnectsOnly x a then
      NameChain.step Toy.names (Toy.params 1) x a else none) {}).any
      (fun x => decide (nextBlockHeight x.chain = 2) &&
        (x.step Toy.names (Toy.params 1) (Toy.transfer 97)).any fun x' =>
        decide (nextBlockHeight x'.chain = 3) && (x'.names.sparkNames["A"]?).isSome &&
        (x'.step Toy.names (Toy.params 1) (.connect
          (Toy.block 3 [Toy.nameTx 3 opTransfer 97 90 89 100 201]) (.plain 3))).any fun y' =>
          (y'.names.sparkNames["A"]?).isSome) = true := by
    decide +kernel
  obtain ⟨x, hx, htest⟩ := (Option.any_eq_true ..).mp hrun
  simp only [Bool.and_eq_true, decide_eq_true_eq, Option.any_eq_true,
    Option.isSome_iff_exists] at htest
  obtain ⟨hheight, x', hx', ⟨hheight', new, hnew⟩, y', hy', new₂, hnew₂⟩ := htest
  have hreach : NameReach Toy.names (Toy.params 1) ConnectsOnly x :=
    Reach.of_foldlM_guarded .init hx
  have hheights : ∀ a b, a < 2 ^ 64 → b < 2 ^ 64 →
      Toy.names.hashExpirationHeight a = Toy.names.hashExpirationHeight b → a = b := by
    intro a b ha hb heq
    have hnat := congrArg BitVec.toNat heq
    simp only [Toy.names, BitVec.toNat_ofNat] at hnat
    omega
  have hmessages : ∀ d d₂ : CSparkNameTxData,
      d.signed ∈ ({(Toy.nameData opTransfer 97 89 88 100 101).signed,
        (Toy.nameData opTransfer 97 90 89 100 201).signed} : Set CSparkNameTxData) →
      d₂.signed ∈ ({(Toy.nameData opTransfer 97 89 88 100 101).signed,
        (Toy.nameData opTransfer 97 90 89 100 201).signed} : Set CSparkNameTxData) →
      Toy.names.transferMessage d = Toy.names.transferMessage d₂ → d.signed = d₂.signed := by
    intro d d₂ hd hd₂ heq
    unfold NameEnv.transferMessage at heq
    rcases hd with hd | hd <;> rcases hd₂ with hd₂ | hd₂ <;> rw [hd, hd₂] at heq ⊢
    · exact absurd heq (by decide)
    · exact absurd heq (by decide)
  obtain ⟨-, hlater⟩ := names_move_by_consent hheights hmessages hreach
    (by rw [hheight]; decide) hx'
  have hfirst : (blockNames Toy.names (Toy.params 1) (nextBlockHeight x.chain)
      (Toy.block 2 [Toy.nameTx 2 opTransfer 97 89 88 100 101]).vtx)["A"]? =
        some (Toy.nameData opTransfer 97 89 88 100 101) := by
    rw [hheight]
    decide +kernel
  have hsecond : (blockNames Toy.names (Toy.params 1) (nextBlockHeight x'.chain)
      (Toy.block 3 [Toy.nameTx 3 opTransfer 97 90 89 100 201]).vtx)["A"]? =
        some (Toy.nameData opTransfer 97 90 89 100 201) := by
    rw [hheight']
    decide +kernel
  obtain ⟨-, hnext⟩ := hlater (by rw [hheight]; decide) "A" _ new hfirst hnew
  obtain ⟨-, hmessage⟩ := hnext x' y' _ _ _ new₂ .init (by rw [hheight']; decide) hy' hsecond hnew₂
  exact ⟨x, x', y', hreach, hx', hy', hmessage rfl rfl (.inl rfl) (.inr rfl)⟩

end Firo.Spark
