import Firo.Spark.Batch

/-! `ConnectBlock` writes to the temporary lists of `BatchProofContainer` only, up to its last step:
a block that fails or is only checked leaves the pending spends alone. -/
namespace Firo.Spark

open Firo.Lib
open Keeps hiding modify

variable {Coin Tag Proof : Type}

section

variable {Spend : Type} {b b' b'' : BatchProofContainer Spend}

/-- The batches have the same pending spends, and the recovery marker does not go away. -/
structure BatchProofContainer.SamePending (b b' : BatchProofContainer Spend) : Prop where
  sparkTransactions : b'.sparkTransactions = b.sparkTransactions
  historicalSparkTransactions : b'.historicalSparkTransactions = b.historicalSparkTransactions
  recoveryMarker : b.recoveryMarker = true → b'.recoveryMarker = true

namespace BatchProofContainer.SamePending

lemma refl (b : BatchProofContainer Spend) : b.SamePending b :=
  ⟨rfl, rfl, id⟩

lemma trans (h : b.SamePending b') (h' : b'.SamePending b'') : b.SamePending b'' where
  sparkTransactions := h'.sparkTransactions.trans h.sparkTransactions
  historicalSparkTransactions :=
    h'.historicalSparkTransactions.trans h.historicalSparkTransactions
  recoveryMarker hmarker := h'.recoveryMarker (h.recoveryMarker hmarker)

lemma retained_eq (h : b.SamePending b') : b'.retained = b.retained := by
  unfold retained
  rw [h.sparkTransactions, h.historicalSparkTransactions]

lemma start (b : BatchProofContainer Spend) (fCollectProofs : Bool) :
    b.SamePending { b with fCollectProofs }.init :=
  ⟨rfl, rfl, fun hmarker => by simp [init, hmarker]⟩

end BatchProofContainer.SamePending

end

section

variable {env : SparkEnv Coin Tag Proof} {cp : ConsensusParams} {v : View Coin Tag}
  {b : BatchProofContainer (SpendTransaction Coin Tag Proof)}

/-- The checks leave the pending spends as `b` has them. -/
abbrev KeepsPending {α : Type} (b : BatchProofContainer (SpendTransaction Coin Tag Proof))
    (x : CheckM Coin Tag Proof α) : Prop :=
  Keeps (fun ctx => b.SamePending ctx.batch) x

lemma keeps_updateInfo (f) :
    KeepsPending b (modify fun ctx => ctx.updateInfo f : CheckM Coin Tag Proof PUnit) :=
  Keeps.modify fun _ h => h

lemma keeps_checkSparkSMintTransaction (vout) :
    KeepsPending b (checkSparkSMintTransaction env vout) := by
  unfold checkSparkSMintTransaction
  exact .liftCheck_bind fun _ => .bind (keeps_updateInfo _) fun _ => .pure _

lemma keeps_verifySpend (g) (hashTx) (isVerifyDB isCheckWallet : Bool) (spend) (provider) :
    KeepsPending b (verifySpend env g hashTx isVerifyDB isCheckWallet spend provider) := by
  unfold verifySpend
  apply get_bind
  intro ctx hctx
  apply Keeps.ite
  · apply Keeps.ite
    · exact .bind (.set ⟨hctx.1, hctx.2, hctx.3⟩) fun _ => .pure _
    · exact .bind (.set ⟨hctx.1, hctx.2, hctx.3⟩) fun _ => .pure _
  apply Keeps.ite (pure _)
  apply Keeps.ite
  · apply Keeps.ite
    · exact .bind (.set ⟨hctx.1, hctx.2, hctx.3⟩) fun _ => .pure _
    · exact .pure _
  · exact Keeps.ite (pure _) (pure _)

lemma keeps_checkSparkMintTransaction (txOuts) (hashTx) :
    KeepsPending b (checkSparkMintTransaction env txOuts hashTx) := by
  unfold checkSparkMintTransaction
  refine .liftCheck_bind fun _ => .liftCheck_bind fun _ => .liftCheck_bind fun _ => ?_
  refine .liftCheck_bind fun _ => .liftCheck_bind fun _ => ?_
  exact keeps_updateInfo _

variable [DecidableEq Tag]

lemma keeps_checkSpendTags (hashTx) (isVerifyDB isCheckWallet : Bool) (nHeight : Int)
    (spend) : KeepsPending b (checkSpendTags v hashTx isVerifyDB isCheckWallet nHeight spend) := by
  unfold checkSpendTags
  refine .liftCheck_bind fun _ => ?_
  apply Keeps.bind Keeps.get
  intro _
  refine .liftCheck_bind fun _ => .liftCheck_bind fun _ => ?_
  exact Keeps.ite (keeps_updateInfo _) (pure _)

variable (tx : CTransaction) (hashTx : Uint256) (isVerifyDB : Bool) (nHeight : Int)
  (isCheckWallet stateful : Bool)

lemma keeps_checkSparkSpendTransaction :
    KeepsPending b (checkSparkSpendTransaction env cp v tx hashTx
      isVerifyDB nHeight isCheckWallet stateful) := by
  unfold checkSparkSpendTransaction
  apply Keeps.bind Keeps.get
  intro _
  refine .liftCheck_bind fun _ => ?_
  apply Keeps.ite (pure _)
  refine .liftCheck_bind fun _ => ?_
  apply Keeps.bind (Keeps.liftCheck _)
  rintro ⟨vout, privateNum⟩
  refine .liftCheck_bind fun _ => ?_
  apply Keeps.bind (keeps_checkSparkSMintTransaction _)
  intro _
  refine .liftCheck_bind fun _ => .liftCheck_bind fun _ => .liftCheck_bind fun _ => ?_
  apply Keeps.bind (keeps_verifySpend _ _ _ _ _ _)
  intro _
  refine .liftCheck_bind fun _ => ?_
  exact keeps_checkSpendTags _ _ _ _ _

omit [DecidableEq Tag] in
lemma keeps_checkSparkName (tx) (nRealHeight : Int) (dos : Nat) :
    KeepsPending b (checkSparkName env cp v tx nRealHeight dos) := by
  unfold checkSparkName
  apply Keeps.bind (Keeps.liftCheck _)
  intro data
  cases data with
  | none => exact pure _
  | some d =>
    apply Keeps.bind Keeps.get
    intro ctx
    split
    · exact pure _
    · apply Keeps.ite
      · apply Keeps.bind (Keeps.liftCheck _)
        intro _
        exact keeps_updateInfo _
      · exact pure _

lemma keeps_checkSparkTransaction : KeepsPending b (checkSparkTransaction env cp v tx hashTx
      isVerifyDB nHeight isCheckWallet stateful) := by
  unfold checkSparkTransaction
  refine Keeps.ite (.bind (.liftCheck _) fun _ => .bind (keeps_checkSparkMintTransaction _ _)
    fun _ => Keeps.ite ?_ (pure _)) (Keeps.ite ?_ (pure _))
  all_goals
    refine .liftCheck_bind fun _ => ?_
    apply Keeps.bind (keeps_checkSparkSpendTransaction _ _ _ _ _ _)
    intro _
    exact Keeps.ite (keeps_checkSparkName _ _ _) (pure _)

omit [DecidableEq Tag] in
lemma keeps_addVerdict {α : Type} {x : CheckM Coin Tag Proof α} (f)
    (hx : KeepsPending b x) : KeepsPending b (addVerdict f x) := by
  intro ctx hctx
  unfold addVerdict
  constructor
  · intro a ctx' h
    split at h
    case h_1 a' ctx₁ hx₁ =>
      injection h with _ hctx'
      exact hctx' ▸ (hx ctx hctx).1 a' ctx₁ hx₁
    case h_2 => cases h
  · intro e ctx' h
    split at h
    case h_1 => cases h
    case h_2 e' ctx₁ hx₁ =>
      injection h with _ hctx'
      exact hctx' ▸ (hx ctx hctx).2 e' ctx₁ hx₁

lemma keeps_checkTransaction : KeepsPending b (checkTransaction env cp v tx hashTx isVerifyDB
      nHeight isCheckWallet stateful) := by
  unfold checkTransaction
  refine .liftCheck_bind fun _ => .liftCheck_bind fun _ => .liftCheck_bind fun _ => ?_
  exact Keeps.ite (keeps_checkSparkTransaction _ _ _ _ _ _) (pure _)

lemma keeps_connectTransaction (tx) (isVerifyDB : Bool) (nHeight nFees : Int) :
    KeepsPending b (connectTransaction env cp v tx isVerifyDB nHeight nFees) := by
  unfold connectTransaction
  apply Keeps.ite
  · apply Keeps.bind (Keeps.liftCheck _)
    intro _
    refine .liftCheck_bind fun _ => ?_
    apply Keeps.bind (keeps_addVerdict _ (keeps_checkTransaction _ _ _ _ _ _))
    intro _
    exact pure _
  · exact pure _

lemma keeps_connectTransactions (other) (isVerifyDB : Bool) (nHeight : Int)
    (vtx) (i : Nat) (txIds) (nFees : Int) :
    KeepsPending b (connectTransactions env cp v other isVerifyDB nHeight vtx i txIds nFees) := by
  induction vtx generalizing i txIds nFees with
  | nil => exact pure _
  | cons tx rest ih =>
    unfold connectTransactions
    refine .liftCheck_bind fun _ => .liftCheck_bind fun _ => .liftCheck_bind fun _ => ?_
    apply Keeps.bind (keeps_connectTransaction _ _ _ _)
    intro _
    refine .liftCheck_bind fun _ => ?_
    exact ih _ _ _

end

section

variable {env : SparkEnv Coin Tag Proof} {cp : ConsensusParams}
  {other : OtherChecks} {n : Node Coin Tag Proof}

/-- A node with the chain of `n` and its pending spends. -/
def Node.Holds (n n' : Node Coin Tag Proof) : Prop :=
  n'.chain = n.chain ∧ n.batch.SamePending n'.batch

abbrev Node.KeepsHolding {α : Type} (n : Node Coin Tag Proof) (x : ConnectM Coin Tag Proof α) :
    Prop :=
  Keeps (fun y => n.Holds y.1) x

lemma holds_modify {f} (hf : ∀ y, (f y).1.chain = y.1.chain ∧ (f y).1.batch = y.1.batch) :
    n.KeepsHolding (modify f : ConnectM Coin Tag Proof Unit) := by
  apply Keeps.modify
  intro y hy
  obtain ⟨hchain, hbatch⟩ := hf y
  exact ⟨hchain.trans hy.1, hbatch ▸ hy.2⟩

lemma holds_runChecks {x}
    (hx : ∀ b : BatchProofContainer (SpendTransaction Coin Tag Proof), KeepsPending b x) :
    n.KeepsHolding (runChecks x) := by
  rintro ⟨n₁, index₁⟩ ⟨hchain, hpending⟩
  have hrun := hx n₁.batch ⟨some {}, n₁.checkedSpends, n₁.batch⟩ (.refl _)
  constructor
  · intro info y hy
    obtain ⟨u, ctx, hctx, -, rfl⟩ := runChecks_eq_ok hy
    exact ⟨hchain, hpending.trans (hrun.1 u ctx hctx)⟩
  · intro e y hy
    unfold runChecks at hy
    dsimp only at hy
    split at hy
    case h_1 => cases hy
    case h_2 e' ctx hctx =>
      injection hy with _ hy
      subst hy
      exact ⟨hchain, hpending.trans (hrun.2 e' ctx hctx)⟩

lemma holds_indexSparkNames (names) :
    n.KeepsHolding (indexSparkNames cp names : ConnectM Coin Tag Proof Unit) := by
  induction names with
  | nil => exact pure _
  | cons entry rest ih =>
    unfold indexSparkNames
    apply get_bind
    rintro ⟨n₁, index₁⟩ h₁
    apply Keeps.bind (Keeps.liftCheck _)
    intro index
    apply Keeps.bind (Keeps.set ⟨h₁.1, h₁.2⟩)
    intro _
    exact ih

variable [DecidableEq Coin]

lemma holds_connectMints (mints) : n.KeepsHolding (connectMints env cp other mints) := by
  unfold connectMints
  apply get_bind
  rintro ⟨n₁, index₁⟩ h₁
  apply Keeps.bind (Keeps.liftCheck _)
  rintro ⟨s, index⟩
  apply Keeps.bind (Keeps.set ⟨h₁.1, h₁.2⟩)
  intro _
  refine .liftCheck_bind fun _ => ?_
  exact pure _

omit [DecidableEq Coin] in
lemma holds_connectRest (sparkNames)
    (setHash) : n.KeepsHolding (connectRest cp sparkNames setHash) := by
  apply Keeps.bind (holds_indexSparkNames _)
  intro _
  apply Keeps.bind
  · exact holds_modify fun _ => ⟨rfl, rfl⟩
  intro _
  exact holds_modify fun _ => ⟨rfl, rfl⟩

variable [DecidableEq Tag]

lemma holds_connectBlockSpark (block) (info) (fJustCheck isVerifyDB : Bool) :
    n.KeepsHolding (connectBlockSpark env cp other block info fJustCheck isVerifyDB) := by
  unfold connectBlockSpark
  refine Keeps.ite (.bind (holds_modify fun _ => ⟨rfl, rfl⟩) fun _ => ?_) ?_
  all_goals
    apply Keeps.bind Keeps.get
    rintro ⟨n₁, index₁⟩
    refine .liftCheck_bind fun _ => .liftCheck_bind fun _ => ?_
    apply Keeps.ite
    · exact Keeps.ite (holds_modify fun _ => ⟨rfl, rfl⟩) (pure _)
    · apply Keeps.bind
      · exact holds_modify fun _ => ⟨rfl, rfl⟩
      intro _
      apply Keeps.ite
      · exact holds_connectRest info.sparkNames none
      · apply Keeps.bind
        · exact .bind (holds_connectMints _) fun _ => .pure _
        · exact holds_connectRest info.sparkNames

variable {J : Node Coin Tag Proof × CBlockIndex Coin Tag → Prop}

variable {fJustCheck isVerifyDB : Bool} {n' : Node Coin Tag Proof}

lemma holds_connectBlockEnd (info : CSparkTxInfo Coin Tag)
    (block : CBlock) (hJ : ∀ y, n.Holds y.1 → J y)
    (hfinalize : fJustCheck = false → ∀ n₁ index₁, n.Holds n₁ →
      J ({ n₁ with batch := n₁.batch.finalize }, index₁)) :
    KeepsUntil (fun y => n.Holds y.1) J (do
      liftCheck (verdict other.afterTransactions)
      connectBlockSpark env cp other block info (fJustCheck || isVerifyDB) isVerifyDB
      if !fJustCheck then
        modify fun (n, index) => ({ n with batch := n.batch.finalize }, index) :
      ConnectM Coin Tag Proof Unit) := by
  apply KeepsUntil.bind (Keeps.liftCheck _)
  intro _
  apply KeepsUntil.bind (holds_connectBlockSpark _ _ _ _)
  intro _
  cases fJustCheck with
  | true => exact KeepsUntil.mono hJ (pure _)
  | false => exact KeepsUntil.modify fun y hy => hfinalize rfl y.1 y.2 hy

lemma holds_connectBlock (hJ : ∀ y, n.Holds y.1 → J y)
    (hfinalize : fJustCheck = false → ∀ n₁ index₁, n.Holds n₁ →
      J ({ n₁ with batch := n₁.batch.finalize }, index₁)) :
    KeepsUntil (fun y => n.Holds y.1) J (connectBlock env cp other fJustCheck isVerifyDB) := by
  unfold connectBlock
  apply KeepsUntil.bind Keeps.get
  rintro ⟨n₁, index₁⟩
  apply KeepsUntil.bind (Keeps.liftCheck _)
  intro _
  apply KeepsUntil.bind (Keeps.liftCheck _)
  intro _
  apply KeepsUntil.ite (KeepsUntil.mono hJ (pure _))
  apply KeepsUntil.bind (Keeps.liftCheck _)
  intro _
  apply KeepsUntil.bind
  · apply Keeps.modify
    rintro ⟨n₂, index₂⟩ ⟨hchain, hpending⟩
    exact ⟨hchain, hpending.trans (.start _ _)⟩
  intro _
  apply KeepsUntil.bind (holds_runChecks fun b => keeps_connectTransactions _ _ _ _ _ _ _)
  intro info
  apply KeepsUntil.ite
  · apply KeepsUntil.bind (Keeps.liftCheck _)
    intro _
    exact holds_connectBlockEnd _ _ hJ hfinalize
  · exact holds_connectBlockEnd _ _ hJ hfinalize

lemma Node.Holds.checkBlock {index} (hstep : n.checkBlock env cp index other isVerifyDB = some n') :
    n.Holds n' := by
  have hrun : KeepsUntil (fun y => n.Holds y.1) (fun y => n.Holds y.1)
      (connectBlock env cp other true isVerifyDB) :=
    holds_connectBlock (fun _ h => h) nofun
  obtain ⟨hok, herror⟩ := hrun (n, index) ⟨rfl, .refl _⟩
  unfold Node.checkBlock at hstep
  split at hstep
  case h_1 u n₁ b heq =>
    cases hstep
    exact hok u _ heq
  case h_2 => cases hstep
  case h_3 e n₁ b _ heq =>
    cases hstep
    exact herror e _ heq

lemma Node.Holds.connectTip {block} (hstep : n.connectTip env cp block other = some n')
    (hchain : n'.chain = n.chain) : n.Holds n' := by
  have hrun : KeepsUntil (fun y => n.Holds y.1) (fun y => y.1.chain = n.chain)
      (connectBlock env cp other false false) :=
    holds_connectBlock (fun _ h => h.1) fun _ _ _ h => h.1
  unfold Node.connectTip at hstep
  obtain ⟨index, -, hrest⟩ := Option.bind_eq_some_iff.mp hstep
  obtain ⟨hok, herror⟩ := hrun (n, index) ⟨rfl, .refl _⟩
  split at hrest
  case h_1 =>
    cases hrest
    exact ⟨rfl, .refl _⟩
  case h_2 =>
    split at hrest
    case h_1 u n₁ b heq =>
      cases hrest
      have hlength := congrArg List.length (hchain.trans (hok u _ heq).symm)
      simp at hlength
    case h_2 => cases hrest
    case h_3 e n₁ b _ heq =>
      cases hrest
      exact herror e _ heq

end

end Firo.Spark
