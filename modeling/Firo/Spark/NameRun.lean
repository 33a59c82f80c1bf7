import Firo.Spark.NodeInv

/-! The names of a node while blocks are connected and disconnected, apart from the rest of the
node: a block is connected when its name transactions pass `CheckSparkNameTx` and the conflict test
of the block, whatever its coins and spends are. -/
namespace Firo.Spark

open Firo.Lib CSparkNameManager

/-- The active chain, the index entries of other blocks, and the names. -/
structure NameChain (Coin Tag : Type) where
  chain : List (CBlockIndex Coin Tag) := []
  blockIndex : Uint256 → Option (CBlockIndex Coin Tag) := fun _ => none
  names : CSparkNameManager := {}

/-- A block to connect or one that fails to connect, with the Spark data that its index
gets, or the disconnection of the tip. -/
inductive NameAction (Coin Tag : Type) where
  | connect (block : CBlock) (spark : CBlockIndex Coin Tag)
  | failed (block : CBlock) (spark : CBlockIndex Coin Tag)
  | disconnect

variable {Coin Tag Proof : Type}

/-- The index `index` with the coins, set hashes and linking tags of `spark`. -/
def CBlockIndex.withSpark (index spark : CBlockIndex Coin Tag) : CBlockIndex Coin Tag :=
  { index with
    sparkMintedCoins := spark.sparkMintedCoins
    sparkSetHash := spark.sparkSetHash
    spentLTags := spark.spentLTags }

section

variable (env : NameEnv) (cp : ConsensusParams)

/-- The names of a block are checked and connected; the genesis block has none. -/
def NameChain.connect (x : NameChain Coin Tag) (block : CBlock) (spark : CBlockIndex Coin Tag) :
    Option (NameChain Coin Tag) := do
  let index ← blockIndexEntry cp x.chain x.blockIndex block
  let index := index.withSpark spark
  if x.chain.isEmpty then
    return { x with
      chain := [index]
      blockIndex := Function.update x.blockIndex block.hash none }
  else
    let own ← (checkBlockNames x.names env cp index.nHeight block.vtx ∅).toOption
    let (names, index) ← (x.names.connect cp index own).toOption
    return {
      chain := index :: x.chain
      blockIndex := Function.update x.blockIndex block.hash none
      names }

def NameChain.step (x : NameChain Coin Tag) : NameAction Coin Tag → Option (NameChain Coin Tag)
  | .connect block spark => x.connect env cp block spark
  | .failed block spark => do
    let index ← blockIndexEntry cp x.chain x.blockIndex block
    return { x with
      blockIndex := Function.update x.blockIndex block.hash (some (index.withSpark spark)) }
  | .disconnect =>
    match x.chain with
    | b :: p :: chain => some {
        chain := p :: chain
        blockIndex := Function.update x.blockIndex b.hash (some b)
        names := x.names.removeBlock b }
    | _ => none

/-- The chains and names that are reached from the empty ones by steps that meet `ok`. -/
def NameReach (ok : NameChain Coin Tag → NameAction Coin Tag → Prop) : NameChain Coin Tag → Prop :=
  Reach (NameChain.step env cp) ok {}

end

variable {env : NameEnv} {cp : ConsensusParams} {x x' : NameChain Coin Tag} {block : CBlock}
  {spark index b : CBlockIndex Coin Tag}

def NameChain.Inv (env : NameEnv) (cp : ConsensusParams) (x : NameChain Coin Tag) : Prop :=
  ∃ know, TreeInv env cp know x.chain x.blockIndex x.names

lemma NameChain.Inv.namesInv (h : x.Inv env cp) : NamesInv x.names := by
  obtain ⟨know, htree⟩ := h
  exact htree.names

/-- A block that was connected on a tip, with the index `b` that joined the chain. -/
structure NameConnected (env : NameEnv) (cp : ConsensusParams) (x : NameChain Coin Tag)
    (block : CBlock) (spark index b : CBlockIndex Coin Tag) (x' : NameChain Coin Tag) :
    Prop where
  ne_nil : x.chain ≠ []
  entry : blockIndexEntry cp x.chain x.blockIndex block = some index
  checked : checkBlockNames x.names env cp index.nHeight block.vtx ∅ = .ok (index.own env cp)
  connecting : Connecting x.names cp (index.own env cp) (index.withSpark spark)
  connect_eq : x.names.connect cp (index.withSpark spark) (index.own env cp) = .ok (x'.names, b)
  chain_eq : x'.chain = b :: x.chain
  blockIndex_eq : x'.blockIndex = Function.update x.blockIndex block.hash none

/-- A connected block is the genesis block or passed the checks of its names. -/
lemma NameChain.Inv.connect_cases (h : x.Inv env cp)
    (hstep : x.connect env cp block spark = some x') :
    (x.chain = [] ∧ block = cp.genesis ∧ x' = { x with
        chain := [({ block, nHeight := 0 } : CBlockIndex Coin Tag).withSpark spark]
        blockIndex := Function.update x.blockIndex block.hash none }) ∨
      ∃ index b, NameConnected env cp x block spark index b x' := by
  obtain ⟨know, htree⟩ := h
  unfold NameChain.connect at hstep
  obtain ⟨index, hentry, hrest⟩ := Option.bind_eq_some_iff.mp hstep
  cases hchain : x.chain with
  | nil =>
    left
    rw [hchain] at hentry hrest
    obtain ⟨-, hgenesis, hindex⟩ | ⟨_, _, hcons, -⟩ := blockIndexEntry_eq_some hentry
    · cases hrest
      exact ⟨rfl, hgenesis, by rw [hindex]⟩
    · cases hcons
  | cons tip rest =>
    right
    have hempty : x.chain.isEmpty = false := by rw [hchain]; rfl
    simp only [hempty, Bool.false_eq_true, if_false] at hrest
    obtain ⟨own, hown, hconnect⟩ := Option.bind_eq_some_iff.mp hrest
    obtain ⟨⟨names, b⟩, hnames, hx'⟩ := Option.bind_eq_some_iff.mp hconnect
    cases hx'
    rw [except_toOption_eq_some] at hown hnames
    rw [hchain] at htree
    have hentry' := hentry
    rw [hchain] at hentry'
    obtain ⟨hblock, -, -, -, hrec⟩ := htree.entry hentry'
    have hchecked : checkBlockNames x.names env cp index.nHeight block.vtx ∅ = .ok own := hown
    obtain ⟨haccepted, hown'⟩ := checkBlockNames_eq_ok NamesAccepted.empty hchecked
    have heq : own = index.own env cp := by
      rw [hown', ← hblock]
      rfl
    subst heq
    have hconn : Connecting x.names cp (index.own env cp) index := ⟨htree.names, haccepted, hrec⟩
    exact ⟨index, b, by rw [hchain]; exact List.cons_ne_nil _ _, hentry, hchecked,
      hconn.of_index rfl rfl rfl, hnames, rfl, rfl⟩

namespace NameConnected

variable (h : NameConnected env cp x block spark index b x')

include h

lemma spec : NamesInv x'.names ∧
    x'.names.core = nextCore x.names.core cp index.nHeight (index.own env cp) ∧
    b.block = index.block ∧ b.nHeight = index.nHeight ∧
    Recorded x.names.core cp (index.own env cp) b := by
  obtain ⟨m', added, removed, hconnect, hinv, hcore, hrecorded⟩ := h.connecting.connect_spec
  obtain ⟨rfl, rfl⟩ := Prod.mk.inj (Except.ok.inj (hconnect.symm.trans h.connect_eq))
  exact ⟨hinv, hcore, rfl, rfl, hrecorded⟩

lemma inv (hx : x.Inv env cp) : x'.Inv env cp := by
  obtain ⟨know, htree⟩ := hx
  obtain ⟨hinv, hcore, hblock, hheight, hrecorded⟩ := h.spec
  have hentry := h.entry
  obtain ⟨tip, rest, hchain⟩ := List.exists_cons_of_ne_nil h.ne_nil
  unfold NameChain.Inv
  rw [h.chain_eq, h.blockIndex_eq]
  rw [hchain] at htree hentry ⊢
  exact ⟨_, htree.connect hentry hinv hcore hblock hheight hrecorded⟩

end NameConnected

/-- Connecting and disconnecting a block keep the invariant of the names. -/
lemma NameChain.Inv.step {a} (h : x.Inv env cp)
    (hstep : x.step env cp a = some x') : x'.Inv env cp := by
  cases a with
  | connect block spark =>
    obtain ⟨hchain, hgenesis, rfl⟩ | ⟨index, b, hconn⟩ := h.connect_cases hstep
    · obtain ⟨know, htree⟩ := h
      rw [hchain] at htree
      rw [hgenesis]
      exact ⟨_, htree.connect_genesis ⟨rfl, rfl⟩⟩
    · exact hconn.inv h
  | failed block spark =>
    obtain ⟨index, hentry, hx'⟩ := Option.bind_eq_some_iff.mp hstep
    cases hx'
    obtain ⟨know, htree⟩ := h
    exact ⟨know, htree.failed hentry rfl rfl rfl rfl⟩
  | disconnect =>
    change (match x.chain with
      | b :: p :: chain => some _
      | _ => none) = some x' at hstep
    split at hstep
    case h_1 b p chain hchain =>
      cases hstep
      obtain ⟨know, htree⟩ := h
      rw [hchain] at htree
      exact ⟨know, htree.disconnect⟩
    case h_2 => cases hstep

/-- The invariant of the names holds in every run. -/
lemma nameInv_of_reach {ok} (h : NameReach env cp ok x) : x.Inv env cp :=
  h.invariant (I := NameChain.Inv env cp) ⟨_, TreeInv.initial⟩
    (fun _ _ _ hx _ hstep => hx.step hstep)

/-- In every run the addresses are the inverse of the names: an address belongs to a name
exactly if it is the address in the record of that name. -/
theorem names_addresses_inverse {ok : NameChain Coin Tag → NameAction Coin Tag → Prop}
    (h : NameReach env cp ok x) (address name : String) :
    x.names.sparkNameAddresses[address]? = some name ↔
      ∃ data, x.names.sparkNames[name]? = some data ∧ data.sparkAddress = address :=
  (nameInv_of_reach h).namesInv.inverse address name

def Toy.connectNames (blocks : List (Nat × List CTransaction)) : List (NameAction Unit Unit) :=
  blocks.map fun b => .connect (Toy.block b.1 b.2) (.plain b.1)

/-- The name "a" with the address "X", and its transfer to the address "Y" under the
spelling `name`. -/
def Toy.registration : List (NameAction Unit Unit) :=
  Toy.connectNames [(0, []), (1, [Toy.nameTx 1 opRegister 97 88 0 100 0])]

def Toy.transfer (name : UInt8) : NameAction Unit Unit :=
  .connect (Toy.block 2 [Toy.nameTx 2 opTransfer name 89 88 100 101]) (.plain 2)

theorem names_addresses_inverse_transfer :
    ∃ x : NameChain Unit Unit, NameReach Toy.names (Toy.params 1) (fun _ _ => True) x ∧
      x.names.sparkNameAddresses["Y"]? = some "A" ∧
      ∃ data, x.names.sparkNames["A"]? = some data ∧ data.sparkAddress = "Y" := by
  have hrun : ((Toy.registration ++ [Toy.transfer 97]).foldlM
      (NameChain.step Toy.names (Toy.params 1)) {}).any
        (fun x => decide (x.names.sparkNameAddresses["Y"]? = some "A")) = true := by
    decide +kernel
  obtain ⟨x, hx, htest⟩ := (Option.any_eq_true ..).mp hrun
  have hreach : NameReach Toy.names (Toy.params 1) (fun _ _ => True) x :=
    Reach.of_foldlM .init (fun _ _ _ => trivial) hx
  have haddress := of_decide_eq_true htest
  exact ⟨x, hreach, haddress, (names_addresses_inverse hreach "Y" "A").mp haddress⟩

/-- Disconnecting the block that was connected last leads back to the same names and
addresses exactly if the block keeps the records. -/
theorem disconnect_restores_names_iff {ok : NameChain Coin Tag → NameAction Coin Tag → Prop}
    (h : NameReach env cp ok x) (hne : x.chain ≠ [])
    (hstep : x.step env cp (.connect block spark) = some x') :
    ∃ index x'', blockIndexEntry cp x.chain x.blockIndex block = some index ∧
      x'.step env cp .disconnect = some x'' ∧
      (x''.names = x.names ↔
        KeepsRecords x.names index.nHeight (index.own env cp) index.removedSparkNames) := by
  obtain ⟨hnil, -⟩ | ⟨index, b, hconn⟩ := (nameInv_of_reach h).connect_cases hstep
  · exact absurd hnil hne
  · obtain ⟨tip, rest, hchain⟩ := List.exists_cons_of_ne_nil hne
    refine ⟨index, ⟨tip :: rest, Function.update x'.blockIndex b.hash (some b),
      x'.names.removeBlock b⟩, hconn.entry, ?_, hconn.connecting.undo_eq_iff hconn.connect_eq⟩
    unfold NameChain.step
    rw [hconn.chain_eq, hchain]

theorem disconnect_restores_names_sameCase : ∃ x x' x'' : NameChain Unit Unit,
      NameReach Toy.names (Toy.params 1) (fun _ _ => True) x ∧
      x.step Toy.names (Toy.params 1) (Toy.transfer 97) = some x' ∧
      x'.step Toy.names (Toy.params 1) .disconnect = some x'' ∧
      (x''.names = x.names ↔ ∃ index, blockIndexEntry (Toy.params 1) x.chain x.blockIndex
          (Toy.block 2 [Toy.nameTx 2 opTransfer 97 89 88 100 101]) = some index ∧
        KeepsRecords x.names index.nHeight (index.own Toy.names (Toy.params 1))
          index.removedSparkNames) := by
  have hrun : (Toy.registration.foldlM (NameChain.step Toy.names (Toy.params 1)) {}).any
      (fun x => !x.chain.isEmpty &&
        (x.step Toy.names (Toy.params 1) (Toy.transfer 97)).isSome) = true := by
    decide +kernel
  obtain ⟨x, hx, htest⟩ := (Option.any_eq_true ..).mp hrun
  simp only [Bool.and_eq_true, Bool.not_eq_true', List.isEmpty_eq_false_iff] at htest
  obtain ⟨hne, hsome⟩ := htest
  obtain ⟨x', hx'⟩ := Option.isSome_iff_exists.mp hsome
  have hreach : NameReach Toy.names (Toy.params 1) (fun _ _ => True) x :=
    Reach.of_foldlM .init (fun _ _ _ => trivial) hx
  obtain ⟨index, x'', hentry, hx'', hiff⟩ := disconnect_restores_names_iff hreach hne hx'
  refine ⟨x, x', x'', hreach, hx', hx'', hiff.trans ⟨fun hk => ⟨index, hentry, hk⟩, ?_⟩⟩
  rintro ⟨index', hentry', hk⟩
  rwa [← Option.some.inj (hentry.symm.trans hentry')] at hk

/-- A transfer that spells the name "a" in upper case: when it is disconnected, the record
of the name has the other spelling. -/
theorem disconnect_changes_name_otherCase : ∃ x x' x'' : NameChain Unit Unit,
      NameReach Toy.names (Toy.params 1) (fun _ _ => True) x ∧
      x.step Toy.names (Toy.params 1) (Toy.transfer 65) = some x' ∧
      x'.step Toy.names (Toy.params 1) .disconnect = some x'' ∧
      (x.names.sparkNames["A"]?).map (·.name) = some "a" ∧
      (x''.names.sparkNames["A"]?).map (·.name) = some "A" := by
  have hrun : (Toy.registration.foldlM (NameChain.step Toy.names (Toy.params 1)) {}).any
      (fun x => decide ((x.names.sparkNames["A"]?).map (·.name) = some "a") &&
        (x.step Toy.names (Toy.params 1) (Toy.transfer 65)).any fun x' =>
        (x'.step Toy.names (Toy.params 1) .disconnect).any fun x'' =>
          decide ((x''.names.sparkNames["A"]?).map (·.name) = some "A")) = true := by
    decide +kernel
  obtain ⟨x, hx, htest⟩ := (Option.any_eq_true ..).mp hrun
  simp only [Bool.and_eq_true, decide_eq_true_eq, Option.any_eq_true] at htest
  obtain ⟨hbefore, x', hx', x'', hx'', hafter⟩ := htest
  exact ⟨x, x', x'', Reach.of_foldlM .init (fun _ _ _ => trivial) hx, hx', hx'', hbefore, hafter⟩

/-- The names of a run that never disconnects a block are those that the replay of its
chain computes. -/
theorem replay_eq_names (h : NameReach env cp (fun _ a => a ≠ NameAction.disconnect) x) :
    replay x.chain = x.names := by
  induction h with
  | init => rfl
  | @step x x' a hreach hok hstep ih =>
    cases a with
    | connect block spark =>
      obtain ⟨hchain, -, rfl⟩ | ⟨index, b, hconn⟩ := (nameInv_of_reach hreach).connect_cases hstep
      · rw [← ih, hchain]
        rfl
      · rw [hconn.chain_eq]
        change ((replay x.chain).addBlock b false).1 = x'.names
        rw [ih]
        exact hconn.connecting.addBlock_eq hconn.connect_eq
    | failed block spark =>
      obtain ⟨index, -, hx'⟩ := Option.bind_eq_some_iff.mp hstep
      cases hx'
      exact ih
    | disconnect => exact absurd rfl hok

theorem replay_eq_names_transfer : ∃ x : NameChain Unit Unit,
      NameReach Toy.names (Toy.params 1) (fun _ a => a ≠ NameAction.disconnect) x ∧
      x.names.sparkNameAddresses["Y"]? = some "A" ∧ replay x.chain = x.names := by
  have hrun : ((Toy.registration ++ [Toy.transfer 65]).foldlM
      (NameChain.step Toy.names (Toy.params 1)) {}).any
        (fun x => decide (x.names.sparkNameAddresses["Y"]? = some "A")) = true := by
    decide +kernel
  obtain ⟨x, hx, htest⟩ := (Option.any_eq_true ..).mp hrun
  have hreach : NameReach Toy.names (Toy.params 1) (fun _ a => a ≠ NameAction.disconnect) x := by
    apply Reach.of_foldlM .init _ hx
    simp [Toy.registration, Toy.connectNames, Toy.transfer]
  exact ⟨x, hreach, of_decide_eq_true htest, replay_eq_names hreach⟩

def Node.nameChain (n : Node Coin Tag Proof) : NameChain Coin Tag :=
  ⟨n.chain, n.blockIndex, n.sparkNameManager⟩

section

variable [DecidableEq Coin] [DecidableEq Tag] {env : SparkEnv Coin Tag Proof}
  {n n' : Node Coin Tag Proof} {other : OtherChecks}

lemma TipStep.nameChain (hentry : n.indexOf cp block = some index)
    (h : TipStep env cp other n block index n') : n'.nameChain = n.nameChain ∨
      ∃ a, n.nameChain.step env.names cp a = some n'.nameChain := by
  cases h with
  | refused => exact .inl rfl
  | failed checkedSpends batch b hb =>
    have hspark : index.withSpark b = b := by
      rcases hb with rfl | rfl <;> rfl
    refine .inr ⟨.failed block b, ?_⟩
    change (n.indexOf cp block).bind _ = _
    rw [hentry, Option.bind_some, hspark]
    rfl
  | genesis hchain =>
    refine .inr ⟨.connect block index, ?_⟩
    change (n.indexOf cp block).bind _ = _
    rw [hentry, Option.bind_some]
    change (if n.chain.isEmpty = true then _ else _) = _
    rw [hchain]
    rfl
  | connected hnext hcontext n₁ b c =>
    obtain ⟨spark, hspark⟩ : ∃ spark, spark =
      c.b₁.withSetHash n₁.sparkState.latestCoinId c.setHash := ⟨_, rfl⟩
    have hwith : index.withSpark spark = spark := by
      rw [hspark, c.b₁_eq]
      cases c.setHash <;> rfl
    have hheight : spark.nHeight = index.nHeight := by
      rw [hspark, CBlockIndex.withSetHash_nHeight, c.b₁_eq]
      rfl
    have hchecked : checkBlockNames n.sparkNameManager env.names cp index.nHeight block.vtx ∅ =
        .ok c.info.sparkNames := by
      rw [← hnext.block_eq]
      exact c.accepted.checkBlockNames
    have hconnect : n.sparkNameManager.connect cp spark c.info.sparkNames =
        .ok (n₁.sparkNameManager, b) := by
      rw [hspark]
      exact c.spark.names
    have hempty : n.chain.isEmpty = false := by
      cases hchain : n.chain with
      | nil =>
        obtain ⟨hgenesis, -⟩ := Node.indexOf_nil hchain hentry
        exact absurd (by rw [hnext.block_eq, hgenesis]; rfl) hnext.not_genesis
      | cons tip rest => rfl
    refine .inr ⟨.connect block spark, ?_⟩
    change (n.indexOf cp block).bind _ = _
    rw [hentry, Option.bind_some, hwith]
    change (if n.chain.isEmpty = true then _ else Option.bind (Except.toOption
      (checkBlockNames n.sparkNameManager env.names cp spark.nHeight _ _)) _) = _
    rw [hempty, if_neg Bool.false_ne_true, hheight, hchecked]
    change Option.bind (n.sparkNameManager.connect cp spark c.info.sparkNames).toOption _ = _
    rw [hconnect]
    rfl

/-- The runs of a node, with all that its blocks, batches and coins take part in, are runs of the
names on its chain. -/
theorem nameReach_of_reachable {maxCoinInGroup startGroupSize : Nat} {ok}
    (h : Reachable env cp maxCoinInGroup startGroupSize ok n) :
    NameReach env.names cp (fun _ _ => True) n.nameChain := by
  induction h with
  | init => exact .init
  | @step n n' a hreach _ hstep ih =>
    have hn := nodeInv_of_reachable hreach
    have hstep' : n'.nameChain = n.nameChain ∨
        ∃ a, n.nameChain.step env.names cp a = some n'.nameChain := by
      by_cases hconnect : ∃ block other, a = .connectTip block other
      · obtain ⟨block, other, rfl⟩ := hconnect
        obtain ⟨index, hentry, htip⟩ := hn.connectTip_cases hstep
        exact htip.nameChain hentry
      by_cases hdisconnect : ∃ batching, a = .disconnectTip batching
      · obtain ⟨batching, rfl⟩ := hdisconnect
        obtain ⟨b, p, rest, s, batch, hchain, -, rfl⟩ := disconnectTip_eq_some hstep
        refine .inr ⟨.disconnect, ?_⟩
        change (match n.chain with
          | b :: p :: chain => some _
          | _ => none) = _
        rw [hchain]
        rfl
      · have heq := Node.sparkEq_of_step hstep (fun block other heq => hconnect ⟨block, other, heq⟩)
          (fun batching heq => hdisconnect ⟨batching, heq⟩)
        left
        unfold Node.nameChain
        rw [heq.chain, heq.blockIndex, heq.sparkNameManager]
    rcases hstep' with heq | ⟨a', ha'⟩
    · rw [heq]
      exact ih
    · exact .step a' ih trivial ha'

theorem nameReach_of_reachable_mint : ∃ n : Node Toy.Coin UInt8 Toy.Coin, n.chain.length = 2 ∧
    NameReach Toy.names (Toy.params 1) (fun _ _ => True) n.nameChain := by
  obtain ⟨n, hreach, hlength, -⟩ := Toy.reachable_mint
  exact ⟨n, hlength, nameReach_of_reachable hreach⟩

end

end Firo.Spark
