import Firo.Llmq.MiningRules

/-! Along every run of `ProcessBlock` and `UndoBlock` the commitments of the active chain keep to
the mining windows of their sessions, and the records are those of its commitments. -/
namespace Firo.Llmq

open Firo.Lib Firo.Spark Firo.Bls Function VoteTimeKey
open List hiding le_antisymm lt_irrefl not_le

variable {G₁ G₂ : Type}

section

variable {chain newer older : List CBlock} {block : CBlock} {nHeight : Nat}

def blockAt (chain : List CBlock) (nHeight : Nat) : Option CBlock :=
  chain.reverse[nHeight]?

lemma blockAt_append_of_lt (h : nHeight < older.length) :
    blockAt (newer ++ older) nHeight = blockAt older nHeight := by
  unfold blockAt
  rw [reverse_append, getElem?_append_left (by simpa using h)]

lemma blockAt_length : blockAt (newer ++ block :: older) older.length = some block := by
  unfold blockAt
  rw [reverse_append, reverse_cons, append_assoc, getElem?_append_right (by simp)]
  simp

lemma blockAt_eq_some : blockAt chain nHeight = some block ↔
    ∃ newer older, chain = newer ++ block :: older ∧ older.length = nHeight := by
  constructor
  · intro h
    induction chain with
    | nil => cases h
    | cons b rest ih =>
      by_cases hlt : nHeight < rest.length
      · have happend := (blockAt_append_of_lt hlt : blockAt ([b] ++ rest) nHeight = _)
        obtain ⟨newer, older, rfl, hlength⟩ := ih (happend.symm.trans h)
        exact ⟨b :: newer, older, rfl, hlength⟩
      · have hle : nHeight ≤ rest.length := by
          have hbound := (List.getElem?_eq_some_iff.mp h).1
          simp only [length_reverse, length_cons] at hbound
          omega
        have heq : nHeight = rest.length := by omega
        have hb : blockAt ([] ++ b :: rest) rest.length = some b := blockAt_length
        rw [heq] at h
        obtain rfl := Option.some.inj (hb.symm.trans h)
        exact ⟨[], rest, rfl, heq.symm⟩
  · rintro ⟨newer, older, rfl, rfl⟩
    exact blockAt_length

lemma lt_length_of_blockAt (h : blockAt chain nHeight = some block) : nHeight < chain.length := by
  simpa using (List.getElem?_eq_some_iff.mp h).1

lemma blockAt_cons {b} : blockAt (block :: chain) nHeight = some b ↔
    blockAt chain nHeight = some b ∨ (nHeight = chain.length ∧ b = block) := by
  by_cases hlt : nHeight < chain.length
  · have happend : blockAt ([block] ++ chain) nHeight = blockAt chain nHeight :=
      blockAt_append_of_lt hlt
    rw [singleton_append] at happend
    rw [happend]
    simp [hlt.ne]
  · have hnone : blockAt chain nHeight ≠ some b := fun h => hlt (lt_length_of_blockAt h)
    have hlast : blockAt ([] ++ block :: chain) chain.length = some block := blockAt_length
    constructor
    · intro h
      have hle := lt_length_of_blockAt h
      have heq : nHeight = chain.length := by
        rw [length_cons] at hle
        omega
      subst heq
      exact .inr ⟨rfl, Option.some.inj (h.symm.trans hlast)⟩
    · rintro (h | ⟨rfl, rfl⟩)
      · exact absurd h hnone
      · exact hlast

lemma getBlockHash_eq : getBlockHash chain nHeight = (blockAt chain nHeight).map CBlock.hash :=
  rfl

lemma htobe32_injective : Injective htobe32 := by
  intro t t' h
  have hbytes : bytes ⟨t, 0, 0⟩ = bytes ⟨t', 0, 0⟩ := by
    simp only [bytes, h]
  have hbefore : before ⟨t, 0, 0⟩ ⟨t', 0, 0⟩ := by
    rw [before, hbytes]
    exact List.le_refl _
  have hafter : before ⟨t', 0, 0⟩ ⟨t, 0, 0⟩ := by
    rw [before, hbytes]
    exact List.le_refl _
  have hle : t.toNat ≤ t'.toNat := time_le_of_before hbefore
  have hge : t'.toNat ≤ t.toNat := time_le_of_before hafter
  exact UInt32.toNat_inj.mp (le_antisymm hle hge)

lemma buildInversedHeightKey_inj {t t'} {h h' : Nat} (hh : h < 2 ^ 31) (hh' : h' < 2 ^ 31) :
    buildInversedHeightKey t h = buildInversedHeightKey t' h' ↔ t = t' ∧ h = h' := by
  constructor
  · intro heq
    obtain ⟨ht, hkey⟩ := Prod.mk.inj heq
    have hsub := congrArg UInt32.toNat (htobe32_injective hkey)
    have hh₁ : (UInt32.ofNat h).toNat = h := UInt32.toNat_ofNat_of_lt' (by show _ < 2 ^ 32; omega)
    have hh₂ : (UInt32.ofNat h').toNat = h' := UInt32.toNat_ofNat_of_lt' (by show _ < 2 ^ 32; omega)
    rw [UInt32.toNat_sub, UInt32.toNat_sub, hh₁, hh₂] at hsub
    have hmax : (4294967295 : UInt32).toNat = 4294967295 := rfl
    rw [hmax] at hsub
    exact ⟨ht, by omega⟩
  · rintro ⟨rfl, rfl⟩
    rfl

end

section

variable (env : CommitmentEnv G₁ G₂) (cons : LlmqConsensus)

/-- Every block of the chain met the rules when it was connected. A hash that is null stands
for no block, and heights are of type `int`. -/
inductive ValidChain : List CBlock → Prop
  | nil : ValidChain []
  | cons {block : CBlock} {chain : List CBlock} (h : ValidChain chain) (hhash : block.hash ≠ 0)
      (hnew : block.hash ∉ chain.map CBlock.hash) (hheight : chain.length < 2 ^ 31)
      (hrules : cons.DIP0003Height ≤ chain.length →
        BlockRules env cons (minedBy env cons chain) chain block) : ValidChain (block :: chain)

/-- The block at the height, when commitments are active, carries the commitment, which is
not null. -/
structure MinedAt (chain : List CBlock) (nHeight : Nat) (block : CBlock)
    (qc : CFinalCommitment G₁ G₂) : Prop where
  active : cons.DIP0003Height ≤ nHeight
  blockAt_eq : blockAt chain nHeight = some block
  mem : qc ∈ blockCommitments env block.vtx
  notNull : qc.isNull = false

variable {env cons} {chain : List CBlock} {block b : CBlock} {nHeight : Nat}
  {qc : CFinalCommitment G₁ G₂} {db : MinedDb G₁ G₂}

lemma minedBy_cons : minedBy env cons (block :: chain) =
    if chain.length < cons.DIP0003Height then minedBy env cons chain
    else (minedBy env cons chain).connect cons chain.length block.hash
      (minedIn env cons block chain.length) :=
  rfl

lemma minedAt_cons : MinedAt env cons (block :: chain) nHeight b qc ↔
    MinedAt env cons chain nHeight b qc ∨
      (nHeight = chain.length ∧ b = block ∧ cons.DIP0003Height ≤ nHeight ∧
        qc ∈ blockCommitments env block.vtx ∧ qc.isNull = false) := by
  constructor
  · rintro ⟨hactive, hat, hmem, hnull⟩
    rcases blockAt_cons.mp hat with hat | ⟨rfl, rfl⟩
    · exact .inl ⟨hactive, hat, hmem, hnull⟩
    · exact .inr ⟨rfl, rfl, hactive, hmem, hnull⟩
  · rintro (⟨hactive, hat, hmem, hnull⟩ | ⟨rfl, rfl, hactive, hmem, hnull⟩)
    · exact ⟨hactive, blockAt_cons.mpr (.inl hat), hmem, hnull⟩
    · exact ⟨hactive, blockAt_cons.mpr (.inr ⟨rfl, rfl⟩), hmem, hnull⟩

namespace BlockRules

variable (h : BlockRules env cons db chain block)

include h

lemma mem_minedIn : qc ∈ minedIn env cons block chain.length ↔
    qc ∈ blockCommitments env block.vtx ∧ qc.isNull = false := by
  obtain ⟨qcs, hqcs⟩ := h.parses
  rw [minedIn, hqcs]
  simp only [minedOf, mem_filter, mem_map, Bool.not_eq_true', and_congr_left_iff]
  intro _
  constructor
  · rintro ⟨e, he, rfl⟩
    exact ((getCommitmentsFromBlock_mem hqcs).mp he).1
  · intro hmem
    exact ⟨(qc.llmqType, qc), (getCommitmentsFromBlock_mem hqcs).mpr ⟨hmem, rfl⟩, rfl⟩

lemma nodup_types : ((minedIn env cons block chain.length).map
    CFinalCommitment.llmqType).Nodup := by
  obtain ⟨qcs, hqcs⟩ := h.parses
  have htypes : qcs.toList.map (fun e => e.2.llmqType) = qcs.toList.map Prod.fst :=
    map_congr_left fun e he => ((getCommitmentsFromBlock_mem hqcs).mp he).2
  have hnodup := nodup_keys_toList qcs
  rw [← htypes] at hnodup
  rw [minedIn, hqcs]
  apply Nodup.sublist _ hnodup
  rw [show (fun e : UInt8 × CFinalCommitment G₁ G₂ => e.2.llmqType) =
    CFinalCommitment.llmqType ∘ Prod.snd from rfl, ← map_map]
  exact filter_sublist.map _

lemma fresh (hqc : qc ∈ minedIn env cons block chain.length) :
    db.commitments (qc.llmqType, qc.quorumHash) = none := by
  obtain ⟨hmem, hnull⟩ := h.mem_minedIn.mp hqc
  obtain ⟨params, hok⟩ := h.each qc hmem
  exact hok.fresh hnull

end BlockRules

variable {llmqType : UInt8}

lemma ValidChain.commitments_iff (h : ValidChain env cons chain) {quorumHash blockHash} :
    (minedBy env cons chain).commitments (llmqType, quorumHash) = some (qc, blockHash) ↔
      ∃ nHeight block, MinedAt env cons chain nHeight block qc ∧ block.hash = blockHash ∧
        qc.llmqType = llmqType ∧ qc.quorumHash = quorumHash := by
  induction h with
  | nil =>
    constructor
    · nofun
    · rintro ⟨nHeight, block, hmined, -⟩
      cases hmined.blockAt_eq
  | @cons block chain h _ _ _ hrules ih =>
    simp only [minedAt_cons, or_and_right, exists_or, ← ih]
    rw [minedBy_cons]
    split
    case isTrue hlt =>
      constructor
      · exact .inl
      · rintro (hold | ⟨_, _, ⟨rfl, -, hactive, -⟩, -⟩)
        · exact hold
        · omega
    case isFalse hge =>
      have hactive : cons.DIP0003Height ≤ chain.length := by omega
      have hblock := hrules hactive
      have hnodup : ((commitmentEntries block.hash
          (minedIn env cons block chain.length)).map Prod.fst).Nodup := by
        apply Nodup.of_map Prod.fst
        simpa [commitmentEntries, comp_def] using hblock.nodup_types
      rw [MinedDb.connect, writeAll_eq_some hnodup, or_comm]
      apply or_congr
      · -- a session with a record is not mined again
        apply and_iff_right_of_imp
        intro hold hmem
        simp only [commitmentEntries, map_map, mem_map, comp_apply] at hmem
        obtain ⟨qc', hqc', hkey⟩ := hmem
        rw [← hkey, hblock.fresh hqc'] at hold
        cases hold
      · simp only [commitmentEntries, mem_map, hblock.mem_minedIn, Prod.mk.injEq]
        constructor
        · rintro ⟨qc', ⟨hmem, hnull⟩, ⟨rfl, rfl⟩, rfl, rfl⟩
          exact ⟨_, _, ⟨rfl, rfl, hactive, hmem, hnull⟩, rfl, rfl, rfl⟩
        · rintro ⟨_, _, ⟨rfl, rfl, -, hmem, hnull⟩, rfl, rfl, rfl⟩
          exact ⟨qc, ⟨hmem, hnull⟩, ⟨rfl, rfl⟩, rfl, rfl⟩

lemma ValidChain.byInversedHeight_iff (h : ValidChain env cons chain) {k}
    {height : Nat} : (minedBy env cons chain).byInversedHeight k = some height ↔
      ∃ nHeight block qc, MinedAt env cons chain nHeight block qc ∧
        k = buildInversedHeightKey qc.llmqType nHeight ∧
        height = quorumHeight cons nHeight qc := by
  induction h with
  | nil =>
    constructor
    · nofun
    · rintro ⟨nHeight, block, qc, hmined, -⟩
      cases hmined.blockAt_eq
  | @cons block chain h _ _ hheight hrules ih =>
    simp only [minedAt_cons, or_and_right, exists_or, ← ih]
    rw [minedBy_cons]
    split
    case isTrue hlt =>
      constructor
      · exact .inl
      · rintro (hold | ⟨_, _, _, ⟨rfl, -, hactive, -⟩, -⟩)
        · exact hold
        · omega
    case isFalse hge =>
      have hactive : cons.DIP0003Height ≤ chain.length := by omega
      have hblock := hrules hactive
      have hnodup : ((heightEntries cons chain.length
          (minedIn env cons block chain.length)).map Prod.fst).Nodup := by
        apply Nodup.of_map Prod.fst
        simpa [heightEntries, comp_def, buildInversedHeightKey] using hblock.nodup_types
      rw [MinedDb.connect, writeAll_eq_some hnodup, or_comm]
      apply or_congr
      · -- the older records are of lower heights
        apply and_iff_right_of_imp
        intro hold hmem
        obtain ⟨nHeight, b, qc, hmined, rfl, -⟩ := ih.mp hold
        have hlt := lt_length_of_blockAt hmined.blockAt_eq
        simp only [heightEntries, map_map, mem_map, comp_apply] at hmem
        obtain ⟨qc', -, hkey⟩ := hmem
        have heq := ((buildInversedHeightKey_inj hheight (hlt.trans hheight)).mp hkey).2
        omega
      · simp only [heightEntries, mem_map, hblock.mem_minedIn, Prod.mk.injEq]
        constructor
        · rintro ⟨qc', ⟨hmem, hnull⟩, rfl, rfl⟩
          exact ⟨_, _, qc', ⟨rfl, rfl, hactive, hmem, hnull⟩, rfl, rfl⟩
        · rintro ⟨_, _, qc', ⟨rfl, -, -, hmem, hnull⟩, rfl, rfl⟩
          exact ⟨qc', ⟨hmem, hnull⟩, rfl, rfl⟩

namespace ValidChain

variable {newer older : List CBlock} {params : LLMQParams}

lemma of_append (h : ValidChain env cons (newer ++ older)) : ValidChain env cons older := by
  induction newer with
  | nil => exact h
  | cons block newer ih =>
    cases h with
    | cons h => exact ih h

section

variable (h : ValidChain env cons chain)
include h

lemma rulesAt (hat : blockAt chain nHeight = some block) (hactive : cons.DIP0003Height ≤ nHeight) :
    ∃ newer older, chain = newer ++ block :: older ∧ older.length = nHeight ∧
      ValidChain env cons older ∧
      BlockRules env cons (minedBy env cons older) older block := by
  obtain ⟨newer, older, rfl, rfl⟩ := blockAt_eq_some.mp hat
  cases h.of_append with
  | cons holder _ _ _ hrules => exact ⟨newer, older, rfl, rfl, holder, hrules hactive⟩

lemma hash_ne (hat : blockAt chain nHeight = some block) : block.hash ≠ 0 := by
  obtain ⟨newer, older, rfl, -⟩ := blockAt_eq_some.mp hat
  cases h.of_append with
  | cons _ hhash => exact hhash

lemma nodup_hashes : (chain.map CBlock.hash).Nodup := by
  induction h with
  | nil => exact nodup_nil
  | cons _ _ hnew _ _ ih => exact nodup_cons.mpr ⟨hnew, ih⟩

lemma height_unique {n₁ n₂ : Nat} {hash} (h₁ : getBlockHash chain n₁ = some hash)
    (h₂ : getBlockHash chain n₂ = some hash) : n₁ = n₂ := by
  unfold getBlockHash at h₁ h₂
  rw [← getElem?_map] at h₁ h₂
  have hnodup : (chain.reverse.map CBlock.hash).Nodup := by
    rw [map_reverse, nodup_reverse]
    exact h.nodup_hashes
  exact (getElem?_inj (List.getElem?_eq_some_iff.mp h₁).1 hnodup).mp (h₁.trans h₂.symm)

end

lemma start_lt (hphase : params.isMiningPhase nHeight = true) :
    params.quorumStartHeight nHeight < nHeight := by
  have hpos := params.windowStart_pos
  unfold LLMQParams.isMiningPhase at hphase
  unfold LLMQParams.quorumStartHeight
  simp only [Bool.and_eq_true, decide_eq_true_eq] at hphase
  have hle := Nat.mod_le nHeight params.dkgInterval
  omega

lemma getBlockHash_older {start : Nat} (hlt : start < older.length) :
    getBlockHash (newer ++ block :: older) start = getBlockHash older start := by
  have happend : blockAt ((newer ++ [block]) ++ older) start = blockAt older start :=
    blockAt_append_of_lt hlt
  rw [getBlockHash_eq, getBlockHash_eq, ← happend, append_assoc, singleton_append]

lemma getQuorumBlockHash_eq (h : ValidChain env cons older)
    (hphase : params.isMiningPhase older.length = true) :
    getBlockHash older (params.quorumStartHeight older.length) =
        some (getQuorumBlockHash older params older.length) ∧
      getQuorumBlockHash older params older.length ≠ 0 := by
  have hlt := start_lt hphase
  have hsome : (blockAt older (params.quorumStartHeight older.length)).isSome := by
    unfold blockAt
    rw [getElem?_eq_getElem (by simpa using hlt)]
    rfl
  obtain ⟨base, hbase⟩ := Option.isSome_iff_exists.mp hsome
  have hhash : getBlockHash older (params.quorumStartHeight older.length) = some base.hash := by
    rw [getBlockHash_eq, hbase]
    rfl
  rw [getQuorumBlockHash, hhash]
  exact ⟨rfl, h.hash_ne hbase⟩

lemma requires_iff (h : ValidChain env cons older) (db : MinedDb G₁ G₂) :
    params.requires db older older.length = true ↔
      params.isMiningPhase older.length = true ∧ db.commitments
        (params.type, getQuorumBlockHash older params older.length) = none := by
  unfold LLMQParams.requires
  simp only [Bool.and_eq_true, Option.isNone_iff_eq_none, bne_iff_ne]
  constructor
  · rintro ⟨⟨-, hphase⟩, hnone⟩
    exact ⟨hphase, hnone⟩
  · rintro ⟨hphase, hnone⟩
    exact ⟨⟨(h.getQuorumBlockHash_eq hphase).2, hphase⟩, hnone⟩

end ValidChain

def commitmentsAt (env : CommitmentEnv G₁ G₂) (chain : List CBlock) (nHeight : Nat)
    (llmqType : UInt8) : List (CFinalCommitment G₁ G₂) :=
  match blockAt chain nHeight with
  | some block => (blockCommitments env block.vtx).filter fun qc => qc.llmqType = llmqType
  | none => []

lemma mem_commitmentsAt : qc ∈ commitmentsAt env chain nHeight llmqType ↔
    ∃ block, blockAt chain nHeight = some block ∧ qc ∈ blockCommitments env block.vtx ∧
      qc.llmqType = llmqType := by
  unfold commitmentsAt
  cases blockAt chain nHeight with
  | none => simp
  | some block => simp

variable (env cons chain) in
/-- A commitment that is not null is mined for the type at the height. -/
def MinesAt (llmqType : UInt8) (nHeight : Nat) (qc : CFinalCommitment G₁ G₂) : Prop :=
  cons.DIP0003Height ≤ nHeight ∧ qc ∈ commitmentsAt env chain nHeight llmqType ∧ qc.isNull = false

lemma minesAt_iff : MinesAt env cons chain llmqType nHeight qc ↔
    ∃ block, MinedAt env cons chain nHeight block qc ∧ qc.llmqType = llmqType := by
  unfold MinesAt
  rw [mem_commitmentsAt]
  constructor
  · rintro ⟨hactive, ⟨block, hat, hmem, htype⟩, hnull⟩
    exact ⟨block, ⟨hactive, hat, hmem, hnull⟩, htype⟩
  · rintro ⟨block, ⟨hactive, hat, hmem, hnull⟩, htype⟩
    exact ⟨hactive, ⟨block, hat, hmem, htype⟩, hnull⟩

variable (env cons chain) in
/-- The rules for the commitments of a type, from the height on from which they are
active. -/
structure TypeRules (params : LLMQParams) : Prop where
  single : ∀ nHeight, cons.DIP0003Height ≤ nHeight →
    (commitmentsAt env chain nHeight params.type).length ≤ 1
  inWindow : ∀ nHeight, cons.DIP0003Height ≤ nHeight →
    ∀ qc ∈ commitmentsAt env chain nHeight params.type, params.isMiningPhase nHeight = true ∧
        getBlockHash chain (params.quorumStartHeight nHeight) = some qc.quorumHash
  once : ∀ n₁ n₂ qc₁ qc₂, MinesAt env cons chain params.type n₁ qc₁ →
    MinesAt env cons chain params.type n₂ qc₂ → qc₁.quorumHash = qc₂.quorumHash →
      n₁ = n₂ ∧ qc₁ = qc₂
  earlier : ∀ nHeight, cons.DIP0003Height ≤ nHeight → nHeight < chain.length →
    params.isMiningPhase nHeight = true →
    (∀ n' qc, MinesAt env cons chain params.type n' qc →
      params.quorumStartHeight n' = params.quorumStartHeight nHeight → nHeight < n') →
    ∃ qc, commitmentsAt env chain nHeight params.type = [qc] ∧ qc.isNull = true
  outside : ∀ nHeight, cons.DIP0003Height ≤ nHeight →
    params.isMiningPhase nHeight = false → commitmentsAt env chain nHeight params.type = []
  later : ∀ nHeight n' qc, MinesAt env cons chain params.type n' qc →
    params.quorumStartHeight n' = params.quorumStartHeight nHeight → n' < nHeight →
      commitmentsAt env chain nHeight params.type = []

namespace ValidChain

variable {params : LLMQParams}

lemma inWindow (h : ValidChain env cons chain) (hparams : params ∈ cons.llmqs)
    (hactive : cons.DIP0003Height ≤ nHeight)
    (hqc : qc ∈ commitmentsAt env chain nHeight params.type) : params.isMiningPhase nHeight = true ∧
      getBlockHash chain (params.quorumStartHeight nHeight) = some qc.quorumHash := by
  obtain ⟨block, hat, hmem, htype⟩ := mem_commitmentsAt.mp hqc
  obtain ⟨newer, older, rfl, rfl, holder, hrules⟩ := h.rulesAt hat hactive
  have hphase := ((holder.requires_iff _).mp
    ((hrules.carried params hparams).mp ⟨qc, hmem, htype⟩)).1
  obtain ⟨params', hok⟩ := hrules.each qc hmem
  have heq : params' = params := by
    have hfind := LlmqConsensus.find_eq_some.mpr ⟨hparams, htype.symm⟩
    exact Option.some.inj (hok.find_eq.symm.trans hfind)
  subst heq
  refine ⟨hphase, ?_⟩
  rw [getBlockHash_older (start_lt hphase), (holder.getQuorumBlockHash_eq hphase).1,
    hok.quorumHash_eq]

lemma recorded {newer older} (h : ValidChain env cons (newer ++ block :: older)) {n' : Nat}
    (hmines : MinesAt env cons (newer ++ block :: older) llmqType n' qc) (hlt : n' < older.length) :
    ((minedBy env cons older).commitments (llmqType, qc.quorumHash)).isSome := by
  have holder : ValidChain env cons older := (append_cons newer block older ▸ h).of_append
  obtain ⟨b, ⟨hactive, hat, hmem, hnull⟩, htype⟩ := minesAt_iff.mp hmines
  have hat' : blockAt older n' = some b := by
    rw [append_cons, blockAt_append_of_lt hlt] at hat
    exact hat
  rw [Option.isSome_iff_exists]
  exact ⟨(qc, b.hash), holder.commitments_iff.mpr
    ⟨n', b, ⟨hactive, hat', hmem, hnull⟩, rfl, htype, rfl⟩⟩

section

variable (h : ValidChain env cons chain)
include h

lemma carries_iff (hparams : params ∈ cons.llmqs) (hactive : cons.DIP0003Height ≤ nHeight)
    (hat : blockAt chain nHeight = some block) : commitmentsAt env chain nHeight params.type ≠ [] ↔
      params.isMiningPhase nHeight = true ∧ ∀ n' qc, MinesAt env cons chain params.type n' qc →
        params.quorumStartHeight n' = params.quorumStartHeight nHeight → nHeight ≤ n' := by
  obtain ⟨newer, older, rfl, rfl, holder, hrules⟩ := h.rulesAt hat hactive
  have hcarried : commitmentsAt env (newer ++ block :: older) older.length params.type ≠ [] ↔
      ∃ qc ∈ blockCommitments env block.vtx, qc.llmqType = params.type := by
    unfold commitmentsAt
    rw [hat]
    simp [filter_eq_nil_iff]
  rw [hcarried, hrules.carried params hparams, holder.requires_iff]
  apply and_congr_right
  intro hphase
  have hbase := (holder.getQuorumBlockHash_eq hphase).1
  have hsame : getBlockHash (newer ++ block :: older) (params.quorumStartHeight older.length) =
      getBlockHash older (params.quorumStartHeight older.length) :=
    getBlockHash_older (start_lt hphase)
  rw [← hsame] at hbase
  constructor
  · intro hnone n' qc hmines hsession
    by_contra hlt
    have hrecorded := h.recorded hmines (not_le.mp hlt)
    have hhash := (h.inWindow hparams hmines.1 hmines.2.1).2
    rw [hsession, hbase, Option.some.injEq] at hhash
    rw [← hhash, hnone] at hrecorded
    cases hrecorded
  · intro hlater
    rw [← Option.not_isSome_iff_eq_none, Option.isSome_iff_exists]
    rintro ⟨⟨qc, hash⟩, hrecord⟩
    obtain ⟨n', b, hmined, -, htype, hhash⟩ := holder.commitments_iff.mp hrecord
    have hlt := lt_length_of_blockAt hmined.blockAt_eq
    have hmines : MinesAt env cons (newer ++ block :: older) params.type n' qc := by
      refine minesAt_iff.mpr ⟨b, ⟨hmined.active, ?_, hmined.mem, hmined.notNull⟩, htype⟩
      rw [append_cons, blockAt_append_of_lt hlt]
      exact hmined.blockAt_eq
    have hsession := (h.inWindow hparams hmines.1 hmines.2.1).2
    rw [hhash] at hsession
    have hle := hlater n' qc hmines (h.height_unique hsession hbase)
    omega

lemma length_commitmentsAt (hactive : cons.DIP0003Height ≤ nHeight) (llmqType) :
    (commitmentsAt env chain nHeight llmqType).length ≤ 1 := by
  unfold commitmentsAt
  cases hat : blockAt chain nHeight with
  | none => exact Nat.zero_le 1
  | some block =>
    obtain ⟨-, older, -, -, -, hrules⟩ := h.rulesAt hat hactive
    exact hrules.single llmqType

lemma not_mined_twice (hparams : params ∈ cons.llmqs) {n₁ n₂ : Nat}
    {qc₁ qc₂} (h₁ : MinesAt env cons chain params.type n₁ qc₁)
    (h₂ : MinesAt env cons chain params.type n₂ qc₂) (hsession : qc₁.quorumHash = qc₂.quorumHash) :
    n₂ ≤ n₁ := by
  obtain ⟨block, hat, -⟩ := mem_commitmentsAt.mp h₂.2.1
  have hhash₁ := (h.inWindow hparams h₁.1 h₁.2.1).2
  have hhash₂ := (h.inWindow hparams h₂.1 h₂.2.1).2
  rw [hsession] at hhash₁
  exact ((h.carries_iff hparams h₂.1 hat).mp (ne_nil_of_mem h₂.2.1)).2 n₁ qc₁ h₁
    (h.height_unique hhash₁ hhash₂)

lemma typeRules (hparams : params ∈ cons.llmqs) : TypeRules env cons chain params where
  single nHeight hactive := h.length_commitmentsAt hactive params.type
  inWindow nHeight hactive qc hqc := h.inWindow hparams hactive hqc
  once n₁ n₂ qc₁ qc₂ h₁ h₂ hsession := by
    have heq : n₁ = n₂ := le_antisymm (h.not_mined_twice hparams h₂ h₁ hsession.symm)
      (h.not_mined_twice hparams h₁ h₂ hsession)
    subst heq
    refine ⟨rfl, ?_⟩
    have hlength := h.length_commitmentsAt h₁.1 params.type
    obtain ⟨qc, hqc⟩ := length_eq_one_iff.mp (le_antisymm hlength (length_pos_of_mem h₁.2.1))
    have h₁' := h₁.2.1
    have h₂' := h₂.2.1
    rw [hqc, mem_singleton] at h₁' h₂'
    rw [h₁', h₂']
  earlier nHeight hactive hlt hphase hfirst := by
    obtain ⟨block, hat⟩ : ∃ block, blockAt chain nHeight = some block := by
      unfold blockAt
      rw [getElem?_eq_getElem (by simpa using hlt)]
      exact ⟨_, rfl⟩
    have hne := (h.carries_iff hparams hactive hat).mpr
      ⟨hphase, fun n' qc hmines hsession => (hfirst n' qc hmines hsession).le⟩
    have hlength := h.length_commitmentsAt hactive params.type
    obtain ⟨qc, hqc⟩ := length_eq_one_iff.mp (le_antisymm hlength (length_pos_iff.mpr hne))
    refine ⟨qc, hqc, ?_⟩
    -- a commitment that is not null would be the first of the session
    rw [← Bool.not_eq_false]
    intro hnull
    exact lt_irrefl _ (hfirst nHeight qc
      ⟨hactive, by rw [hqc]; exact mem_singleton_self qc, hnull⟩ rfl)
  outside nHeight hactive hphase := by
    apply eq_nil_iff_forall_not_mem.mpr
    intro qc hqc
    have hin := (h.inWindow hparams hactive hqc).1
    rw [hphase] at hin
    cases hin
  later nHeight n' qc hmines hsession hlt := by
    by_contra hne
    have hactive : cons.DIP0003Height ≤ nHeight := hmines.1.trans hlt.le
    obtain ⟨qc', hqc'⟩ := exists_mem_of_ne_nil _ hne
    obtain ⟨block, hat, -⟩ := mem_commitmentsAt.mp hqc'
    have hle := ((h.carries_iff hparams hactive hat).mp hne).2 n' qc hmines hsession
    omega

end

end ValidChain

end

end Firo.Llmq
