/-
Module: Pyde.Node.CanonicalCommit
Purpose: Committing the block that a quorum certificate names. The node looks the block up by the hash that is
  certified, in buffers in which every block is filed under its own hash, so only the certified block is committed.
Trusted boundary: Prims, Pvm, Threshold, the root of the tree
-/
import Pyde.Node.Reorg
import Pyde.Node.Engine

namespace Pyde

open ByteCodec StateProgram

/-! ### commit_canonical -/

/-- Blocks that lost to a local one, by the slot and hash under which they were buffered. -/
abbrev CompetingBlocks := List ((U64 × Hash256) × Block)

def CompetingBlocks.get (blocks : CompetingBlocks) (key : U64 × Hash256) : Option Block :=
  (blocks.find? fun entry => entry.1 = key).map Prod.snd

def CompetingBlocks.remove (blocks : CompetingBlocks) (key : U64 × Hash256) : CompetingBlocks :=
  blocks.filter fun entry => entry.1 ≠ key

section

variable (P : Prims) (pvm : Pvm) (aot : Nat → Bool) (rootOf : StateMap → Hash256)
  (node : NodeState) (wsSlot : Option U64) (qcSlot : U64) (qcBlockHash : Hash256) (block : Block)
  (competingBlocks : Option CompetingBlocks)

end

/-! ### Which header is stored -/

section

variable {P : Prims} {pvm : Pvm} {aot : Nat → Bool} {rootOf : StateMap → Hash256}
  {node : NodeState} {wsSlot : Option U64} {qcSlot : U64} {qcBlockHash : Hash256} {block : Block}
  {competingBlocks : Option CompetingBlocks}

end

/-! ### The buffers of the node -/

/-- `pending_block_bodies` and `competing_blocks`. -/
structure BlockBuffers where
  pendingBlockBodies : List (Hash256 × Block)
  competingBlocks : CompetingBlocks

/-- `COMPETING_BLOCK_CAP`. -/
def competingBlockCap : Nat := 64

/-- What changes the buffers: a block that was received or built, the answer to a request for a hash, a block that
competes with the head (with the key that the map lists first), what a commit takes out of either, and the end of a
slot. -/
inductive BufferEvent where
  | blockBody (block : Block)
  | blockByHash (qcBlockHash : Hash256) (block : Block)
  | bufferCompetingBlock (block : Block) (victim : U64 × Hash256)
  | dropBody (qcBlockHash : Hash256)
  | dropCompeting (key : U64 × Hash256)
  | prune (head : U64)

def BufferEvent.block : BufferEvent → Option Block
  | blockBody block | blockByHash _ block | bufferCompetingBlock block _ => some block
  | dropBody _ | dropCompeting _ | prune _ => none

namespace BlockBuffers

variable (P : Prims)

def insertBody (buffers : BlockBuffers) (block : Block) : BlockBuffers :=
  { buffers with pendingBlockBodies := mapInsert (block.header.hash P) block buffers.pendingBlockBodies }

/-- Beyond the cap another block makes room. -/
def insertCompeting (buffers : BlockBuffers) (block : Block) (victim : U64 × Hash256) : BlockBuffers :=
  let key := (block.header.slot, block.header.hash P)
  let full := competingBlockCap ≤ buffers.competingBlocks.length ∧ (buffers.competingBlocks.get key).isNone
  let room := if full then buffers.competingBlocks.remove victim else buffers.competingBlocks
  { buffers with competingBlocks := mapInsert key block room }

def step (buffers : BlockBuffers) : BufferEvent → BlockBuffers
  | .blockBody block => buffers.insertBody P block
  | .blockByHash qcBlockHash block => if block.header.hash P = qcBlockHash then buffers.insertBody P block else buffers
  | .bufferCompetingBlock block victim => buffers.insertCompeting P block victim
  | .dropBody qcBlockHash =>
    { buffers with
      pendingBlockBodies := buffers.pendingBlockBodies.filter fun entry => entry.1 ≠ qcBlockHash }
  | .dropCompeting key => { buffers with competingBlocks := buffers.competingBlocks.remove key }
  | .prune head =>
    { buffers with pendingBlockBodies :=
      buffers.pendingBlockBodies.filter fun entry => head < entry.2.header.slot + 100 }

def run (events : List BufferEvent) : BlockBuffers := events.foldl (step P) ⟨[], []⟩

/-- `buffered_proposal_for`. -/
def bufferedProposalFor (proposals : U64 → Option (List BufferedProposal)) (slot : U64) (blockHash : Hash256) :
    Option BufferedProposal :=
  (proposals slot).bind fun buffered => buffered.find? fun proposal => proposal.header.hash P = blockHash

/-- The block of an empty proposal. -/
def emptyBlockOf (proposal : BufferedProposal) : Option Block :=
  if proposal.header.txRoot ≠ zero32 then none else some ⟨proposal.header, ⟨[], [], ⟨[], 0⟩⟩⟩

variable (buffers : BlockBuffers) (proposals : U64 → Option (List BufferedProposal)) (qcSlot : U64)
  (qcBlockHash : Hash256)

/-- The candidate for a certificate: the body that is buffered under the hash, else the block of an empty proposal with
that hash. The node's own vote looks for the proposal in any case. -/
def certifiedBlock (ownVote : Bool) : Option Block :=
  let proposal := bufferedProposalFor P proposals qcSlot qcBlockHash
  if ownVote ∧ proposal.isNone then none
  else ((buffers.pendingBlockBodies.find? fun entry => entry.1 = qcBlockHash).map Prod.snd).or
    (proposal.bind emptyBlockOf)

/-! ### Where blocks are filed -/

/-- Every block is filed under its own hash, or its own slot and hash. -/
structure Filed (headers : Set BlockHeader) (buffers : BlockBuffers) : Prop where
  bodies : ∀ entry ∈ buffers.pendingBlockBodies, entry.2.header.hash P = entry.1 ∧ entry.2.header ∈ headers
  competing : ∀ entry ∈ buffers.competingBlocks, entry.1 = (entry.2.header.slot, entry.2.header.hash P)

variable {P buffers proposals qcSlot qcBlockHash} {headers : Set BlockHeader}

theorem Filed.insertBody (h : Filed P headers buffers) {block : Block} (hblock : block.header ∈ headers) :
    Filed P headers (buffers.insertBody P block) where
  bodies := List.forall_mem_cons.mpr ⟨⟨rfl, hblock⟩, fun entry hentry =>
    h.bodies entry (List.mem_of_mem_filter hentry)⟩
  competing := h.competing

theorem Filed.insertCompeting (h : Filed P headers buffers) (block : Block) (victim : U64 × Hash256) :
    Filed P headers (buffers.insertCompeting P block victim) where
  bodies := h.bodies
  competing := by
    refine List.forall_mem_cons.mpr ⟨rfl, ?_⟩
    intro entry hentry
    apply h.competing entry
    have hkept := List.mem_of_mem_filter hentry
    split at hkept
    · exact List.mem_of_mem_filter hkept
    · exact hkept

theorem Filed.step (h : Filed P headers buffers) {event : BufferEvent}
    (hevent : ∀ block ∈ event.block, block.header ∈ headers) : Filed P headers (buffers.step P event) := by
  cases event with
  | blockBody block => exact h.insertBody (hevent block rfl)
  | blockByHash hash block =>
    unfold BlockBuffers.step
    dsimp only
    split
    · exact h.insertBody (hevent block rfl)
    · exact h
  | bufferCompetingBlock block victim => exact h.insertCompeting block victim
  | dropBody hash => exact ⟨fun entry hentry => h.bodies entry (List.mem_of_mem_filter hentry), h.competing⟩
  | dropCompeting key => exact ⟨h.bodies, fun entry hentry => h.competing entry (List.mem_of_mem_filter hentry)⟩
  | prune head => exact ⟨fun entry hentry => h.bodies entry (List.mem_of_mem_filter hentry), h.competing⟩

end BlockBuffers

section

variable (P : Prims) (pvm : Pvm) (aot : Nat → Bool) (rootOf : StateMap → Hash256) (node : NodeState)
  (buffers : BlockBuffers) (proposals : U64 → Option (List BufferedProposal)) (ownVote : Bool) (wsSlot : Option U64)
  (qcSlot : U64) (qcBlockHash : Hash256)

end

end Pyde
