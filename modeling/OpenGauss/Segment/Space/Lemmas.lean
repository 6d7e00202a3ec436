import OpenGauss.Segment.Space.Impl

/-!
This module contains the verification of moving a data extent.
-/

open Segment List Function

namespace RelationFork

variable {fork fork' : RelationFork} {size : ExtentSize} {logicBlock i opt : Nat} {forknum : ForkNumber}

section Copy

variable (fork : RelationFork) (env : PageStamp)

def pageAt (b : Nat) (size : ExtentSize) (block : Nat) : Page :=
  match fork.buffers b with
  | some buf => buf.page
  | none => fork.disk size block

theorem pageAt_congr {b : Nat} {block : Nat} (hbuffers : fork'.buffers b = fork.buffers b)
    (hdisk : fork'.disk size block = fork.disk size block)
    : fork'.pageAt b size block = fork.pageAt b size block := by
  simp only [pageAt, hbuffers, hdisk]

def copiedBuffer (toBlock i : Nat) (buf : BufferDesc) : BufferDesc :=
  { buf with page := env.stamp buf.page i toBlock, dirty := false, segBlockno := toBlock }

-- What the target block holds after the copying: a page that is not written is lost.
def copiedContent (opt : Nat) (forknum : ForkNumber) (b : Nat) (size : ExtentSize)
    (fromBlock toBlock : Nat) : List UInt8 :=
  if skipsWrite opt forknum size toBlock (fork.pageAt b size fromBlock) then
    (fork.disk size toBlock).content
  else
    (fork.pageAt b size fromBlock).content

theorem copiedContent_congr {b fromBlock toBlock : Nat} (hbuffers : fork'.buffers b = fork.buffers b)
    (hfrom : fork'.disk size fromBlock = fork.disk size fromBlock)
    (hto : fork'.disk size toBlock = fork.disk size toBlock)
    : fork'.copiedContent opt forknum b size fromBlock toBlock
        =
      fork.copiedContent opt forknum b size fromBlock toBlock := by
  simp only [copiedContent, pageAt_congr fork hbuffers hfrom, hto]

end Copy

section CopyExtent

variable {compress : Bool} {size : ExtentSize} {logicStart nblocks source target opt : Nat}
  {forknum : ForkNumber} {env : PageStamp}

-- The offsets of an extent whose blocks are copied.
structure Copied (compress : Bool) (size : ExtentSize) (logicStart nblocks j : Nat) : Prop where
  lt_size : j < size.toNat
  lt_nblocks : logicStart + j < nblocks
  not_pca : ¬(compress && (j + 1) % cfsExtentSize == 0) = true

structure CopiedFrom (env : PageStamp) (opt : Nat) (forknum : ForkNumber) (compress : Bool)
    (size : ExtentSize) (logicStart nblocks source target i : Nat) (fork fork' : RelationFork) : Prop where
  seg_eq : fork'.seg = fork.seg
  content_eq : ∀ j, i ≤ j → Copied compress size logicStart nblocks j →
    (fork'.disk size (target + j)).content
      = fork.copiedContent opt forknum (logicStart + j) size (source + j) (target + j)
  copied_eq : ∀ j, i ≤ j → Copied compress size logicStart nblocks j →
    fork'.buffers (logicStart + j)
      = (fork.buffers (logicStart + j)).map (copiedBuffer env (target + j) j)
  buffers_eq : ∀ b, (∀ j, i ≤ j → Copied compress size logicStart nblocks j → b ≠ logicStart + j) →
    fork'.buffers b = fork.buffers b
  disk_eq : ∀ size' block,
    (size' = size → ∀ j, i ≤ j → Copied compress size logicStart nblocks j →
      block ≠ target + j ∧ block ≠ source + j) →
      fork'.disk size' block = fork.disk size' block

theorem CopiedFrom.cons {fork₁ : RelationFork}
    (hdisjoint : Segment.Disjoint size.toNat source target)
    (hseg : fork₁.seg = fork.seg)
    (hcontent : (fork₁.disk size (target + i)).content
      = fork.copiedContent opt forknum (logicStart + i) size (source + i) (target + i))
    (hbuffer : fork₁.buffers (logicStart + i)
      = (fork.buffers (logicStart + i)).map (copiedBuffer env (target + i) i))
    (hbuffers : ∀ b, b ≠ logicStart + i → fork₁.buffers b = fork.buffers b)
    (hdisk : ∀ size' block, (size' = size → block ≠ target + i ∧ block ≠ source + i) →
      fork₁.disk size' block = fork.disk size' block)
    (h : CopiedFrom env opt forknum compress size logicStart nblocks source target (i + 1) fork₁ fork')
    (hcopied : Copied compress size logicStart nblocks i)
    : CopiedFrom env opt forknum compress size logicStart nblocks source target i fork fork' := by
  unfold Segment.Disjoint at hdisjoint
  constructor
  case seg_eq => rw [h.seg_eq, hseg]
  case content_eq =>
    intro j hij hj
    have hlt := hj.lt_size
    by_cases heq : j = i
    . subst heq
      rw [← hcontent, h.disk_eq]
      intro _ j' hj' hcopied'
      have := hcopied'.lt_size
      omega
    . rw [h.content_eq j (by omega) hj]
      apply copiedContent_congr
      . exact hbuffers _ (by omega)
      . exact hdisk _ _ (fun _ => by omega)
      . exact hdisk _ _ (fun _ => by omega)
  case copied_eq =>
    intro j hij hj
    by_cases heq : j = i
    . subst heq
      rw [h.buffers_eq _ (fun j' hj' _ => by omega), hbuffer]
    . rw [h.copied_eq j (by omega) hj, hbuffers _ (by omega)]
  case buffers_eq =>
    intro b hb
    rw [h.buffers_eq b (fun j hij => hb j (by omega)), hbuffers b (hb i (Nat.le_refl i) hcopied)]
  case disk_eq =>
    intro size' block hblock
    rw [h.disk_eq size' block (fun hsize j hij => hblock hsize j (by omega)),
      hdisk size' block (fun hsize => hblock hsize i (Nat.le_refl i) hcopied)]

end CopyExtent

section BlockMapTree

variable {fork : RelationFork} {extents : List Nat} {extentId newExtent : Nat}

end BlockMapTree

section LogicStart

variable {opt extentId nblocks j : Nat} {forknum : ForkNumber} {compressed : Bool}

-- What the end test and the buffers of `copy_extent` rely on: the logical blocks that are copied
-- follow each other without a gap.
def Contiguous (compressed : Bool) (extentId nblocks : Nat) : Prop :=
  compressed → 143 ≤ extentId → nblocks ≤ extentIdToLogicBlocknumInCfs extentId + 127

end LogicStart

section Move

-- The buffers of the relation are written where the mapping says, and a clean one can be dropped.
def Consistent (opt : Nat) (forknum : ForkNumber) (fork : RelationFork) : Prop :=
  ∀ b buf, fork.buffers b = some buf → b < fork.seg.head.nblocks
    ∧ buf.segFileno = (segLogicToPhysicMapping opt fork.seg forknum b).extentSize
    ∧ buf.segBlockno = (segLogicToPhysicMapping opt fork.seg forknum b).blocknum
    ∧ (buf.dirty = false → (fork.disk buf.segFileno buf.segBlockno).content = buf.page.content)

-- The extent that the allocator returns, while the one to be moved is still in use.
structure FreshTarget (extents : List Nat) (extentId newExtent : Nat) : Prop where
  fits : newExtent + (extentSizeByCount extentId).toNat ≤ 2 ^ 32
  disjoint : ∀ id (_ : id < extents.length), extentSizeByCount id = extentSizeByCount extentId →
    Segment.Disjoint (extentSizeByCount extentId).toNat extents[id] newExtent

theorem FreshTarget.ne {extents : List Nat} {extentId newExtent : Nat}
    (h : FreshTarget extents extentId newExtent) (id : Nat) (hid : id < extents.length)
    (hsize : extentSizeByCount id = extentSizeByCount extentId) : extents[id] ≠ newExtent := by
  have hpos := Layout.size_pos (extentSizeByCount extentId)
  have hdisjoint := h.disjoint id hid hsize
  unfold Segment.Disjoint at hdisjoint
  omega

variable {opt extentId newExtent headBlocknum : Nat} {forknum : ForkNumber} {rnode : RelFileNode}
  {spc : SegSpace} {env : PageStamp} {fork fork' : RelationFork} {extents : List Nat}

section Copied

variable (inv : fork.seg.Inv extents) (hid : extentId < extents.length)
  (hnew : FreshTarget extents extentId newExtent)
  (hcontiguous : Contiguous (isCompressedMainfork opt forknum) extentId fork.seg.head.nblocks)
  (h : CopiedFrom env opt forknum (isCompressedMainfork opt forknum) (extentSizeByCount extentId)
    (logicBlockAt (isCompressedMainfork opt forknum) extentId 0) fork.seg.head.nblocks
    extents[extentId] newExtent 0 fork fork')
section Block

include hcontiguous h

include inv hid

end Block

include inv hid hnew h

include hcontiguous

end Copied

end Move

section Stale

variable {env : PageStamp} {size : ExtentSize} {logicStart nblocks source target opt : Nat}
  {forknum : ForkNumber}

end Stale

section Main

variable {opt extentId newExtent headBlocknum : Nat} {forknum : ForkNumber} {rnode : RelFileNode}
  {spc : SegSpace} {env : PageStamp} {seg : Segment} {fork fork' : RelationFork}
  {extents : List Nat}

end Main

end RelationFork
