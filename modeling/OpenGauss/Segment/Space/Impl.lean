import OpenGauss.Segment.CfsAddressing

/-!
This module contains the implementation of moving a data extent when a space is shrunk, from
`space.cpp`.
-/

structure Page where
  pdLsn : Nat
  pdChecksum : Nat
  -- from `pd_flags` on
  content : List UInt8
  deriving DecidableEq

-- `PageIsNew`: `pd_upper` is zero.
def Page.isNew (page : Page) : Bool := page.content.getD 4 0 == 0 && page.content.getD 5 0 == 0

structure BufferDesc where
  page : Page
  dirty : Bool
  segFileno : ExtentSize
  segBlockno : Nat
  deriving DecidableEq

structure RelationFork where
  seg : Segment
  disk : ExtentSize → Nat → Page
  buffers : Nat → Option BufferDesc

-- What `XLogInsert` returns for the page at an offset and what `PageSetChecksumInplace` computes.
structure PageStamp where
  recptr : Nat → Nat
  checksum : Page → Nat → Nat

namespace ExtentSize

-- `EXTENT_SIZE_TO_TYPE`
def toType : ExtentSize → Nat
  | extSize1 => 1
  | extSize8 => 2
  | extSize128 => 3
  | extSize1024 => 4
  | extSize8192 => 5

end ExtentSize

def isSegCompressedRnode (opt relNode : Nat) (forknum : ForkNumber) : Bool :=
  opt ≠ 0 && forknum == .main && relNode ≥ 3

namespace PageStamp

-- `PageSetLSN` and `PageSetChecksumInplace`
def stamp (env : PageStamp) (page : Page) (i toBlock : Nat) : Page :=
  let page := { page with pdLsn := env.recptr i }
  { page with pdChecksum := env.checksum page toBlock }

end PageStamp

namespace RelationFork

-- `CfsWritePage` writes no new page.
def skipsWrite (opt : Nat) (forknum : ForkNumber) (size : ExtentSize) (block : Nat) (page : Page) : Bool :=
  isSegCompressedRnode opt size.toType forknum && segIsDataBlock block size && page.isNew

end RelationFork
