import OpenGauss.Cfs.Impl

/-!
This module contains the verification of the layout of PCA pages.
-/

namespace Cfs

open LittleEndian

namespace ChunkSize

variable (chunkSize : ChunkSize)

theorem perBlock_cases
    : blcksz / chunkSize.bytes = 2 ∨ blcksz / chunkSize.bytes = 4 ∨ blcksz / chunkSize.bytes = 8 := by
  cases chunkSize
  . apply Or.inl rfl
  . apply Or.inr (Or.inl rfl)
  . apply Or.inr (Or.inr rfl)

theorem perBlock_le : blcksz / chunkSize.bytes ≤ 8 := by
  have := chunkSize.perBlock_cases
  omega

theorem bytes_lt : chunkSize.bytes < 2 ^ 16 := by
  cases chunkSize <;> decide

theorem maxLogicChunksNumber_eq
    : cfsMaxLogicChunksNumber chunkSize.bytes = 127 * (blcksz / chunkSize.bytes) := by
  rfl

theorem perBlock_mul_bytes : blcksz / chunkSize.bytes * chunkSize.bytes = blcksz := by
  cases chunkSize <;> rfl

def addressSize (chunkSize : ChunkSize) : Nat := 6 + 2 * (blcksz / chunkSize.bytes)

theorem sizeOfExtentAddress_eq : sizeOfExtentAddress chunkSize.bytes = chunkSize.addressSize := by
  cases chunkSize <;> rfl

theorem addressSize_le : chunkSize.addressSize ≤ 22 := by
  have := chunkSize.perBlock_le
  simp only [addressSize]
  omega

def address (chunkSize : ChunkSize) (blocknum : Nat) : Nat :=
  144 + blocknum * chunkSize.addressSize

theorem getExtentAddress_eq {chunkSize : ChunkSize} {pca : Memory}
    (h : CfsExtentHeader.chunkSize pca = chunkSize.bytes) (blocknum : Nat)
    : getExtentAddress pca blocknum = chunkSize.address blocknum := by
  rw [getExtentAddress, h, sizeOfExtentAddress_eq]
  rfl

@[simp]
theorem address_zero : chunkSize.address 0 = 144 := by
  simp [address]

theorem address_succ (blocknum : Nat)
    : chunkSize.address (blocknum + 1) = chunkSize.address blocknum + chunkSize.addressSize := by
  simp only [address, Nat.add_mul, Nat.one_mul]
  omega

theorem address_mono {b b' : Nat} (h : b ≤ b') : chunkSize.address b ≤ chunkSize.address b' := by
  simp only [address]
  have := Nat.mul_le_mul_right chunkSize.addressSize h
  omega

theorem address_add_le {b b' : Nat} (h : b < b')
    : chunkSize.address b + chunkSize.addressSize ≤ chunkSize.address b' := by
  rw [← address_succ]
  exact chunkSize.address_mono h

theorem le_address (blocknum : Nat) : 144 ≤ chunkSize.address blocknum := by
  simp [address]

theorem address_le {blocknum : Nat} (h : blocknum ≤ cfsLogicBlocksPerExtent)
    : chunkSize.address blocknum ≤ 2938 := by
  have := chunkSize.address_mono h
  have : chunkSize.address cfsLogicBlocksPerExtent = 144 + 127 * chunkSize.addressSize := rfl
  have := chunkSize.addressSize_le
  omega

end ChunkSize

theorem decode_load_congr {mem mem' : Memory} {pos n : Nat} (h : ∀ j, pos ≤ j → j < pos + n → mem j = mem' j)
    : decode (mem.load pos n) = decode (mem'.load pos n) := by
  congr 1
  apply Memory.load_congr
  intro i hi
  apply h <;> omega

theorem decode_load_store {mem : Memory} {pos w n : Nat} (h : n < 256 ^ w)
    : decode ((mem.store pos (encode w n)).load pos w) = n := by
  have := Memory.load_store_self mem pos (encode w n)
  rw [length_encode] at this
  rw [this, decode_encode_of_lt h]

theorem decode_load_zero {mem : Memory} {pos n : Nat} (h : ∀ j, pos ≤ j → j < pos + n → mem j = 0)
    : decode (mem.load pos n) = 0 := by
  rw [Memory.load_eq_replicate (b := 0)]
  . clear h
    induction n with
    | zero => rfl
    | succ n ih => simp [List.replicate_succ, decode, ih]
  . intro i hi
    apply h <;> omega

theorem store_encode_outside {mem : Memory} {pos w n j : Nat} (h : j < pos ∨ pos + w ≤ j)
    : mem.store pos (encode w n) j = mem j := by
  apply Memory.store_outside
  rw [length_encode]
  exact h

namespace CfsExtentHeader

theorem chunkSize_congr {pca pca' : Memory} (h : ∀ j < 144, pca j = pca' j)
    : chunkSize pca = chunkSize pca' := by
  apply decode_load_congr
  intro j _ hj
  apply h
  omega

theorem nblocks_congr {pca pca' : Memory} (h : ∀ j < 144, pca j = pca' j)
    : nblocks pca = nblocks pca' := by
  apply decode_load_congr
  intro j _ hj
  apply h
  omega

end CfsExtentHeader

namespace addrChecksum32

theorem go_congr (mem mem' : Memory) (addr len : Nat) (h : ∀ j, addr ≤ j → j < addr + len → mem j = mem' j)
    : go mem addr len = go mem' addr len := by
  fun_induction go mem addr len with
  | case1 addr len ih =>
    rw [go, ih, decode_load_congr]
    . intro j _ _
      apply h <;> omega
    . intro j _ _
      apply h <;> omega
  | case2 addr len hlen =>
    rw [go, decode_load_congr h]
    exact hlen

theorem go_zero (mem : Memory) (addr len : Nat) (h : ∀ j, addr ≤ j → j < addr + len → mem j = 0)
    : go mem addr len = 0 := by
  fun_induction go mem addr len with
  | case1 addr len ih =>
    rw [ih, decode_load_zero]
    . intro j _ _
      apply h <;> omega
    . intro j _ _
      apply h <;> omega
  | case2 addr len hlen =>
    exact decode_load_zero h

end addrChecksum32

def SameAddress (chunkSize : ChunkSize) (mem mem' : Memory) (addr : Nat) : Prop :=
  ∀ j, addr ≤ j → j < addr + chunkSize.addressSize → mem j = mem' j

namespace SameAddress

open CfsExtentAddress

variable {chunkSize : ChunkSize} {mem mem' : Memory} {addr : Nat}

variable (h : SameAddress chunkSize mem mem' addr)
include h

theorem symm : SameAddress chunkSize mem' mem addr := by
  intro j hlo hhi
  exact (h j hlo hhi).symm

theorem checksum_eq : checksum mem addr = checksum mem' addr := by
  apply decode_load_congr
  intro j hlo hhi
  apply h j hlo
  simp only [ChunkSize.addressSize]
  omega

theorem nchunks_eq : nchunks mem addr = nchunks mem' addr := by
  rw [nchunks, nchunks, h]
  . omega
  . simp only [ChunkSize.addressSize]
    omega

theorem allocatedChunks_eq : allocatedChunks mem addr = allocatedChunks mem' addr := by
  rw [allocatedChunks, allocatedChunks, h]
  . omega
  . simp only [ChunkSize.addressSize]
    omega

theorem chunknos_eq {i : Nat} (hi : i < blcksz / chunkSize.bytes)
    : chunknos mem addr i = chunknos mem' addr i := by
  apply decode_load_congr
  intro j hlo hhi
  apply h
  . omega
  . simp only [ChunkSize.addressSize]
    omega

theorem addrChecksum32_eq {needChunks : Nat} (hneed : needChunks ≤ blcksz / chunkSize.bytes)
    : addrChecksum32 mem addr needChunks = addrChecksum32 mem' addr needChunks := by
  have hle := chunkSize.perBlock_le
  rw [addrChecksum32, addrChecksum32, addrChecksum32.go_congr]
  intro j hlo hhi
  apply h
  . omega
  . simp only [sizeOfExtentAddressByChunks] at hhi
    simp only [ChunkSize.addressSize]
    omega

theorem listed_eq (hle : allocatedChunks mem addr ≤ blcksz / chunkSize.bytes)
    : listed mem addr = listed mem' addr := by
  rw [listed, listed, ← h.allocatedChunks_eq]
  apply List.map_congr_left
  intro i hi
  rw [List.mem_range] at hi
  apply h.chunknos_eq
  omega

end SameAddress

end Cfs
