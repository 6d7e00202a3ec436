import OpenGauss.Hll.Memory.Sparse

/-!
This module contains that the changes to sparse mode stay within the memory.
-/

open List LittleEndian Buffer

namespace Hll.Memory

section Start

variable {o : HllObjectData}

def sparseOf (o : HllObjectData) (bytes : Bytes) : HllObjectData :=
  { o with hllData := bytes, lenTotal := bytes.length, lenUsed := bytes.length, hlltype := .sparse }

theorem used_sparseOf (o : HllObjectData) (bytes : Bytes) : (sparseOf o bytes).used = bytes :=
    take_length

theorem hllEmptyToSparse_memory (hp : o.hllpara.InRange) (htype : o.hlltype = .empty) (hdata : o.hllData = [])
    : hllEmptyToSparse o = .ok (sparseOf o (Hll.hllEmptyToSparse o.hllpara))
        ∧ SparseOk (sparseOf o (Hll.hllEmptyToSparse o.hllpara)) := by
  obtain ⟨hdecode, hused⟩ := hllEmptyToSparse_spec hp
  constructor
  . have hlist : Hll.hllEmptyToSparse o.hllpara
        = if nbyte o.hllpara > 1 then List.replicate (nbyte o.hllpara) hllLongzeroFull
          else [setLongzeroValue (2 ^ o.hllpara.log2Registers)] := rfl
    unfold hllEmptyToSparse
    rw [assertTrue_of htype, ok_bind, assertTrue_of hdata, ok_bind, hlist]
    dsimp only
    split
    . rw [write_all (by simp)]
      simp [sparseOf, pure, Except.pure]
    . rw [write_all (by simp)]
      rfl
  . constructor
    . rfl
    . exact Nat.le_refl _
    . rfl
    . rw [used_sparseOf]
      exact hused
    . rw [used_sparseOf, hdecode, length_replicate]
      rfl

end Start

section Zeros

variable {newdata bytes : Bytes} {pos size zerocount : Nat}

theorem putIf_sim (c : Prop) [Decidable c] (index : Nat) (bs : Bytes)
    (h : Written newdata (pos + index) size bytes)
    (hfits : pos + index + (if c then bs else []).length ≤ size)
    : ∃ newdata', putIf c newdata pos index bs = .ok (newdata', index + (if c then bs else []).length)
        ∧ Written newdata' (pos + (index + (if c then bs else []).length)) size
            (bytes ++ (if c then bs else [])) := by
  have hindex := h.index
  have hsize := h.size
  unfold putIf
  split
  . rename_i hc
    rw [if_pos hc] at hfits
    obtain ⟨newdata', hwrite, hlength, hstart⟩ := write_prefix bs h.start (by omega)
    rw [hindex] at hwrite
    apply Exists.intro newdata'
    constructor
    . rw [hwrite]
      rfl
    . constructor
      . exact hstart
      . rw [length_append]
        omega
      . rw [hlength, hsize]
  . apply Exists.intro newdata
    constructor
    . rfl
    . rw [append_nil]
      exact h

theorem replicate_if_pos (n : Nat) (b : UInt8)
    : (if n > 0 then List.replicate n b else []) = List.replicate n b := by
  cases n with
  | zero => rfl
  | succ n => rw [if_pos (Nat.succ_pos n)]

theorem hllSetSparseZero_sim (h : Written newdata pos size bytes)
    (hfits : pos + (Hll.hllSetSparseZero zerocount).length ≤ size)
    : ∃ newdata', hllSetSparseZero newdata pos zerocount = .ok
      (newdata', (Hll.hllSetSparseZero zerocount).length)
        ∧ Written newdata' (pos + (Hll.hllSetSparseZero zerocount).length) size
            (bytes ++ Hll.hllSetSparseZero zerocount) := by
  unfold Hll.hllSetSparseZero at hfits ⊢
  unfold hllSetSparseZero
  split
  . rename_i hlong
    rw [if_pos hlong] at hfits
    dsimp only at hfits ⊢
    simp only [length_append] at hfits
    obtain ⟨newdata₁, hput₁, hwritten₁⟩ := putIf_sim (zerocount >>> 12 > 0) 0
      (List.replicate (zerocount >>> 12) hllLongzeroFull) h (by
        rw [replicate_if_pos]
        omega)
    rw [replicate_if_pos] at hput₁ hwritten₁
    obtain ⟨newdata₂, hput₂, hwritten₂⟩ := putIf_sim (zerocount &&& 0xfff ≥ hllLongzeroUnit) _
      [setLongzeroValue (zerocount &&& 0xfff)] hwritten₁ (by omega)
    obtain ⟨newdata₃, hput₃, hwritten₃⟩ := putIf_sim
      ((if zerocount &&& 0xfff ≥ hllLongzeroUnit then zerocount &&& 0xfff &&&
        0x3f else zerocount &&& 0xfff) > 0) _
      [setZeroValue
        (if zerocount &&& 0xfff ≥ hllLongzeroUnit then zerocount &&& 0xfff &&& 0x3f else zerocount &&& 0xfff)]
      hwritten₂ (by omega)
    apply Exists.intro newdata₃
    constructor
    . rw [hput₁, ok_bind]
      dsimp only
      rw [hput₂, ok_bind]
      dsimp only
      rw [hput₃]
      simp only [length_append, Nat.zero_add]
    . simp only [length_append, Nat.zero_add, ← append_assoc] at hwritten₃ ⊢
      exact hwritten₃
  . rename_i hshort
    rw [if_neg hshort] at hfits
    have hput := putIf_sim (zerocount > 0) 0 [setZeroValue zerocount] h (by omega)
    rw [Nat.zero_add] at hput
    exact hput

theorem length_hllSetSparseZero_le (zerocount : Nat)
    : (Hll.hllSetSparseZero zerocount).length ≤ zerocount / 4096 + 2 := by
  unfold Hll.hllSetSparseZero
  rw [Nat.shiftRight_eq_div_pow]
  split
  . simp only [length_append, length_replicate]
    split <;> split <;> simp
  . split <;> simp

end Zeros

section Explicit

def encodeHashes (hashes : List UInt64) : Bytes := LittleEndian.pack hllExplicitUint (hashes.map UInt64.toNat)

theorem length_encodeHashes (hashes : List UInt64)
    : (encodeHashes hashes).length = hllExplicitUint * hashes.length := by
  unfold encodeHashes
  rw [length_pack, length_map]

theorem encodeHashes_append (xs ys : List UInt64)
    : encodeHashes (xs ++ ys) = encodeHashes xs ++ encodeHashes ys := by
  unfold encodeHashes
  rw [map_append, pack_append]

theorem encodeHashes_cons (hashval : UInt64) (hashes : List UInt64)
    : encodeHashes (hashval :: hashes) = encode hllExplicitUint hashval.toNat ++ encodeHashes hashes := rfl

theorem encodeHashes_split (hashes : List UInt64) {i : Nat} (hi : i < hashes.length)
    : encodeHashes hashes
        =
      encodeHashes (hashes.take i) ++ encode hllExplicitUint hashes[i].toNat
        ++ encodeHashes (hashes.drop (i + 1)) := by
  conv_lhs => rw [← take_append_drop i hashes, drop_eq_getElem_cons hi]
  rw [encodeHashes_append, encodeHashes_cons, append_assoc]

variable {o : HllObjectData} {hashes : List UInt64}

theorem hllGetExplictitValue_eq (h : Holds o (encodeHashes hashes)) {i : Nat} (hi : i < hashes.length)
    : hllGetExplictitValue o (hllExplicitUint * i) = .ok hashes[i] := by
  obtain ⟨rest, hrest⟩ := h.start
  have hpre : hllExplicitUint * (hllExplicitUint * i / hllExplicitUint) =
    (encodeHashes (hashes.take i)).length := by
    rw [length_encodeHashes, length_take, Nat.min_eq_left (Nat.le_of_lt hi),
      Nat.mul_div_cancel_left _ (by decide)]
  have hread := read_middle (encodeHashes (hashes.take i))
    (encode hllExplicitUint hashes[i].toNat) (encodeHashes (hashes.drop (i + 1)) ++ rest)
  rw [length_encode] at hread
  unfold hllGetExplictitValue
  rw [hpre, ← hrest, encodeHashes_split hashes hi, append_assoc, hread, inBuffer_some, ok_bind,
    decode_encode_of_lt hashes[i].toNat_lt]
  simp [pure, Except.pure]

theorem Written.set {newdata bytes : Bytes} {index size pos : Nat} (h : Written newdata index size bytes)
    (hpos : pos < index) (value : UInt8)
    : ∃ newdata', write newdata pos [value] = some newdata'
        ∧ Written newdata' index size (bytes.set pos value) := by
  obtain ⟨rest, hrest⟩ := h.start
  have hindex := h.index
  have hsize := h.size
  apply Exists.intro (bytes.set pos value ++ rest)
  constructor
  . rw [← hrest, write_singleton _ (by rw [length_append]; omega), set_append_left _ _ (by omega)]
  . constructor
    . apply prefix_append
    . rw [length_set, hindex]
    . rw [← hrest] at hsize
      simpa using hsize

-- The loop of `HllExplicitToSparse` behind `next` registers: what is left of the buffer holds another turn.
structure LoopOk (p : HllPara) (done : Finset UInt64) (next : Nat) (s : ToSparse) : Prop where
  written : ∃ bytes, Written s.newdata s.sparseindex s.sparsesize bytes ∧ SparsePrefix p done next bytes
  lastindex : s.lastindex = (next : Int) - 1
  room : s.sparseindex + (nbyte p + 2) ≤ s.sparsesize
  small : s.sparsesize ≤ s.sparseindex + (nbyte p + 2) + hllExpandSize

theorem nbyte_le {p : HllPara} (hp : p.InRange) : nbyte p ≤ 16 := by
  have hle := hp.registers_le
  unfold nbyte
  dsimp only
  split
  . calc 2 ^ (p.log2Registers - 12) ≤ 2 ^ 4 := Nat.pow_le_pow_right (by omega) (by omega)
      _ = 16 := rfl
  . omega

theorem registers_le_nbyte (p : HllPara) : 2 ^ p.log2Registers ≤ 4096 * nbyte p := by
  unfold nbyte
  dsimp only
  split
  . rw [show 4096 = 2 ^ 12 from rfl, ← Nat.pow_add, Nat.add_sub_cancel' (by omega)]
  . calc 2 ^ p.log2Registers ≤ 2 ^ 12 := Nat.pow_le_pow_right (by omega) (by omega)
      _ = 4096 * 1 := rfl

theorem LoopOk.grow {p : HllPara} {done : Finset UInt64} {next size : Nat} {bytes newdata : Bytes}
    {lastindex : Int}
    (hp : p.InRange) (hwritten : Written newdata bytes.length size bytes)
      (hstart : SparsePrefix p done next bytes)
    (hlast : lastindex = (next : Int) - 1) (hle : bytes.length ≤ size)
    (hsmall : size ≤ bytes.length + (nbyte p + 2) + hllExpandSize)
    : LoopOk p done next (growSparse (nbyte p + 2) ⟨newdata, size, bytes.length, lastindex⟩) := by
  have hnbyte := nbyte_le hp
  unfold growSparse
  split
  . rename_i hfull
    constructor
    . apply Exists.intro bytes
      constructor
      . constructor
        . exact List.IsPrefix.trans hwritten.start (prefix_append _ _)
        . rfl
        . dsimp only
          rw [length_append, hwritten.size, length_replicate]
      . exact hstart
    . exact hlast
    . dsimp only at *
      unfold hllExpandSize at *
      omega
    . dsimp only at *
      omega
  . rename_i hroom
    constructor
    . exact Exists.intro bytes (And.intro hwritten hstart)
    . exact hlast
    . omega
    . exact hsmall

theorem explicitToSparseStep_spec {p : HllPara} {done : Finset UInt64} {next : Nat} {s : ToSparse}
    (hp : p.InRange) (h : LoopOk p done next s) (hashval : UInt64) (hnext : next ≤ hashIndex p hashval + 1)
    : ∃ s' next', explicitToSparseStep p (nbyte p + 2) s hashval = .ok s'
        ∧ LoopOk p (insert hashval done) next' s' ∧ next' ≤ hashIndex p hashval + 1 := by
  obtain ⟨bytes, hwritten, hstart⟩ := h.written
  have hindexEq := hwritten.index
  have hlast := h.lastindex
  have hroom := h.room
  have hsmall := h.small
  have hpair : hllHashToValue p hashval = (hashIndex p hashval, (hllHashToValue p hashval).2) := rfl
  unfold explicitToSparseStep
  rw [hpair]
  dsimp only
  split
  . rename_i hzero
    have hvalue := (value_eq_zero_iff hashval).1 hzero
    apply Exists.intro s
    apply Exists.intro next
    constructor
    . rfl
    . constructor
      . constructor
        . exact Exists.intro bytes (And.intro hwritten (hstart.skip hashval hvalue))
        . exact hlast
        . exact hroom
        . exact hsmall
      . exact hnext
  . rename_i hne
    have hpos : 0 < hashValue p hashval := by
      apply Nat.pos_of_ne_zero
      intro hzero
      exact hne ((value_eq_zero_iff hashval).2 hzero)
    have hvalueEq : (hllHashToValue p hashval).2.toNat = hashValue p hashval := rfl
    rw [hvalueEq, assertTrue_of (by omega), ok_bind]
    split
    . rename_i hsame
      have hupdate := hstart.update hp hashval hpos (by omega)
      obtain ⟨pre, value, hdata, -⟩ := hstart.last (by omega)
      have hlen : 0 < bytes.length := by
        rw [hdata]
        simp
      obtain ⟨rest, hrest⟩ := hwritten.start
      have hget : s.newdata[s.sparseindex - 1]? = some (bytes.getD (bytes.length - 1) 0) := by
        rw [← hrest, ← hindexEq, getElem?_append_left (by omega), getD_eq_getElem _ _ (by omega),
          getElem?_eq_getElem]
      rw [sub_of_le (by omega), ok_bind, hget, inBuffer_some, ok_bind]
      split
      . rename_i hless
        obtain ⟨newdata', hwrite, hwritten'⟩ :=
          hwritten.set (show s.sparseindex - 1 < s.sparseindex by omega) (setDenseValue (hashValue p hashval))
        rw [if_pos hless, hindexEq] at hupdate
        rw [hwrite, inBuffer_some, ok_bind]
        apply Exists.intro { s with newdata := newdata' }
        apply Exists.intro next
        constructor
        . rfl
        . constructor
          . constructor
            . exact Exists.intro _ (And.intro hwritten' hupdate)
            . exact hlast
            . exact hroom
            . exact hsmall
          . exact hnext
      . rename_i hnot
        rw [if_neg hnot] at hupdate
        apply Exists.intro s
        apply Exists.intro next
        constructor
        . rfl
        . constructor
          . constructor
            . exact Exists.intro bytes (And.intro hwritten hupdate)
            . exact hlast
            . exact hroom
            . exact hsmall
          . exact hnext
    . rename_i hother
      have hcount : ((hashIndex p hashval : Int) - s.lastindex - 1).toNat =
        hashIndex p hashval - next := by omega
      have happend := hstart.append hp hashval hpos (by omega)
      have hindexLt := hashIndex_lt hp hashval
      have hregisters := registers_le_nbyte p
      have hzeros := length_hllSetSparseZero_le (hashIndex p hashval - next)
      have hzerosLt : (Hll.hllSetSparseZero (hashIndex p hashval - next)).length + 1 ≤ nbyte p + 2 := by omega
      obtain ⟨newdata₁, hset, hwritten₁⟩ := hllSetSparseZero_sim hwritten
        (show _ + (Hll.hllSetSparseZero (hashIndex p hashval - next)).length ≤ s.sparsesize by omega)
      obtain ⟨newdata₂, hwrite, hlength, hstart⟩ := write_prefix [setDenseValue (hashValue p hashval)]
        hwritten₁.start (by
          rw [hwritten₁.index, hwritten₁.size, length_singleton]
          omega)
      rw [hwritten₁.index] at hwrite
      have hlen : (bytes ++ Hll.hllSetSparseZero (hashIndex p hashval - next)
          ++ [setDenseValue (hashValue p hashval)]).length
          = s.sparseindex + (Hll.hllSetSparseZero (hashIndex p hashval - next)).length + 1 := by
        rw [length_append, hwritten₁.index, length_singleton]
      rw [hcount, hset, ok_bind]
      dsimp only
      rw [hwrite, inBuffer_some, ok_bind, ← hlen]
      apply Exists.intro _
      apply Exists.intro (hashIndex p hashval + 1)
      constructor
      . rfl
      . constructor
        . apply LoopOk.grow hp _ happend (by omega) (by omega) (by omega)
          constructor
          . exact hstart
          . rfl
          . rw [hlength, hwritten₁.size]
        . exact Nat.le_refl _

theorem explicitToSparse_foldlM {p : HllPara} (hp : p.InRange) (hashes : List UInt64)
    : ∀ done next s, LoopOk p done next s → hashes.Pairwise (· ≤ ·) → (∀ h ∈ hashes, next ≤ hashIndex p h + 1) →
        ∃ s' next', hashes.foldlM (explicitToSparseStep p (nbyte p + 2)) s = .ok s'
          ∧ LoopOk p (done ∪ hashes.toFinset) next' s' := by
  induction hashes with
  | nil =>
    intro done next s h _ _
    apply Exists.intro s
    apply Exists.intro next
    rw [toFinset_nil, Finset.union_empty]
    exact And.intro rfl h
  | cons hashval rest ih =>
    intro done next s h hsorted hnext
    obtain ⟨hfirst, hrestSorted⟩ := pairwise_cons.1 hsorted
    obtain ⟨s₁, next₁, hstep, hok₁, hle₁⟩ := explicitToSparseStep_spec hp h hashval (hnext hashval mem_cons_self)
    obtain ⟨s₂, next₂, hloop, hok₂⟩ := ih _ _ _ hok₁ hrestSorted (by
      intro h hmem
      have hmono := hashIndex_mono (p := p) (UInt64.le_iff_toNat_le.1 (hfirst h hmem))
      omega)
    apply Exists.intro s₂
    apply Exists.intro next₂
    constructor
    . rw [foldlM_cons, hstep, ok_bind, hloop]
    . rw [toFinset_cons, Finset.union_insert, ← Finset.insert_union]
      exact hok₂

theorem hllExplicitToSparse_memory (hp : o.hllpara.InRange) (htype : o.hlltype = .explicit)
    (h : Holds o (encodeHashes hashes)) (hsorted : hashes.Pairwise (· ≤ ·))
    : ∃ o', hllExplicitToSparse o = .ok o' ∧ SparseOk o' ∧ o'.hllpara = o.hllpara
        ∧ o'.lenTotal ≤ o'.lenUsed + (nbyte o.hllpara + 2) + hllExpandSize := by
  have hinit : LoopOk o.hllpara ∅ 0 ⟨List.replicate (nbyte o.hllpara + 2) 0, nbyte o.hllpara + 2, 0, -1⟩ := by
    constructor
    . apply Exists.intro []
      constructor
      . constructor
        . exact nil_prefix
        . rfl
        . exact length_replicate
      . constructor
        . exact allUsed_nil
        . rfl
        . intro i
          rfl
        . intro hpos
          cases hpos
        . exact Nat.zero_le _
    . rfl
    . dsimp only
      omega
    . dsimp only
      omega
  obtain ⟨s, next, hloop, hok⟩ := explicitToSparse_foldlM hp hashes ∅ 0 _ hinit hsorted (by
    intro _ _
    exact Nat.zero_le _)
  obtain ⟨bytes, hwritten, hstart⟩ := hok.written
  have hle := hstart.le
  have hroom := hok.room
  have hsmall := hok.small
  have hlast := hok.lastindex
  have hlen := h.length
  rw [length_encodeHashes] at hlen
  have hcount : ((2 : Int) ^ o.hllpara.log2Registers - s.lastindex - 1).toNat =
    2 ^ o.hllpara.log2Registers - next := by
    have hpow : ((2 ^ o.hllpara.log2Registers : Nat) : Int) = (2 : Int) ^ o.hllpara.log2Registers := by
      rw [Int.natCast_pow]
      rfl
    omega
  have hzerosLen := length_hllSetSparseZero_le (2 ^ o.hllpara.log2Registers - next)
  have hregisters := registers_le_nbyte o.hllpara
  obtain ⟨newdata, hset, hwritten'⟩ := hllSetSparseZero_sim hwritten
    (show _ + (Hll.hllSetSparseZero (2 ^ o.hllpara.log2Registers - next)).length ≤ s.sparsesize by omega)
  obtain ⟨hzeros, hzerosUsed⟩ := hllSetSparseZero_spec (2 ^ o.hllpara.log2Registers - next)
  have hindex := hwritten'.index
  have hrange := foldlM_range_eq hashes (fun i => hllGetExplictitValue o (hllExplicitUint * i))
    (explicitToSparseStep o.hllpara (nbyte o.hllpara + 2)) (by
      intro i hi
      exact hllGetExplictitValue_eq h hi)
    ⟨List.replicate (nbyte o.hllpara + 2) 0, nbyte o.hllpara + 2, 0, -1⟩ hashes.length (Nat.le_refl _)
  rw [take_length, hloop] at hrange
  have hdecode : decode (bytes ++ Hll.hllSetSparseZero (2 ^ o.hllpara.log2Registers - next))
      = decode bytes ++ List.replicate (2 ^ o.hllpara.log2Registers - next) 0 := by
    rw [decode_append, hzeros]
  have hholds : Holds
      { o with
        hllData := newdata, lenTotal := s.sparsesize,
        lenUsed := s.sparseindex + (Hll.hllSetSparseZero (2 ^ o.hllpara.log2Registers - next)).length,
        hlltype := .sparse }
      (bytes ++ Hll.hllSetSparseZero (2 ^ o.hllpara.log2Registers - next)) := by
    constructor
    . exact hwritten'.start
    . exact hindex
    . exact hwritten'.size
  have hused := hholds.used_eq
  apply Exists.intro _
  constructor
  . unfold hllExplicitToSparse
    rw [assertTrue_of htype, ok_bind]
    dsimp only
    rw [← hlen, Nat.mul_div_cancel_left _ (by decide), hrange, ok_bind, hcount, hset]
    rfl
  . constructor
    . constructor
      . rfl
      . exact hholds.used_le
      . exact hholds.total
      . rw [hused]
        exact allUsed_append.2 (And.intro hstart.used hzerosUsed)
      . rw [hused, hdecode, length_append, hstart.length, length_replicate]
        exact Nat.add_sub_cancel' hle
    . constructor
      . rfl
      . dsimp only
        omega

end Explicit

section Runs

-- A sketch that comes out of a change to sparse mode and any number of calls of `HllSetSparseValue`.
inductive SparseReachable : HllObjectData → Prop where
  | emptyToSparse {o o' : HllObjectData} (hp : o.hllpara.InRange) (htype : o.hlltype = .empty)
      (hdata : o.hllData = []) (h : hllEmptyToSparse o = .ok o') : SparseReachable o'
  | explicitToSparse {o o' : HllObjectData} {hashes : List UInt64} (hp : o.hllpara.InRange)
      (htype : o.hlltype = .explicit) (hdata : Holds o (encodeHashes hashes))
        (hsorted : hashes.Pairwise (· ≤ ·))
      (h : hllExplicitToSparse o = .ok o') : SparseReachable o'
  | setSparseValue {o o' : HllObjectData} (hreachable : SparseReachable o) (hashval : UInt64)
      (h : hllSetSparseValue o hashval = .ok o') (htype : o'.hlltype = .sparse) : SparseReachable o'

theorem SparseReachable.ok {o : HllObjectData} (h : SparseReachable o) : SparseOk o ∧ o.hllpara.InRange := by
  induction h with
  | emptyToSparse hp htype hdata h =>
    obtain ⟨heq, hok⟩ := hllEmptyToSparse_memory hp htype hdata
    rw [heq] at h
    cases h
    exact And.intro hok hp
  | explicitToSparse hp htype hdata hsorted h =>
    obtain ⟨o', heq, hok, hpara, -⟩ := hllExplicitToSparse_memory hp htype hdata hsorted
    rw [heq] at h
    cases h
    rw [hpara]
    exact And.intro hok hp
  | setSparseValue hreachable hashval h htype ih =>
    obtain ⟨hok, hp⟩ := ih
    obtain ⟨o', heq, hset⟩ := hllSetSparseValue_memory hok hp hashval
    rw [heq] at h
    cases h
    rw [hset.hllpara]
    cases hset.mode with
    | inl hsparse => exact And.intro hsparse.1 hp
    | inr hfull =>
      rw [hfull.hlltype] at htype
      cases htype

theorem registerSet_of_update {o o' : HllObjectData} {index : Nat} {value : UInt8} (h : SparseOk o)
    (hindex : index < 2 ^ o.hllpara.log2Registers) (hok : SparseOk o') (hpara : o'.hllpara = o.hllpara)
    (htotal : o'.lenTotal ≤ max o.lenTotal (o'.lenUsed + 255))
    (hdecode : decode o'.used = (decode o.used).set index (max value.toNat ((decode o.used).getD index 0)))
    : RegisterSet o o' index value.toNat := by
  constructor
  . exact hpara
  . exact Or.inl (And.intro hok htotal)
  . intro i
    rw [hok.reg_eq, h.reg_eq, hdecode, getD_set _ _ _ _ _ (by rw [h.covers]; exact hindex)]
    by_cases heq : i = index
    . rw [if_pos heq, if_pos heq.symm, heq]
    . rw [if_neg heq, if_neg (Ne.symm heq)]

theorem hllUpdateSparseValue_memory {o : HllObjectData} (h : SparseOk o) {index : Nat}
    (hindex : index < 2 ^ o.hllpara.log2Registers)
    : ∃ byteIndex unitIndex, hllGetRegisterUnit o index = .ok (byteIndex, unitIndex) ∧ byteIndex < o.lenUsed
        ∧ ∀ value : UInt8, value ≠ 0 → value.toNat ≤ 64 →
          ∃ o', hllUpdateSparseValue o byteIndex unitIndex value = .ok o' ∧ SparseOk o'
            ∧ RegisterSet o o' index value.toNat := by
  obtain ⟨byteIndex, unitIndex, -, hget, hlt, -⟩ :=
    updateRegister_memory h hindex (show (1 : UInt8) ≠ 0 by decide) (by decide)
  apply Exists.intro byteIndex
  apply Exists.intro unitIndex
  constructor
  . exact hget
  . constructor
    . exact hlt
    . intro value hvalue hle
      obtain ⟨byteIndex', unitIndex', o', hget', -, hupdate, hok, hpara, htotal, hdecode⟩ :=
        updateRegister_memory h hindex hvalue hle
      rw [hget] at hget'
      cases hget'
      apply Exists.intro o'
      constructor
      . exact hupdate
      . exact And.intro hok (registerSet_of_update h hindex hok hpara htotal hdecode)

-- No function of sparse mode fails, and what it does to the registers.
theorem sparse_encoding
    : (∀ o : HllObjectData, o.hllpara.InRange → o.hlltype = .empty → o.hllData = [] →
      ∃ o', hllEmptyToSparse o = .ok o')
    ∧ (∀ (o : HllObjectData) (hashes : List UInt64), o.hllpara.InRange → o.hlltype = .explicit →
      Holds o (encodeHashes hashes) → hashes.Pairwise (· ≤ ·) → ∃ o', hllExplicitToSparse o = .ok o')
    ∧ ∀ o, SparseReachable o → SparseOk o
      ∧ (∀ index, index < 2 ^ o.hllpara.log2Registers →
        ∃ byteIndex unitIndex, hllGetRegisterUnit o index = .ok (byteIndex, unitIndex) ∧ byteIndex < o.lenUsed
          ∧ ∀ value : UInt8, value ≠ 0 → value.toNat ≤ 64 →
            ∃ o', hllUpdateSparseValue o byteIndex unitIndex value = .ok o' ∧ SparseOk o'
              ∧ RegisterSet o o' index value.toNat)
      ∧ (∀ hashval, ∃ o', hllSetSparseValue o hashval = .ok o'
        ∧ RegisterSet o o' (hashIndex o.hllpara hashval) (hashValue o.hllpara hashval))
      ∧ ∃ full, hllTransformFull o = .ok (becomeFull o full) ∧ full.length = 2 ^ o.hllpara.log2Registers
        ∧ ∀ i, (full.getD i 0).toNat = o.reg i := by
  constructor
  . intro o hp htype hdata
    exact Exists.intro _ (hllEmptyToSparse_memory hp htype hdata).1
  . constructor
    . intro o hashes hp htype hdata hsorted
      obtain ⟨o', heq, -⟩ := hllExplicitToSparse_memory hp htype hdata hsorted
      exact Exists.intro o' heq
    . intro o hreachable
      obtain ⟨hok, hp⟩ := hreachable.ok
      constructor
      . exact hok
      . constructor
        . intro index hindex
          exact hllUpdateSparseValue_memory hok hindex
        . constructor
          . intro hashval
            exact hllSetSparseValue_memory hok hp hashval
          . obtain ⟨full, hfull, hlen, hreg⟩ := hllTransformFull_sparse_memory hok
            apply Exists.intro full
            constructor
            . exact hfull
            . constructor
              . exact hlen
              . intro i
                rw [hreg, hok.reg_eq]

def emptySketch : HllObjectData := hllEmpty hllInit

def explicitSketch : HllObjectData :=
  { emptySketch with
    hlltype := .explicit, lenTotal := 16, lenUsed := 16, hllData := encodeHashes [8, 0x4000000000000001] }

theorem sparse_encoding_sketches
    : (∃ o', hllEmptyToSparse emptySketch = .ok o' ∧ SparseOk o')
        ∧ ∃ o', hllExplicitToSparse explicitSketch = .ok o' ∧ SparseOk o' := by
  have hp : emptySketch.hllpara.InRange := HllPara.InRange.mk (by decide) (by decide)
  have hp' : explicitSketch.hllpara.InRange := hp
  have hholds : Holds explicitSketch (encodeHashes [8, 0x4000000000000001]) :=
    Holds.mk (List.prefix_refl _) rfl rfl
  constructor
  . obtain ⟨o', heq⟩ := sparse_encoding.1 emptySketch hp rfl rfl
    exact Exists.intro o' (And.intro heq (sparse_encoding.2.2 o' (.emptyToSparse hp rfl rfl heq)).1)
  . have hsorted : [(8 : UInt64), 0x4000000000000001].Pairwise (· ≤ ·) := by decide
    obtain ⟨o', heq⟩ := sparse_encoding.2.1 explicitSketch _ hp' rfl hholds hsorted
    exact Exists.intro o' (And.intro heq
      (sparse_encoding.2.2 o' (.explicitToSparse hp' rfl hholds hsorted heq)).1)

end Runs

end Hll.Memory
