import Mathlib.Data.List.Find
import OpenGauss.Partition.ListTable.Impl

/-!
This module contains that the search in the hash table of a list partition map finds the partition that
lists the key values.
-/

open List

namespace Partition

variable {D V : Type} [LinearOrder V] {element : HashElement D} {done : List (ListPartElement D)}

section Compare

theorem constCompareWithNull_eq_iff (c1 c2 : Const V) : constCompareWithNull c1 c2 = .eq ↔ c1 = c2 := by
  cases c1 <;> cases c2 <;> simp [constCompareWithNull]

theorem listPartKeyCompareValues_eq_iff (k1 k2 : List (Const V)) (hlen : k1.length = k2.length)
    : listPartKeyCompareValues k1 k2 = .eq ↔ k1 = k2 := by
  induction k1 generalizing k2 with
  | nil =>
    cases k2 with
    | nil => simp [listPartKeyCompareValues]
    | cons c2 k2 => cases hlen
  | cons c1 k1 ih =>
    cases k2 with
    | nil => cases hlen
    | cons c2 k2 =>
      rw [listPartKeyCompareValues, List.cons.injEq, ← constCompareWithNull_eq_iff,
        ← ih k2 (by simpa using hlen)]
      cases constCompareWithNull c1 c2 <;> simp

theorem partKeyMatch_iff (k1 k2 : List (Const V)) : partKeyMatch k1 k2 = true ↔ k1 = k2 := by
  rw [partKeyMatch, Bool.and_eq_true, beq_iff_eq, beq_iff_eq]
  constructor
  . intro ⟨hlen, heq⟩
    exact (listPartKeyCompareValues_eq_iff k1 k2 hlen).1 heq
  . intro heq
    have hlen : k1.length = k2.length := by rw [heq]
    exact ⟨hlen, (listPartKeyCompareValues_eq_iff k1 k2 hlen).2 heq⟩

theorem listPartKeyCompare_self (k : List (Const V)) : listPartKeyCompare k k = .eq := by
  have hvalues := (listPartKeyCompareValues_eq_iff k k rfl).2 rfl
  cases k with
  | nil => rfl
  | cons c k => cases c <;> simp [listPartKeyCompare, hvalues]

theorem eq_of_listPartKeyCompare {k1 k2 : List (Const V)} (h : listPartKeyCompare k1 k2 = .eq)
    (hmax : .maxValue ∉ k1 ∨ .maxValue ∉ k2) : k1 = k2 := by
  unfold listPartKeyCompare at h
  split at h
  . split at h <;> cases h
  . next hlen =>
    split at h
    . simp at hmax
    . cases h
    . cases h
    . exact (listPartKeyCompareValues_eq_iff k1 k2 (by simpa using hlen)).1 h

end Compare

namespace HashedType

variable (t : HashedType D V)

section Key

omit [LinearOrder V] in
theorem maxValue_mem_key_iff (key : List (Const D)) : .maxValue ∈ t.key key ↔ .maxValue ∈ key := by
  rw [HashedType.key, mem_map]
  constructor
  . rintro ⟨c, hc, hmap⟩
    cases c with
    | maxValue => exact hc
    | null => cases hmap
    | value d => cases hmap
  . intro hmem
    exact ⟨.maxValue, hmem, rfl⟩

omit [LinearOrder V] in
theorem partKeyHash_eq (hashval : BitVec 32) (k1 k2 : List (Const D)) (h : t.key k1 = t.key k2)
    : t.partKeyHash hashval k1 = t.partKeyHash hashval k2 := by
  induction k1 generalizing hashval k2 with
  | nil =>
    cases k2 with
    | nil => rfl
    | cons c2 k2 => cases h
  | cons c1 k1 ih =>
    cases k2 with
    | nil => cases h
    | cons c2 k2 =>
      simp only [HashedType.key, map_cons, List.cons.injEq] at h
      obtain ⟨hhead, htail⟩ := h
      cases c1 with
      | maxValue => cases c2 <;> first | exact ih hashval k2 htail | cases hhead
      | null => cases c2 <;> first | exact ih hashval k2 htail | cases hhead
      | value d1 =>
        cases c2 with
        | maxValue => cases hhead
        | null => cases hhead
        | value d2 =>
          rw [partKeyHash, partKeyHash, t.hash_eq hashval d1 d2 (by simpa [Const.map] using hhead)]
          exact ih _ k2 htail

theorem key_eq_of_isElementOf {key : List (Const D)}
    (h : t.isElementOf key element = true) : t.key element.entry.key = t.key key := by
  rw [isElementOf, Bool.and_eq_true] at h
  exact (partKeyMatch_iff _ _).1 h.2

theorem isElementOf_of_key_eq {key : List (Const D)}
    (hhash : element.hashvalue = t.partKeyHashFunc element.entry.key)
      (h : t.key element.entry.key = t.key key)
    : t.isElementOf key element = true := by
  rw [isElementOf, Bool.and_eq_true, beq_iff_eq]
  exact ⟨hhash.trans (t.partKeyHash_eq 0 _ _ h), (partKeyMatch_iff _ _).2 h⟩

end Key

section Build

theorem insertPartKey_of_new (key : List (Const D)) (partRelOid partSeq : Nat) (ht : List (HashElement D))
    (hnew : ∀ element ∈ ht, t.key element.entry.key ≠ t.key key)
    : t.insertPartKey key partRelOid partSeq ht
        =
      .ok (ht ++ [⟨t.partKeyHashFunc key, ⟨key, partRelOid, partSeq⟩, []⟩]) := by
  induction ht with
  | nil => rfl
  | cons element ht ih =>
    have hother : t.isElementOf key element = false := by
      rw [Bool.eq_false_iff]
      intro hsame
      exact hnew element mem_cons_self (t.key_eq_of_isElementOf hsame)
    rw [insertPartKey, hother, ih (fun element hmem => hnew element (mem_cons_of_mem _ hmem))]
    rfl

theorem insertPartKeys_of_new (partRelOid partSeq : Nat) (keys : List (List (Const D)))
    (ht : List (HashElement D)) (hnodup : (keys.map t.key).Nodup)
    (hnew : ∀ element ∈ ht, ∀ key ∈ keys, t.key element.entry.key ≠ t.key key)
    : t.insertPartKeys partRelOid partSeq keys ht
        =
      .ok (ht ++ keys.map fun key => ⟨t.partKeyHashFunc key, ⟨key, partRelOid, partSeq⟩, []⟩) := by
  induction keys generalizing ht with
  | nil => simp [insertPartKeys]
  | cons key keys ih =>
    rw [map_cons, nodup_cons] at hnodup
    have hinsert := t.insertPartKey_of_new key partRelOid partSeq ht
      (fun element hmem => hnew element hmem key mem_cons_self)
    have hrest := ih (ht ++ [⟨t.partKeyHashFunc key, ⟨key, partRelOid, partSeq⟩, []⟩]) hnodup.2 (by
      intro element hmem key' hkey'
      rcases mem_append.1 hmem with hold | hlast
      . exact hnew element hold key' (mem_cons_of_mem _ hkey')
      . rw [mem_singleton.1 hlast]
        intro heq
        apply hnodup.1
        rw [heq]
        exact mem_map_of_mem hkey')
    rw [insertPartKeys, hinsert]
    simp only [bind, Except.bind, hrest, map_cons, append_assoc, singleton_append]

end Build

section Partitions

structure IsPartitionList (partitions : List (ListPartElement D)) : Prop where
  listed : ∀ element ∈ partitions, element.boundary ≠ []
  keys : ∀ element ∈ partitions, isDefaultValueListPartition element = false →
    ∀ key ∈ element.boundary, .maxValue ∉ key
  distinct : ((partitions.flatMap (·.boundary)).map t.key).Nodup
  default : partitions.Pairwise fun a b =>
    ¬(isDefaultValueListPartition a = true ∧ isDefaultValueListPartition b = true)

variable {t} {partitions : List (ListPartElement D)}

omit [LinearOrder V] in
theorem IsPartitionList.perm {sorted : List (ListPartElement D)} (h : t.IsPartitionList partitions)
    (hperm : sorted.Perm partitions) : t.IsPartitionList sorted where
  listed := fun element hmem => h.listed element (hperm.mem_iff.1 hmem)
  keys := fun element hmem => h.keys element (hperm.mem_iff.1 hmem)
  distinct := ((hperm.flatMap_right _).map _).nodup_iff.2 h.distinct
  default := (hperm.pairwise_iff (fun hab hba => hab hba.symm)).2 h.default

omit [LinearOrder V] in
theorem IsPartitionList.nodup (h : t.IsPartitionList partitions)
    : (∀ element ∈ partitions, (element.boundary.map t.key).Nodup)
        ∧ partitions.Pairwise fun a b => List.Disjoint (a.boundary.map t.key) (b.boundary.map t.key) := by
  have hdistinct := h.distinct
  rw [map_flatMap, nodup_flatMap] at hdistinct
  exact hdistinct

-- Equal key vectors are listed by one partition.
omit [LinearOrder V] in
theorem IsPartitionList.seq_eq (h : t.IsPartitionList partitions) {i j : Nat} {a b : ListPartElement D}
    (ha : partitions[i]? = some a) (hb : partitions[j]? = some b) {k k' : List (Const D)}
      (hk : k ∈ a.boundary)
    (hk' : k' ∈ b.boundary) (heq : t.key k = t.key k') : i = j := by
  obtain ⟨hi, rfl⟩ := List.getElem?_eq_some_iff.1 ha
  obtain ⟨hj, rfl⟩ := List.getElem?_eq_some_iff.1 hb
  have hdisjoint := pairwise_iff_getElem.1 h.nodup.2
  have hmem := mem_map_of_mem (f := t.key) hk
  have hmem' := mem_map_of_mem (f := t.key) hk'
  rcases Nat.lt_trichotomy i j with hlt | hsame | hgt
  . rw [heq] at hmem
    exact absurd hmem' (hdisjoint i j hi hj hlt hmem)
  . exact hsame
  . rw [← heq] at hmem'
    exact absurd hmem (hdisjoint j i hj hi hgt hmem')

omit [LinearOrder V] in
theorem IsPartitionList.default_seq_eq (h : t.IsPartitionList partitions) {i j : Nat}
    {a b : ListPartElement D}
    (ha : partitions[i]? = some a) (hb : partitions[j]? = some b)
    (hadefault : isDefaultValueListPartition a = true) (hbdefault : isDefaultValueListPartition b = true)
    : i = j := by
  obtain ⟨hi, rfl⟩ := List.getElem?_eq_some_iff.1 ha
  obtain ⟨hj, rfl⟩ := List.getElem?_eq_some_iff.1 hb
  have hone := pairwise_iff_getElem.1 h.default
  rcases Nat.lt_trichotomy i j with hlt | hsame | hgt
  . exact absurd ⟨hadefault, hbdefault⟩ (hone i j hi hj hlt)
  . exact hsame
  . exact absurd ⟨hbdefault, hadefault⟩ (hone j i hj hi hgt)

omit [LinearOrder V] in
theorem maxValue_mem_head {element : ListPartElement D} (h : isDefaultValueListPartition element = true)
    : ∀ key ∈ element.boundary, .maxValue ∈ key := by
  unfold isDefaultValueListPartition at h
  split at h
  . next rest hboundary => simp [hboundary]
  . cases h

theorem IsPartitionList.listElementCmp_ne (h : t.IsPartitionList partitions) {i j : Nat}
    {a b : ListPartElement D} (ha : partitions[i]? = some a) (hb : partitions[j]? = some b) (hij : i ≠ j)
    : t.listElementCmp a b ≠ .eq := by
  intro hcmp
  have hamem := mem_of_getElem? ha
  have hbmem := mem_of_getElem? hb
  obtain ⟨ka, resta, hka⟩ := exists_cons_of_ne_nil (h.listed a hamem)
  obtain ⟨kb, restb, hkb⟩ := exists_cons_of_ne_nil (h.listed b hbmem)
  have hkamem : ka ∈ a.boundary := by rw [hka]; exact mem_cons_self
  have hkbmem : kb ∈ b.boundary := by rw [hkb]; exact mem_cons_self
  rw [listElementCmp, hka, hkb, headD_cons, headD_cons, compareKeys] at hcmp
  have hmax : .maxValue ∉ t.key ka ∨ .maxValue ∉ t.key kb := by
    rw [t.maxValue_mem_key_iff, t.maxValue_mem_key_iff]
    cases hadefault : isDefaultValueListPartition a with
    | false => exact .inl (h.keys a hamem hadefault ka hkamem)
    | true =>
      cases hbdefault : isDefaultValueListPartition b with
      | false => exact .inr (h.keys b hbmem hbdefault kb hkbmem)
      | true => exact absurd (h.default_seq_eq ha hb hadefault hbdefault) hij
  exact hij (h.seq_eq ha hb hkamem hkbmem (eq_of_listPartKeyCompare hcmp hmax))

end Partitions

section Loaded

structure Loaded (done : List (ListPartElement D)) (map : ListPartitionTable D) : Prop where
  chain : ∀ element ∈ map.ht, element.next = []
  hash : ∀ element ∈ map.ht, element.hashvalue = t.partKeyHashFunc element.entry.key
  entry : ∀ element ∈ map.ht, ∃ partElem, done[element.entry.partSeq]? = some partElem
    ∧ element.entry.partRelOid = partElem.partitionOid ∧ element.entry.key ∈ partElem.boundary
  complete : ∀ partElem ∈ done, isDefaultValueListPartition partElem = false →
    ∀ key ∈ partElem.boundary, ∃ element ∈ map.ht, element.entry.key = key
  default : (map.defaultPartSeqNo = invalidPartRelSeqNo ∧ map.defaultPartRelOid = invalidOid
      ∧ ∀ partElem ∈ done, isDefaultValueListPartition partElem = false)
    ∨ ∃ (n : Nat) (partElem : ListPartElement D), map.defaultPartSeqNo = n ∧ done[n]? = some partElem
      ∧ isDefaultValueListPartition partElem = true ∧ map.defaultPartRelOid = partElem.partitionOid

variable {t} {done rest : List (ListPartElement D)} {map : ListPartitionTable D}
    {partElem : ListPartElement D}

omit [LinearOrder V] in
theorem getElem?_append_of_some {n : Nat} {element : ListPartElement D} (h : done[n]? = some element)
    : (done ++ [partElem])[n]? = some element := by
  obtain ⟨hn, _⟩ := List.getElem?_eq_some_iff.1 h
  rw [getElem?_append_left hn, h]

omit [LinearOrder V] in
theorem Loaded.insert_default (h : t.Loaded done map)
    (hdefault : isDefaultValueListPartition partElem = true)
    : t.Loaded (done ++ [partElem])
      { map with defaultPartRelOid := partElem.partitionOid, defaultPartSeqNo := (done.length : Nat) } := { h with
  entry := by
    intro element hmem
    obtain ⟨listed, hlisted, hoid, hkey⟩ := h.entry element hmem
    exact ⟨listed, getElem?_append_of_some hlisted, hoid, hkey⟩
  complete := by
    intro listed hmem hlisted
    rcases mem_append.1 hmem with hold | hlast
    . exact h.complete listed hold hlisted
    . rw [mem_singleton.1 hlast, hdefault] at hlisted
      cases hlisted
  default := .inr ⟨done.length, partElem, rfl, by simp, hdefault, rfl⟩ }

omit [LinearOrder V] in
theorem Loaded.insert_listed (h : t.Loaded done map)
    (hlisted : isDefaultValueListPartition partElem = false)
    : t.Loaded (done ++ [partElem])
        { map with ht := map.ht ++ partElem.boundary.map fun key =>
          ⟨t.partKeyHashFunc key, ⟨key, partElem.partitionOid, done.length⟩, []⟩ } where
  chain := by
    intro element hmem
    rcases mem_append.1 hmem with hold | hnew
    . exact h.chain element hold
    . obtain ⟨key, _, rfl⟩ := mem_map.1 hnew
      rfl
  hash := by
    intro element hmem
    rcases mem_append.1 hmem with hold | hnew
    . exact h.hash element hold
    . obtain ⟨key, _, rfl⟩ := mem_map.1 hnew
      rfl
  entry := by
    intro element hmem
    rcases mem_append.1 hmem with hold | hnew
    . obtain ⟨listed, hget, hoid, hkey⟩ := h.entry element hold
      exact ⟨listed, getElem?_append_of_some hget, hoid, hkey⟩
    . obtain ⟨key, hkey, rfl⟩ := mem_map.1 hnew
      exact ⟨partElem, by simp, rfl, hkey⟩
  complete := by
    intro listed hmem hnodefault key hkey
    rcases mem_append.1 hmem with hold | hlast
    . obtain ⟨element, helement, heq⟩ := h.complete listed hold hnodefault key hkey
      exact ⟨element, mem_append_left _ helement, heq⟩
    . rw [mem_singleton.1 hlast] at hkey
      exact ⟨_, mem_append_right _ (mem_map_of_mem hkey), rfl⟩
  default := by
    rcases h.default with ⟨hseq, hoid, hnone⟩ | ⟨n, listed, hseq, hget, hdefault, hoid⟩
    . grind
    . exact .inr ⟨n, listed, hseq, getElem?_append_of_some hget, hdefault, hoid⟩

theorem Loaded.insertPartKeyHashTable (h : t.Loaded done map)
    (hlist : t.IsPartitionList (done ++ partElem :: rest))
    : ∃ map', t.insertPartKeyHashTable map partElem done.length = .ok map'
        ∧ map'.listElements = map.listElements ∧ t.Loaded (done ++ [partElem]) map' := by
  have hget : (done ++ partElem :: rest)[done.length]? = some partElem := by simp
  cases hdefault : isDefaultValueListPartition partElem with
  | true =>
    refine ⟨_, ?_, ?_, h.insert_default hdefault⟩
    . rw [HashedType.insertPartKeyHashTable, hdefault]
      rfl
    . rfl
  | false =>
    have hnew : ∀ element ∈ map.ht, ∀ key ∈ partElem.boundary, t.key element.entry.key ≠ t.key key := by
      intro element hmem key hkey heq
      obtain ⟨listed, hlisted, _, hentry⟩ := h.entry element hmem
      obtain ⟨hlt, _⟩ := List.getElem?_eq_some_iff.1 hlisted
      have hold : (done ++ partElem :: rest)[element.entry.partSeq]? = some listed := by
        rw [getElem?_append_left hlt, hlisted]
      have hseq := hlist.seq_eq hold hget hentry hkey heq
      omega
    have hinsert := t.insertPartKeys_of_new partElem.partitionOid done.length partElem.boundary map.ht
      (hlist.nodup.1 partElem (mem_of_getElem? hget)) hnew
    refine ⟨_, ?_, ?_, h.insert_listed hdefault⟩
    . rw [HashedType.insertPartKeyHashTable, hdefault, hinsert]
      rfl
    . rfl

theorem Loaded.go (h : t.Loaded done map) (hlist : t.IsPartitionList (done ++ rest))
    : ∃ map', buildListPartitionMap.go t map done.getLast? done.length rest = .ok map'
        ∧ map'.listElements = map.listElements ∧ t.Loaded (done ++ rest) map' := by
  induction rest generalizing done map with
  | nil => exact ⟨map, rfl, rfl, by rwa [append_nil]⟩
  | cons partElem rest ih =>
    have hget : (done ++ partElem :: rest)[done.length]? = some partElem := by simp
    have hkept : (done.getLast?.any fun prevElem => t.listElementCmp partElem prevElem == .eq) = false := by
      cases hlast : done.getLast? with
      | none => rfl
      | some prevElem =>
        rw [getLast?_eq_getElem?] at hlast
        obtain ⟨hlt, _⟩ := List.getElem?_eq_some_iff.1 hlast
        have hprev : (done ++ partElem :: rest)[done.length - 1]? = some prevElem := by
          rw [getElem?_append_left hlt, hlast]
        simpa using hlist.listElementCmp_ne hget hprev (by omega)
    obtain ⟨map', hinsert, hsame, hloaded⟩ := h.insertPartKeyHashTable hlist
    have hsplit : done ++ partElem :: rest = (done ++ [partElem]) ++ rest := by simp
    rw [hsplit] at hlist ⊢
    obtain ⟨built, hbuilt, hlistElements, hfinal⟩ := ih hloaded hlist
    refine ⟨built, ?_, hlistElements.trans hsame, hfinal⟩
    rw [getLast?_concat, length_append, length_singleton] at hbuilt
    rw [buildListPartitionMap.go, hkept, hinsert]
    exact hbuilt

theorem buildListPartitionMap_loaded {partitions : List (ListPartElement D)} (partitionKey : List Nat)
    (h : t.IsPartitionList partitions)
    : ∃ map, t.buildListPartitionMap partitionKey partitions = .ok map
        ∧ map.listElements = t.qsort partitions ∧ t.Loaded map.listElements map := by
  have hempty : t.Loaded [] ⟨partitionKey, t.qsort partitions, [], invalidOid, invalidPartRelSeqNo⟩ := by
    refine ⟨?_, ?_, ?_, ?_, .inl ⟨rfl, rfl, ?_⟩⟩ <;> simp
  have hsorted : t.IsPartitionList ([] ++ t.qsort partitions) := h.perm (mergeSort_perm _ _)
  obtain ⟨map, hbuilt, hlistElements, hloaded⟩ := hempty.go hsorted
  refine ⟨map, hbuilt, hlistElements, ?_⟩
  rw [hlistElements]
  exact hloaded

end Loaded

section Search

variable {t} {map : ListPartitionTable D} {key : List (Const D)}

theorem Loaded.hashSearch_eq_none_iff (h : t.Loaded done map)
    : t.hashSearch map.ht key = none ↔ ∀ element ∈ map.ht, t.key element.entry.key ≠ t.key key := by
  rw [hashSearch, find?_eq_none]
  constructor
  . intro hnone element hmem heq
    exact hnone element hmem (t.isElementOf_of_key_eq (h.hash element hmem) heq)
  . intro hne element hmem hsame
    exact hne element hmem (t.key_eq_of_isElementOf hsame)

theorem getListPartitionOid_of_found (hfound : t.hashSearch map.ht key = some element)
    : t.getListPartitionOid map key = (element.entry.partRelOid, (element.entry.partSeq : Int)) := by
  have hsame := t.key_eq_of_isElementOf (find?_some hfound)
  have hcompare : t.compareKeys key element.entry.key = .eq := by
    rw [compareKeys, hsame]
    exact listPartKeyCompare_self _
  rw [getListPartitionOid, hfound]
  simp [hcompare]

theorem Loaded.getListPartitionOid_forget (h : t.Loaded done map)
    : t.getListPartitionOid map key = Partition.getListPartitionOid (t.forget map) (t.key key) := by
  have hsearch : (t.forget map).ht.find? (fun entry => partKeyMatch (t.key key) entry.key)
      = (t.hashSearch map.ht key).map t.forgetElement := by
    rw [forget, find?_map, hashSearch]
    congr 1
    apply find?_congr
    intro element hmem
    rw [Bool.eq_iff_iff, Function.comp_apply, partKeyMatch_iff]
    constructor
    . intro heq
      exact t.isElementOf_of_key_eq (h.hash element hmem) heq.symm
    . intro hsame
      exact (t.key_eq_of_isElementOf hsame).symm
  rw [Partition.getListPartitionOid, hsearch]
  cases hfound : t.hashSearch map.ht key with
  | none =>
    rw [getListPartitionOid, hfound]
    rfl
  | some element =>
    rw [getListPartitionOid_of_found hfound]
    rfl

theorem Loaded.getListPartitionOid_of_listed (h : t.Loaded map.listElements map)
    (hlist : t.IsPartitionList map.listElements) (hkey : .maxValue ∉ key) {seq : Nat}
    {partElem : ListPartElement D} (hget : map.listElements[seq]? = some partElem) {k : List (Const D)}
    (hk : k ∈ partElem.boundary) (heq : t.key k = t.key key)
    : t.getListPartitionOid map key = (partElem.partitionOid, (seq : Int)) := by
  have hmem := mem_of_getElem? hget
  have hlisted : isDefaultValueListPartition partElem = false := by
    rw [Bool.eq_false_iff]
    intro hdefault
    have hmax := maxValue_mem_head hdefault k hk
    rw [← t.maxValue_mem_key_iff, heq, t.maxValue_mem_key_iff] at hmax
    exact hkey hmax
  obtain ⟨element, helement, rfl⟩ := h.complete partElem hmem hlisted k hk
  cases hfound : t.hashSearch map.ht key with
  | none => exact absurd heq (h.hashSearch_eq_none_iff.1 hfound element helement)
  | some found =>
    obtain ⟨foundElem, hfoundGet, hoid, hfoundKey⟩ := h.entry found (mem_of_find?_eq_some hfound)
    have hsame := t.key_eq_of_isElementOf (find?_some hfound)
    have hseq := hlist.seq_eq hfoundGet hget hfoundKey hk (hsame.trans heq.symm)
    rw [hseq, hget, Option.some.injEq] at hfoundGet
    rw [getListPartitionOid_of_found hfound, hoid, hseq, hfoundGet]

theorem Loaded.getListPartitionOid_of_not_listed (h : t.Loaded map.listElements map)
    (hnone : ∀ partElem ∈ map.listElements, ∀ k ∈ partElem.boundary, t.key k ≠ t.key key)
    : t.getListPartitionOid map key = (map.defaultPartRelOid, map.defaultPartSeqNo) := by
  have hfound : t.hashSearch map.ht key = none := by
    apply h.hashSearch_eq_none_iff.2
    intro element hmem
    obtain ⟨partElem, hget, _, hkey⟩ := h.entry element hmem
    exact hnone partElem (mem_of_getElem? hget) _ hkey
  rw [getListPartitionOid, hfound]

end Search

-- Partition `seq` of the map is where the routing of the key ends.
structure IsListPartitionOf (map : ListPartitionTable D) (key : List (Const D)) (seq : Nat)
    (partElem : ListPartElement D) : Prop where
  getElem : map.listElements[seq]? = some partElem
  lists : (∃ k ∈ partElem.boundary, t.key k = t.key key)
    ∨ isDefaultValueListPartition partElem = true
      ∧ ∀ other ∈ map.listElements, ∀ k ∈ other.boundary, t.key k ≠ t.key key

-- The search finds the partition that lists the key or else the default, and there is none only where both
-- are missing.
theorem getListPartitionOid_build (partitionKey : List Nat) (partitions : List (ListPartElement D))
    (h : t.IsPartitionList partitions)
    : ∃ map, t.buildListPartitionMap partitionKey partitions = .ok map
        ∧ map.listElements.Perm partitions
        ∧ (∀ element ∈ map.ht, ∀ entry ∈ element.entry :: element.next,
            (map.listElements[entry.partSeq]?).map (·.partitionOid) = some entry.partRelOid)
        ∧ ∀ key, .maxValue ∉ key →
            (∀ seq partElem, t.IsListPartitionOf map key seq partElem →
              t.getListPartitionOid map key = (partElem.partitionOid, (seq : Int)))
            ∧ ((∀ seq partElem, ¬t.IsListPartitionOf map key seq partElem) →
              t.getListPartitionOid map key = (invalidOid, -1)) := by
  obtain ⟨map, hbuilt, hlistElements, hloaded⟩ := buildListPartitionMap_loaded partitionKey h
  have hperm : map.listElements.Perm partitions := by
    rw [hlistElements]
    exact List.mergeSort_perm _ _
  have hlist := h.perm hperm
  refine ⟨map, hbuilt, hperm, ?_, ?_⟩
  . intro element hmem entry hentry
    rw [hloaded.chain element hmem, List.mem_singleton] at hentry
    obtain ⟨partElem, hget, hoid, _⟩ := hloaded.entry element hmem
    rw [hentry, hget, hoid, Option.map_some]
  . intro key hkey
    constructor
    . intro seq partElem hpart
      rcases hpart.lists with ⟨k, hk, heq⟩ | ⟨hdefault, hnone⟩
      . exact hloaded.getListPartitionOid_of_listed hlist hkey hpart.getElem hk heq
      . rw [hloaded.getListPartitionOid_of_not_listed hnone]
        rcases hloaded.default with ⟨_, _, hnodefault⟩ | ⟨n, defaultElem, hseq, hget, hisDefault, hoid⟩
        . rw [hnodefault partElem (List.mem_of_getElem? hpart.getElem)] at hdefault
          cases hdefault
        . have hn := hlist.default_seq_eq hget hpart.getElem hisDefault hdefault
          rw [hn, hpart.getElem, Option.some.injEq] at hget
          rw [hoid, hseq, hn, hget]
    . intro hno
      have hnone : ∀ partElem ∈ map.listElements, ∀ k ∈ partElem.boundary, t.key k ≠ t.key key := by
        intro partElem hmem k hk heq
        obtain ⟨seq, hget⟩ := List.mem_iff_getElem?.1 hmem
        exact hno seq partElem ⟨hget, .inl ⟨k, hk, heq⟩⟩
      rw [hloaded.getListPartitionOid_of_not_listed hnone]
      rcases hloaded.default with ⟨hseq, hoid, _⟩ | ⟨n, defaultElem, _, hget, hisDefault, _⟩
      . rw [hoid, hseq, invalidPartRelSeqNo]
      . exact absurd ⟨hget, .inr ⟨hisDefault, hnone⟩⟩ (hno n defaultElem)

end HashedType

def twoColumnType : HashedType Int Int where
  value := id
  hashValueCombination hashValue d := hashValue.rotateLeft 1 ^^^ BitVec.ofInt 32 d
  hash_eq := by
    intro hashValue a b hab
    rw [show a = b from hab]

def twoColumnPartitions : List (ListPartElement Int) :=
  [⟨103, [[.null, .null]]⟩, ⟨101, [[.value 1, .null], [.value 2, .value 3]]⟩, ⟨102, [[.maxValue]]⟩]

theorem getListPartitionOid_build_twoColumns
    : ∃ map seq, twoColumnType.buildListPartitionMap [1, 2] twoColumnPartitions = .ok map
        ∧ twoColumnType.getListPartitionOid map [.null, .null] = (103, seq) := by
  have hlist : twoColumnType.IsPartitionList twoColumnPartitions :=
    ⟨by decide, by decide, by decide, by decide⟩
  obtain ⟨map, hbuilt, hperm, _, hfound⟩ := twoColumnType.getListPartitionOid_build [1, 2] _ hlist
  have hmem : ⟨103, [[.null, .null]]⟩ ∈ map.listElements := hperm.mem_iff.2 List.mem_cons_self
  obtain ⟨seq, hget⟩ := List.mem_iff_getElem?.1 hmem
  refine ⟨map, seq, hbuilt, (hfound [.null, .null] (by decide)).1 seq _ ⟨hget, .inl ⟨_, ?_, rfl⟩⟩⟩
  exact List.mem_cons_self

end Partition
