import Mathlib.Data.UInt
import Mathlib.Data.List.Flatten

/-!
This module contains the strings that the ledger hands to MD5, from `userchain.cpp` and
`blockchain.cpp`, and when they tell what they are built from apart.
-/

open List

namespace Ledger

variable (hashes : List (Option UInt64)) (tabledesc : TupleDesc)

abbrev Datum := UInt64
abbrev Oid := UInt32
abbrev CString := List Char

-- `%lu`
def printLu (n : UInt64) : CString := Nat.toDigits 10 n.toNat

section UserTable

-- The types of the columns; the last column is the hash column.
abbrev TupleDesc := List Oid

-- A row after `heap_deform_tuple`. None is NULL.
structure Row (tabledesc : TupleDesc) where
  values : List (Option Datum)
  length_eq : values.length = tabledesc.length

variable (computeHash : Oid → Datum → UInt64)

def columnHashes (tabledesc : TupleDesc) (row : Row tabledesc) : List (Option UInt64) :=
  (tabledesc.zipWith (fun atttypid value => value.map (computeHash atttypid)) row.values).dropLast

def combine : List (Option UInt64) → CString
  | [] => []
  | none :: hashes => combine hashes
  | some colHash :: hashes => printLu colHash ++ combine hashes

def hashCombineTupleData (tabledesc : TupleDesc) (row : Row tabledesc) : CString :=
  combine (columnHashes computeHash tabledesc row)

end UserTable

section History

structure HistRecord where
  recNum : UInt64
  hashIns : UInt64
  hashDel : UInt64
  deriving DecidableEq

-- The string of `gen_hist_tuple_hash`; `preHashStr` is there when the row before exists.
def genHistTupleString (relName currentBlockData : CString) (preHashStr : Option CString) : CString :=
  match preHashStr with
  | some preHashStr => currentBlockData ++ preHashStr
  | none => currentBlockData ++ relName

def fillHistBlock (relName : CString) (record : HistRecord) : CString :=
  let data := printLu record.recNum ++ printLu record.hashIns ++ printLu record.hashDel
  genHistTupleString relName data none

end History

section GlobalChain

structure GchainBlock where
  dbName : CString
  userName : CString
  nspName : CString
  relName : CString
  cmdText : CString
  relHash : UInt64
  deriving DecidableEq

-- No command text is the empty one.
def setGchainCombString (dbName userName nspName relName : CString) (cmdText : Option CString)
    (relHash : UInt64) : CString :=
  let cmdText := cmdText.getD []
  dbName ++ userName ++ nspName ++ relName ++ cmdText ++ printLu relHash

def GchainBlock.combString (block : GchainBlock) : CString :=
  setGchainCombString block.dbName block.userName block.nspName block.relName (some block.cmdText)
    block.relHash

end GlobalChain

section Concatenation

variable {α : Type}

theorem flatten_ne {xs ys : List (List α)} (hne : xs ≠ ys) (h : xs.map List.length = ys.map List.length ∨
      (xs.map List.length).sum ≠ (ys.map List.length).sum)
    : xs.flatten ≠ ys.flatten := by
  intro heq
  cases h with
  | inl hlengths => exact hne (eq_iff_flatten_eq.2 ⟨heq, hlengths⟩)
  | inr hsum =>
    apply hsum
    rw [← length_flatten, ← length_flatten, heq]

theorem flatten_replicate_map (a : α) (lengths : List Nat)
    : (lengths.map (List.replicate · a)).flatten = List.replicate lengths.sum a := by
  induction lengths with
  | nil => rfl
  | cons n lengths ih =>
    rw [map_cons, flatten_cons, ih, sum_cons, replicate_append_replicate]

end Concatenation

section Print

theorem printLu_inj {n m : UInt64} (h : printLu n = printLu m) : n = m := by
  have hnat := congrArg (fun cs => Nat.ofDigitChars 10 cs 0) h
  simp only [printLu, Nat.ofDigitChars_ten_toDigits] at hnat
  exact UInt64.toNat_inj.1 hnat

theorem printLu_length_pos (n : UInt64) : 0 < (printLu n).length := Nat.length_toDigits_pos

theorem printLu_length_le (n : UInt64) : (printLu n).length ≤ 20 := by
  rw [printLu, Nat.length_toDigits_le_iff (by decide) (by decide)]
  have := n.toNat_lt
  omega

def ones : Nat → Nat
  | 0 => 0
  | n + 1 => 10 * ones n + 1

theorem toDigits_ones (n : Nat) : Nat.toDigits 10 (ones (n + 1)) = List.replicate (n + 1) '1' := by
  induction n with
  | zero => decide
  | succ n ih =>
    have hle : 10 ≤ ones (n + 1 + 1) := by
      simp only [ones]
      omega
    have hdiv : ones (n + 1 + 1) / 10 = ones (n + 1) := by
      simp only [ones]
      omega
    have hmod : ones (n + 1 + 1) % 10 = 1 := by
      simp only [ones]
      omega
    rw [Nat.toDigits_of_base_le (by decide) hle, hdiv, hmod, ih, replicate_succ' (n := n + 1)]
    rfl

theorem ones_mono {n m : Nat} (h : n ≤ m) : ones n ≤ ones m := by
  induction h with
  | refl => exact Nat.le_refl _
  | step _ ih =>
    rw [ones]
    omega

theorem exists_printLu {n : UInt64} {w : Nat} (h : (printLu n).length = w)
    : printLu (UInt64.ofNat (ones w)) = List.replicate w '1' := by
  have hpos := printLu_length_pos n
  have hle := printLu_length_le n
  have hlt : ones w < 2 ^ 64 := by
    refine Nat.lt_of_le_of_lt (ones_mono (m := 20) (by omega)) ?_
    decide
  obtain ⟨k, rfl⟩ : ∃ k, w = k + 1 := ⟨w - 1, by omega⟩
  rw [printLu, UInt64.toNat_ofNat_of_lt' hlt, toDigits_ones]

end Print

section UserTable

def fieldString : Option UInt64 → CString
  | none => []
  | some colHash => printLu colHash

def widths (hashes : List (Option UInt64)) : List Nat := hashes.map fun hash => (fieldString hash).length

theorem combine_eq : combine hashes = (hashes.map fieldString).flatten := by
  induction hashes with
  | nil => rfl
  | cons hash hashes ih =>
    cases hash with
    | none => exact ih
    | some colHash => rw [combine, ih, map_cons, flatten_cons, fieldString]

theorem fieldString_inj {hash hash' : Option UInt64} (h : fieldString hash = fieldString hash')
    : hash = hash' := by
  cases hash with
  | none =>
    cases hash' with
    | none => rfl
    | some m =>
      have hpos := printLu_length_pos m
      rw [fieldString, fieldString] at h
      rw [← h] at hpos
      cases hpos
  | some n =>
    cases hash' with
    | none =>
      have hpos := printLu_length_pos n
      rw [fieldString, fieldString] at h
      rw [h] at hpos
      cases hpos
    | some m => rw [printLu_inj h]

def onesField (w : Nat) : Option UInt64 := if w = 0 then none else some (UInt64.ofNat (ones w))

theorem fieldString_onesField (hash : Option UInt64)
    : fieldString (onesField (fieldString hash).length) = List.replicate (fieldString hash).length '1' := by
  cases hash with
  | none => rfl
  | some n =>
    have hpos := printLu_length_pos n
    rw [fieldString, onesField, if_neg (by omega)]
    exact exists_printLu rfl

theorem map_onesField : ((widths hashes).map onesField).map fieldString =
      (widths hashes).map (List.replicate · '1') := by
  rw [map_map]
  apply map_congr_left
  intro w hw
  obtain ⟨hash, -, rfl⟩ := mem_map.1 hw
  exact fieldString_onesField hash

theorem widths_onesField : widths ((widths hashes).map onesField) = widths hashes := by
  simp only [widths, map_map]
  apply map_congr_left
  intro hash _
  show (fieldString (onesField (fieldString hash).length)).length = (fieldString hash).length
  rw [fieldString_onesField, length_replicate]

theorem combine_onesField
    : combine ((widths hashes).map onesField) = List.replicate (widths hashes).sum '1' := by
  rw [combine_eq, map_onesField, flatten_replicate_map]

theorem combine_ne {hashes hashes' : List (Option UInt64)} (hne : hashes ≠ hashes')
    (h : widths hashes = widths hashes' ∨ (widths hashes).sum ≠ (widths hashes').sum)
    : combine hashes ≠ combine hashes' := by
  rw [combine_eq, combine_eq]
  apply flatten_ne
  . intro heq
    exact hne (map_injective_iff.2 (fun _ _ => fieldString_inj) heq)
  . rw [map_map, map_map]
    exact h

theorem length_columnHashes (computeHash : Oid → Datum → UInt64) {tabledesc : TupleDesc}
    (row : Row tabledesc) : (columnHashes computeHash tabledesc row).length = tabledesc.length - 1 := by
  rw [columnHashes, length_dropLast, length_zipWith, row.length_eq, Nat.min_self]

theorem zipWith_map_id (values : List (Option Datum)) (h : values.length = tabledesc.length)
    : tabledesc.zipWith (fun _ value => value.map id) values = values := by
  induction tabledesc generalizing values with
  | nil =>
    rw [length_eq_zero_iff.1 h]
    rfl
  | cons atttypid tabledesc ih =>
    cases values with
    | nil => cases h
    | cons value values =>
      rw [zipWith_cons_cons, ih values (Nat.succ.inj h), Option.map_id]
      rfl

theorem exists_row (hashes : List (Option UInt64)) (hlength : hashes.length + 1 = tabledesc.length)
    : ∃ row : Row tabledesc, columnHashes (fun _ value => value) tabledesc row = hashes := by
  refine ⟨⟨hashes ++ [none], ?_⟩, ?_⟩
  . rw [length_append, ← hlength]
    rfl
  . have hzip := zipWith_map_id tabledesc (hashes ++ [none]) (by rw [length_append, ← hlength]; rfl)
    show (tabledesc.zipWith (fun _ value => value.map id) (hashes ++ [none])).dropLast = hashes
    rw [hzip, dropLast_concat]

theorem hashCombineTupleData_ne_iff (computeHash₀ : Oid → Datum → UInt64) (kind kind' : Row tabledesc)
    : (∀ (computeHash : Oid → Datum → UInt64) (row row' : Row tabledesc),
          widths (columnHashes computeHash tabledesc row) =
            widths (columnHashes computeHash₀ tabledesc kind) →
          widths (columnHashes computeHash tabledesc row') =
            widths (columnHashes computeHash₀ tabledesc kind') →
          columnHashes computeHash tabledesc row ≠ columnHashes computeHash tabledesc row' →
          hashCombineTupleData computeHash tabledesc row ≠ hashCombineTupleData computeHash tabledesc row')
        ↔
      (widths (columnHashes computeHash₀ tabledesc kind) =
          widths (columnHashes computeHash₀ tabledesc kind') ∨
        (widths (columnHashes computeHash₀ tabledesc kind)).sum ≠
          (widths (columnHashes computeHash₀ tabledesc kind')).sum) := by
  constructor
  . intro h
    by_contra hcond
    rw [not_or, not_not] at hcond
    obtain ⟨hne, hsum⟩ := hcond
    have hlen : (columnHashes computeHash₀ tabledesc kind).length + 1 = tabledesc.length := by
      have hlen := length_columnHashes computeHash₀ kind
      have hlen' := length_columnHashes computeHash₀ kind'
      by_contra hzero
      apply hne
      rw [length_eq_zero_iff.1 (show (columnHashes computeHash₀ tabledesc kind).length = 0 by omega),
        length_eq_zero_iff.1 (show (columnHashes computeHash₀ tabledesc kind').length = 0 by omega)]
    have hlen' : (columnHashes computeHash₀ tabledesc kind').length + 1 = tabledesc.length := by
      rw [length_columnHashes] at hlen ⊢
      exact hlen
    obtain ⟨row, hrow⟩ := exists_row tabledesc
      ((widths (columnHashes computeHash₀ tabledesc kind)).map onesField)
      (by rw [length_map, widths, length_map, hlen])
    obtain ⟨row', hrow'⟩ := exists_row tabledesc
      ((widths (columnHashes computeHash₀ tabledesc kind')).map onesField)
      (by rw [length_map, widths, length_map, hlen'])
    apply h _ row row'
    . rw [hrow, widths_onesField]
    . rw [hrow', widths_onesField]
    . intro heq
      apply hne
      rw [hrow, hrow'] at heq
      have hwidths := congrArg widths heq
      rw [widths_onesField, widths_onesField] at hwidths
      exact hwidths
    . rw [hashCombineTupleData, hashCombineTupleData, hrow, hrow', combine_onesField, combine_onesField, hsum]
  . intro hcond computeHash row row' hrow hrow' hne
    apply combine_ne hne
    rw [hrow, hrow']
    exact hcond

end UserTable

section History

def HistRecord.fields (record : HistRecord) : List CString :=
  [printLu record.recNum, printLu record.hashIns, printLu record.hashDel]

def HistRecord.widths (record : HistRecord) : List Nat := record.fields.map List.length

theorem HistRecord.fields_inj {record record' : HistRecord} (h : record.fields = record'.fields)
    : record = record' := by
  simp only [HistRecord.fields, List.cons.injEq, and_true] at h
  obtain ⟨hnum, hins, hdel⟩ := h
  cases record
  cases record'
  simp only [HistRecord.mk.injEq]
  exact ⟨printLu_inj hnum, printLu_inj hins, printLu_inj hdel⟩

theorem fillHistBlock_eq (relName : CString) (record : HistRecord)
    : fillHistBlock relName record = record.fields.flatten ++ relName := by
  simp [fillHistBlock, genHistTupleString, HistRecord.fields]

def HistRecord.ones (kind : HistRecord) : HistRecord where
  recNum := UInt64.ofNat (Ledger.ones (printLu kind.recNum).length)
  hashIns := UInt64.ofNat (Ledger.ones (printLu kind.hashIns).length)
  hashDel := UInt64.ofNat (Ledger.ones (printLu kind.hashDel).length)

theorem HistRecord.fields_ones (kind : HistRecord)
    : kind.ones.fields = kind.widths.map (List.replicate · '1') := by
  simp [HistRecord.ones, HistRecord.widths, HistRecord.fields, exists_printLu rfl]

theorem map_length_replicate (lengths : List Nat)
    : (lengths.map (List.replicate · '1')).map List.length = lengths := by
  rw [map_map]
  conv => rhs; rw [← map_id lengths]
  apply map_congr_left
  intro n _
  exact length_replicate

theorem fillHistBlock_ne_iff (relName : CString) (kind kind' : HistRecord)
    : (∀ record record' : HistRecord, record.widths = kind.widths → record'.widths = kind'.widths →
          record ≠ record' → fillHistBlock relName record ≠ fillHistBlock relName record')
        ↔
      (kind.widths = kind'.widths ∨ kind.widths.sum ≠ kind'.widths.sum) := by
  constructor
  . intro h
    by_contra hcond
    rw [not_or, not_not] at hcond
    obtain ⟨hne, hsum⟩ := hcond
    apply h kind.ones kind'.ones
    . rw [HistRecord.widths, HistRecord.fields_ones, map_length_replicate]
    . rw [HistRecord.widths, HistRecord.fields_ones, map_length_replicate]
    . intro heq
      apply hne
      have hfields := congrArg (fun record => record.fields.map List.length) heq
      simp only [HistRecord.fields_ones, map_length_replicate] at hfields
      exact hfields
    . rw [fillHistBlock_eq, fillHistBlock_eq, HistRecord.fields_ones, HistRecord.fields_ones,
        flatten_replicate_map, flatten_replicate_map, hsum]
  . intro hcond record record' hrecord hrecord' hne heq
    rw [fillHistBlock_eq, fillHistBlock_eq, append_left_inj] at heq
    apply flatten_ne (fun hfields => hne (HistRecord.fields_inj hfields)) _ heq
    show record.widths = record'.widths ∨ record.widths.sum ≠ record'.widths.sum
    rw [hrecord, hrecord']
    exact hcond

end History

section GlobalChain

def GchainBlock.fields (block : GchainBlock) : List CString :=
  [block.dbName, block.userName, block.nspName, block.relName, block.cmdText, printLu block.relHash]

def GchainBlock.widths (block : GchainBlock) : List Nat := block.fields.map List.length

theorem GchainBlock.fields_inj {block block' : GchainBlock} (h : block.fields = block'.fields)
    : block = block' := by
  simp only [GchainBlock.fields, List.cons.injEq, and_true] at h
  obtain ⟨hdb, huser, hnsp, hrel, hcmd, hhash⟩ := h
  cases block
  cases block'
  simp only [GchainBlock.mk.injEq]
  exact ⟨hdb, huser, hnsp, hrel, hcmd, printLu_inj hhash⟩

theorem GchainBlock.combString_eq (block : GchainBlock) : block.combString = block.fields.flatten := by
  simp [GchainBlock.combString, setGchainCombString, GchainBlock.fields]

def GchainBlock.ones (kind : GchainBlock) : GchainBlock where
  dbName := List.replicate kind.dbName.length '1'
  userName := List.replicate kind.userName.length '1'
  nspName := List.replicate kind.nspName.length '1'
  relName := List.replicate kind.relName.length '1'
  cmdText := List.replicate kind.cmdText.length '1'
  relHash := UInt64.ofNat (Ledger.ones (printLu kind.relHash).length)

theorem GchainBlock.fields_ones (kind : GchainBlock)
    : kind.ones.fields = kind.widths.map (List.replicate · '1') := by
  simp [GchainBlock.ones, GchainBlock.widths, GchainBlock.fields, exists_printLu rfl]

theorem combString_ne_iff (kind kind' : GchainBlock)
    : (∀ block block' : GchainBlock, block.widths = kind.widths → block'.widths = kind'.widths →
          block ≠ block' → block.combString ≠ block'.combString)
        ↔
      (kind.widths = kind'.widths ∨ kind.widths.sum ≠ kind'.widths.sum) := by
  constructor
  . intro h
    by_contra hcond
    rw [not_or, not_not] at hcond
    obtain ⟨hne, hsum⟩ := hcond
    apply h kind.ones kind'.ones
    . rw [GchainBlock.widths, GchainBlock.fields_ones, map_length_replicate]
    . rw [GchainBlock.widths, GchainBlock.fields_ones, map_length_replicate]
    . intro heq
      apply hne
      have hfields := congrArg (fun block => block.fields.map List.length) heq
      simp only [GchainBlock.fields_ones, map_length_replicate] at hfields
      exact hfields
    . rw [GchainBlock.combString_eq, GchainBlock.combString_eq, GchainBlock.fields_ones,
        GchainBlock.fields_ones, flatten_replicate_map, flatten_replicate_map, hsum]
  . intro hcond block block' hblock hblock' hne heq
    rw [GchainBlock.combString_eq, GchainBlock.combString_eq] at heq
    apply flatten_ne (fun hfields => hne (GchainBlock.fields_inj hfields)) _ heq
    show block.widths = block'.widths ∨ block.widths.sum ≠ block'.widths.sum
    rw [hblock, hblock']
    exact hcond

end GlobalChain

theorem digestStrings_ne_iff (tabledesc : TupleDesc) (computeHash₀ : Oid → Datum → UInt64)
    (row₀ row₀' : Row tabledesc) (relName : CString) (record₀ record₀' : HistRecord)
      (block₀ block₀' : GchainBlock)
    : ((∀ (computeHash : Oid → Datum → UInt64) (row row' : Row tabledesc),
            widths (columnHashes computeHash tabledesc row) =
              widths (columnHashes computeHash₀ tabledesc row₀) →
            widths (columnHashes computeHash tabledesc row') =
              widths (columnHashes computeHash₀ tabledesc row₀') →
            columnHashes computeHash tabledesc row ≠ columnHashes computeHash tabledesc row' →
            hashCombineTupleData computeHash tabledesc row ≠
              hashCombineTupleData computeHash tabledesc row')
          ↔
        (widths (columnHashes computeHash₀ tabledesc row₀) =
            widths (columnHashes computeHash₀ tabledesc row₀') ∨
          (widths (columnHashes computeHash₀ tabledesc row₀)).sum ≠
            (widths (columnHashes computeHash₀ tabledesc row₀')).sum)) ∧
      ((∀ record record' : HistRecord, record.widths = record₀.widths → record'.widths = record₀'.widths →
            record ≠ record' → fillHistBlock relName record ≠ fillHistBlock relName record')
          ↔
        (record₀.widths = record₀'.widths ∨ record₀.widths.sum ≠ record₀'.widths.sum)) ∧
      ((∀ block block' : GchainBlock, block.widths = block₀.widths → block'.widths = block₀'.widths →
            block ≠ block' → block.combString ≠ block'.combString)
          ↔
        (block₀.widths = block₀'.widths ∨ block₀.widths.sum ≠ block₀'.widths.sum)) :=
  ⟨hashCombineTupleData_ne_iff tabledesc computeHash₀ row₀ row₀',
    fillHistBlock_ne_iff relName record₀ record₀',
    combString_ne_iff block₀ block₀'⟩

theorem digestStrings_collide
    : ¬ ((∀ (tabledesc : TupleDesc) (computeHash : Oid → Datum → UInt64) (row row' : Row tabledesc),
          columnHashes computeHash tabledesc row ≠ columnHashes computeHash tabledesc row' →
          hashCombineTupleData computeHash tabledesc row ≠
            hashCombineTupleData computeHash tabledesc row') ∧
        (∀ (relName : CString) (record record' : HistRecord), record ≠ record' →
          fillHistBlock relName record ≠ fillHistBlock relName record') ∧
        (∀ block block' : GchainBlock, block ≠ block' → block.combString ≠ block'.combString)) := by
  rintro ⟨hrow, -, -⟩
  apply hrow [20, 20, 5545] (fun _ value => value) ⟨[some 1, some 23, none], rfl⟩
    ⟨[some 12, some 3, none], rfl⟩
  . decide
  . decide

end Ledger
