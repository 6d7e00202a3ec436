import OpenGauss.Lib.Layout
import OpenGauss.ShortXid.Impl
import OpenGauss.Ustore.Page.Impl

/-!
This module contains the tuples of Ustore and the payloads of the undo records of deletes and
updates: how `knl_uheap.cpp` writes them and how `knl_undoaction.cpp` and `knl_uvisibility.cpp` read
the old tuple out of them.

A tuple is the list of its bytes. The first eleven of them are its header.
-/

namespace Ustore

open ShortXid (frozenTransactionId)

section Tuple

structure UHeapDiskTupleHeader where
  xid : UInt32
  tdId : UInt8
  reserved : UInt8
  flag : UInt16
  flag2 : UInt16
  tHoff : UInt8
  deriving DecidableEq

instance : Layout UHeapDiskTupleHeader :=
  Layout.ofTuple (fun h => (h.xid, h.tdId, h.reserved, h.flag, h.flag2, h.tHoff))
    (fun ⟨xid, tdId, reserved, flag, flag2, tHoff⟩ => ⟨xid, tdId, reserved, flag, flag2, tHoff⟩)
    (fun _ => rfl) (fun _ => rfl)

def sizeOfUHeapDiskTupleData : Nat := 11
def offsetTdId : Nat := 4
def uheaptupSlotFrozen : UInt8 := 0

def uheapDeleted : UInt16 := 0x0010
def uheapInplaceUpdated : UInt16 := 0x0020
def uheapUpdated : UInt16 := 0x0040
def uheapXidExclLock : UInt16 := 0x0400
def uheapInvalidXactSlot : UInt16 := 0x1000
def singleLockerXidIsTrans : UInt16 := 0x8000
def uheapMoved : UInt16 := uheapDeleted ||| uheapUpdated
def uheapVisStatusMask : UInt16 := 0xFFF0
def uheapNattsMask : UInt16 := 0x07FF

def diskTupleHeader (tup : Bytes) : UHeapDiskTupleHeader :=
  Layout.ofBytes (tup.take sizeOfUHeapDiskTupleData)

def withHeader (tup : Bytes) (header : UHeapDiskTupleHeader) : Bytes :=
  Layout.toBytes header ++ tup.drop sizeOfUHeapDiskTupleData

def tHoff (tup : Bytes) : Nat := (diskTupleHeader tup).tHoff.toNat

def userData (tup : Bytes) : Bytes := tup.drop (tHoff tup)

def uheapTupleHeaderSetNatts (flag2 natts : UInt16) : UInt16 := (flag2 &&& ~~~uheapNattsMask) ||| natts

def setModified (header : UHeapDiskTupleHeader) (tdSlot : UInt8) (infomask : UInt16) (tupleXid : UInt32)
    : UHeapDiskTupleHeader :=
  { header with
    xid := tupleXid
    tdId := tdSlot
    flag := (header.flag &&& ~~~uheapVisStatusMask) ||| infomask ||| singleLockerXidIsTrans }

-- The row after an update in place; its pointer keeps the longer of the two lengths.
def putInplaceUpdateTuple (oldtup newtup : Bytes) : Bytes :=
  let header := diskTupleHeader oldtup
  let newHeader := diskTupleHeader newtup
  Layout.toBytes { header with
      flag := (header.flag &&& uheapVisStatusMask) ||| (newHeader.flag &&& ~~~uheapVisStatusMask)
      flag2 := uheapTupleHeaderSetNatts header.flag2 (newHeader.flag2 &&& uheapNattsMask)
      tHoff := newHeader.tHoff }
    ++ newtup.drop sizeOfUHeapDiskTupleData ++ oldtup.drop newtup.length

end Tuple

section Records

inductive UndoType where
  | insert
  | delete
  | inplaceUpdate
  | update
  deriving DecidableEq, Repr

structure UndoRecord where
  utype : UndoType
  offset : Nat
  containSubXact : Bool
  rawdata : Bytes
  deriving DecidableEq

def sizeOfSubTransactionId : Nat := 8
def sizeOfItemPointerData : Nat := 6
def sizeOfUint16 : Nat := 2
def minSavingLen : Nat := 3
def urecInplaceUpdateXorPrefix : UInt8 := 0x01
def urecInplaceUpdateXorSuffix : UInt8 := 0x02

def subxidBytes (subxid : Option Nat) : Bytes :=
  match subxid with
  | some subxid => LittleEndian.encode sizeOfSubTransactionId subxid
  | none => []

def prepareUndoDelete (oldtup : Bytes) (offnum : Nat) (subxid : Option Nat) : UndoRecord where
  utype := .delete
  offset := offnum
  containSubXact := subxid.isSome
  rawdata := oldtup.drop offsetTdId ++ subxidBytes subxid

def prepareUndoUpdate (oldtup : Bytes) (offnum : Nat) (ctid : Bytes) (subxid : Option Nat)
    : UndoRecord where
  utype := .update
  offset := offnum
  containSubXact := subxid.isSome
  rawdata := oldtup.drop offsetTdId ++ ctid ++ subxidBytes subxid

def commonLen : Nat → Bytes → Bytes → Nat
  | bound + 1, a :: as, b :: bs => if a = b then commonLen bound as bs + 1 else 0
  | _, _, _ => 0

def savingLen (len : Nat) : Nat := if len < minSavingLen then 0 else len

structure XorDelta where
  prefixlen : Nat
  suffixlen : Nat

def xorDelta (oldtup newtup : Bytes) (logicallyLogged : Bool) : XorDelta :=
  if newtup.length = oldtup.length ∧ !logicallyLogged then
    let oldp := userData oldtup
    let newp := userData newtup
    let minlen := min oldp.length newp.length
    let prefixlen := savingLen (commonLen minlen oldp newp)
    let suffixlen := savingLen (commonLen (minlen - prefixlen) oldp.reverse newp.reverse)
    ⟨prefixlen, suffixlen⟩
  else
    ⟨0, 0⟩

namespace XorDelta

def flags (delta : XorDelta) : UInt8 :=
  (if 0 < delta.prefixlen then urecInplaceUpdateXorPrefix else 0) |||
    (if 0 < delta.suffixlen then urecInplaceUpdateXorSuffix else 0)

def lengths (delta : XorDelta) : Bytes :=
  (if 0 < delta.prefixlen then LittleEndian.encode sizeOfUint16 delta.prefixlen else []) ++
    (if 0 < delta.suffixlen then LittleEndian.encode sizeOfUint16 delta.suffixlen else [])

end XorDelta

def prepareUndoInplaceUpdate (oldtup newtup : Bytes) (offnum : Nat) (subxid : Option Nat)
    (logicallyLogged : Bool) : UndoRecord where
  utype := .inplaceUpdate
  offset := offnum
  containSubXact := subxid.isSome
  rawdata :=
    let delta := xorDelta oldtup newtup logicallyLogged
    let oldp := userData oldtup
    [(diskTupleHeader oldtup).tHoff] ++ (oldtup.take (tHoff oldtup)).drop offsetTdId ++
      [delta.flags] ++ delta.lengths ++
      (oldp.drop delta.prefixlen).take (oldp.length - delta.prefixlen - delta.suffixlen) ++
      subxidBytes subxid

end Records

section Decoders

def frozenShortXid : Bytes := LittleEndian.encode offsetTdId 2

def extraDataLen (urec : UndoRecord) : Nat :=
  (if urec.utype = .update then sizeOfItemPointerData else 0) +
    (if urec.containSubXact then sizeOfSubTransactionId else 0)

def readUint16 (bs : Bytes) (pos : Nat) : Nat := LittleEndian.decode ((bs.drop pos).take sizeOfUint16)

/-
The old tuple that `CopyTupleFromUndoRecord` and `GetTupleFromUndoRecord` build from the payload of an
update in place and the tuple above it.
-/
def oldDisktuple (urec : UndoRecord) (diskTuple : Bytes) : Bytes :=
  let undoData := urec.rawdata
  let subxidSize := if urec.containSubXact then sizeOfSubTransactionId else 0
  let hoff := (undoData.getD 0 0).toNat
  let flags := undoData.getD (1 + hoff - offsetTdId) 0
  let readSize := 1 + hoff - offsetTdId + 1
  let hasPrefix := flags &&& urecInplaceUpdateXorPrefix != 0
  let hasSuffix := flags &&& urecInplaceUpdateXorSuffix != 0
  let prefixlen := if hasPrefix then readUint16 undoData readSize else 0
  let readSize := if hasPrefix then readSize + sizeOfUint16 else readSize
  let suffixlen := if hasSuffix then readUint16 undoData readSize else 0
  let readSize := if hasSuffix then readSize + sizeOfUint16 else readSize
  let oldDataLen := undoData.length - readSize - subxidSize
  frozenShortXid ++ (undoData.drop 1).take (hoff - offsetTdId) ++
    (diskTuple.drop (tHoff diskTuple)).take prefixlen ++
    (undoData.drop readSize).take oldDataLen ++
    (diskTuple.drop (diskTuple.length - suffixlen)).take suffixlen

-- `none` is a PANIC.
def copyTupleFromUndoRecord (urec : UndoRecord) (page : UPage) : Option UPage :=
  let rp := page.rowPtrs urec.offset
  if urec.offset = invalidOffsetNumber || !rp.isNormal then
    none
  else
    match urec.utype with
    | .delete | .update =>
      let undoTupleLen := urec.rawdata.length - extraDataLen urec
      let newTupleLength := undoTupleLen + offsetTdId
      let page := page.setRowData urec.offset (frozenShortXid ++ urec.rawdata.take undoTupleLen)
      some (page.recordPotentialFreeSpace (-(shortAlign newTupleLength)))
    | .inplaceUpdate =>
      some (page.setRowData urec.offset (oldDisktuple urec (page.rowData urec.offset)))
    | .insert => none

-- The old transaction id of an undo record and, when it is executed, the transactions in the TD slots.
structure UndoXact where
  oldXactId : Nat
  slotXids : List Nat

-- `none` is the PANIC for a slot that the page does not have.
def getTDSlotInfo (slotXids : List Nat) (tdId : UInt8) : Option Nat :=
  if tdId = uheaptupSlotFrozen then some 0 else slotXids[tdId.toNat - 1]?

def restoreXactFromUndoRecord (xact : UndoXact) (tuple : Bytes) : Option Bytes := do
  let header := diskTupleHeader tuple
  let xid ← getTDSlotInfo xact.slotXids header.tdId
  if xact.oldXactId = frozenTransactionId || header.tdId = uheaptupSlotFrozen then
    return withHeader tuple { header with tdId := uheaptupSlotFrozen }
  else if xact.oldXactId ≠ xid then
    return withHeader tuple { header with flag := header.flag ||| uheapInvalidXactSlot }
  else
    return tuple

-- One record of a delete or an update in the loop of `UHeapUndoActions`.
def uheapUndoAction (page : UPage) (undo : UndoRecord × UndoXact) : Option UPage := do
  let page ← copyTupleFromUndoRecord undo.1 page
  let tuple ← restoreXactFromUndoRecord undo.2 (page.rowData undo.1.offset)
  return page.setRowData undo.1.offset tuple

def uheapUndoActions (page : UPage) (undos : List (UndoRecord × UndoXact)) : Option UPage :=
  undos.foldlM uheapUndoAction page

-- The tuple below `tuple` in the chain of versions, as `GetTupleFromUndoRecord` builds it.
def getTupleFromUndoRecord (urec : UndoRecord) (tuple : Bytes) : Bytes :=
  match urec.utype with
  | .update | .delete =>
    let undoDataLen := urec.rawdata.length - extraDataLen urec
    frozenShortXid ++ urec.rawdata.take undoDataLen
  | .inplaceUpdate => oldDisktuple urec tuple
  | .insert => tuple

end Decoders

section Operations

/-
The changes that an operation makes to the page of a row. The TD slot has been reserved before, and
`tupleXid` is the short form of the transaction id.
-/

def uheapDelete (page : UPage) (offnum : Nat) (tdSlot : UInt8) (tupleXid : UInt32)
    (subxid : Option Nat) (changingPart : Bool) : UPage × UndoRecord :=
  let oldtup := page.rowData offnum
  let header := setModified (diskTupleHeader oldtup) tdSlot (uheapDeleted ||| uheapXidExclLock) tupleXid
  let header := if changingPart then { header with flag := header.flag ||| uheapMoved } else header
  let page := page.recordPotentialFreeSpace (shortAlign oldtup.length)
  (page.setRowData offnum (withHeader oldtup header), prepareUndoDelete oldtup offnum subxid)

def uheapUpdateInplace (page : UPage) (offnum : Nat) (newtup : Bytes) (tdSlot : UInt8)
    (tupleXid : UInt32) (subxid : Option Nat) (logicallyLogged : Bool) : UPage × UndoRecord :=
  let oldtup := page.rowData offnum
  let header := setModified (diskTupleHeader oldtup) tdSlot (uheapXidExclLock ||| uheapInplaceUpdated)
    tupleXid
  (page.setRowData offnum (putInplaceUpdateTuple (withHeader oldtup header) newtup),
    prepareUndoInplaceUpdate oldtup newtup offnum subxid logicallyLogged)

-- The part of an update that is not in place that touches the old tuple.
def uheapUpdate (page : UPage) (offnum : Nat) (ctid : Bytes) (tdSlot : UInt8) (tupleXid : UInt32)
    (subxid : Option Nat) : UPage × UndoRecord :=
  let oldtup := page.rowData offnum
  let header := setModified (diskTupleHeader oldtup) tdSlot (uheapXidExclLock ||| uheapUpdated) tupleXid
  let page := page.recordPotentialFreeSpace (shortAlign oldtup.length)
  (page.setRowData offnum (withHeader oldtup header), prepareUndoUpdate oldtup offnum ctid subxid)

end Operations

end Ustore
