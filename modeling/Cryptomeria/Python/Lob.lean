import Cryptomeria.Lib.Dict
import Cryptomeria.Num.F64

/-!
# The parquet reader

`lob.py`. The generator holds two dictionaries, which it changes with every row, and yields copies
of them. A dictionary is an object that others can hold too, so the objects stand in a heap and what
is yielded has references. The loop of the caller runs between the rows: it takes what is yielded
(`take`), with the heap as it is at that moment.

A price is never NaN. The timestamps are unsigned on both sides of the reader. The count of consumed
rows and the progress that is printed from it are left out.
-/

set_option autoImplicit false

namespace Cryptomeria
namespace Python

/-- `dict[float, float]`; an amount can be null. -/
abbrev LevelDict := Dict F64 (Option F64)

/-- The columns of a row that the reader looks at. -/
structure Row where
  ts : ℕ
  action : Option String
  priceAsk : Option F64
  amountAsk : Option F64
  priceBid : Option F64
  amountBid : Option F64

/-- `row["action"] == "snapshot"` -/
def Row.isSnapshot (row : Row) : Bool := row.action = some "snapshot"

/-- `_apply_level` -/
def applyLevel (levels : LevelDict) (price amount : Option F64) (isSnapshot : Bool) : LevelDict :=
  match price with
  | none => levels
  | some price =>
    if isSnapshot then levels.set price amount
    else if amount.any fun a => a.eq F64.zero then levels.pop price
    else levels.set price amount

/-! ## The generator -/

/-- An object is referred to by its place in the heap. -/
abbrev Heap := List LevelDict

def Heap.read (heap : Heap) (ref : ℕ) : LevelDict := heap[ref]?.getD .empty

/-- The objects `bids` and `asks` of the generator. -/
def bidsRef : ℕ := 0

def asksRef : ℕ := 1

/-- What is yielded. -/
structure Snapshot where
  ts : ℕ
  bids : ℕ
  asks : ℕ

structure Reader where
  heap : Heap := [.empty, .empty]
  currentTs : Option ℕ := none
  snapshotCleared : Bool := false

namespace Reader

/-- `{"ts": ts, "bids": dict(bids), "asks": dict(asks)}` -/
def copy (ts : ℕ) (r : Reader) : Reader × Snapshot :=
  let heap := r.heap ++ [r.heap.read bidsRef]
  let heap := heap ++ [heap.read asksRef]
  ({ r with heap }, { ts, bids := r.heap.length, asks := r.heap.length + 1 })

/-- The first part of the loop body: a row with another timestamp ends the run before it. -/
def boundary (row : Row) (r : Reader) : Reader × Option Snapshot :=
  match r.currentTs with
  | some ts =>
    if row.ts ≠ ts then
      let (r, snapshot) := r.copy ts
      ({ r with snapshotCleared := false }, some snapshot)
    else (r, none)
  | none => (r, none)

/-- Replaces what an object holds. -/
def modify (ref : ℕ) (f : LevelDict → LevelDict) (r : Reader) : Reader :=
  { r with heap := r.heap.set ref (f (r.heap.read ref)) }

/-- `bids.clear()` and `asks.clear()` -/
def clear (r : Reader) : Reader :=
  (r.modify bidsRef fun _ => .empty).modify asksRef fun _ => .empty

/-- The two calls of `_apply_level`. -/
def applyRow (row : Row) (r : Reader) : Reader :=
  (r.modify asksRef fun asks => applyLevel asks row.priceAsk row.amountAsk row.isSnapshot).modify
    bidsRef fun bids => applyLevel bids row.priceBid row.amountBid row.isSnapshot

/-- The rest of the loop body. -/
def consume (row : Row) (r : Reader) : Reader :=
  let r := { r with currentTs := some row.ts }
  if row.isSnapshot && !r.snapshotCleared then
    { r.clear with snapshotCleared := true }.applyRow row
  else r.applyRow row

section Loop

variable {W : Type} (take : W → Heap → Snapshot → W)

/-- A row, and the body of the caller's loop when it makes the generator yield. -/
def next (st : Reader × W) (row : Row) : Reader × W :=
  let (r, snapshot) := st.1.boundary row
  let w := snapshot.elim st.2 (take st.2 r.heap)
  (r.consume row, w)

/-- The last run is yielded when the rows are at an end. -/
def finish (st : Reader × W) : Reader × W :=
  match st.1.currentTs with
  | some ts =>
    let (r, snapshot) := st.1.copy ts
    (r, take st.2 r.heap snapshot)
  | none => st

end Loop

end Reader

/-- `for snapshot in _read_lob_iter(path): ...`, with the batches of the file. -/
def readLobIter {W : Type} (take : W → Heap → Snapshot → W) (w : W) (batches : List (List Row)) :
    Reader × W :=
  Reader.finish take
    (batches.foldl (fun st batch => batch.foldl (Reader.next take) st) ({}, w))

/-! ## The writer -/

/-- A row of the LOB2 schema. -/
structure Lob2Row where
  ts : ℕ
  bids : String
  asks : String
deriving DecidableEq

section Writer

-- `json.dumps([{"px": p, "sz": a} for p, a in levels])`
variable (dumps : List (F64 × Option F64) → String)

/-- `_snapshot_to_row` -/
def snapshotToRow (heap : Heap) (snapshot : Snapshot) : Lob2Row :=
  { ts := snapshot.ts
    bids := dumps (heap.read snapshot.bids).descending
    asks := dumps (heap.read snapshot.asks).ascending }

structure Writer where
  buffer : List Lob2Row := []
  /-- The tables written so far; `none` while no file is open. -/
  tables : Option (List (List Lob2Row)) := none

/-- `writer.write_table(table)`, opening the file if needed, and `buffer.clear()`. -/
def Writer.flush (w : Writer) : Writer :=
  { buffer := [], tables := some (w.tables.getD [] ++ [w.buffer]) }

/-- The body of the loop of `rebuild_to_lob2`. -/
def Writer.take (flushSize : ℕ) (w : Writer) (heap : Heap) (snapshot : Snapshot) : Writer :=
  let w := { w with buffer := w.buffer ++ [snapshotToRow dumps heap snapshot] }
  if w.buffer.length ≥ flushSize then w.flush else w

/-- `rebuild_to_lob2`; the flush size is 100000 there. -/
def rebuildToLob2 (flushSize : ℕ) (batches : List (List Row)) : Writer :=
  let w := (readLobIter (Writer.take dumps flushSize) {} batches).2
  if w.buffer.isEmpty then w else w.flush

end Writer

end Python
end Cryptomeria
