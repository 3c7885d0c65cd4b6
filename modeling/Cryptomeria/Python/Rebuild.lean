import Cryptomeria.Python.Lob

/-!
# What the reader yields

The specification of `_read_lob_iter` says nothing of flags: split the rows into runs of equal
timestamps; the book after a run is made of its rows from the first snapshot row on, or, without
one, of its rows on the book before it. The generator yields these books, one for each run, and the
writer writes them, however the rows are batched (`rebuild_spec`). What has been yielded is a copy,
so it is the same at every later yield.
-/

set_option autoImplicit false

namespace Cryptomeria
namespace Python

/-! ## The specification -/

structure Book where
  bids : LevelDict
  asks : LevelDict

namespace Book

def empty : Book := { bids := .empty, asks := .empty }

def applyRow (b : Book) (row : Row) : Book where
  bids := applyLevel b.bids row.priceBid row.amountBid row.isSnapshot
  asks := applyLevel b.asks row.priceAsk row.amountAsk row.isSnapshot

/-- The book after a run of rows. -/
def after (previous : Book) (run : List Row) : Book :=
  if run.any Row.isSnapshot then
    (run.dropWhile fun row => !row.isSnapshot).foldl applyRow empty
  else run.foldl applyRow previous

end Book

/-- Maximal runs of rows with equal timestamps. -/
def runs (rows : List Row) : List (List Row) := rows.splitBy fun row row' => row.ts == row'.ts

/-- The timestamp of a run. -/
def runTs : List Row → ℕ
  | [] => 0
  | row :: _ => row.ts

/-- The timestamp and the book of every run. -/
def booksOf (previous : Book) : List (List Row) → List (ℕ × Book)
  | [] => []
  | run :: rest => (runTs run, previous.after run) :: booksOf (previous.after run) rest

theorem ts_of_mem_runs {rows run : List Row} (h : run ∈ runs rows) :
    run ≠ [] ∧ ∀ row ∈ run, row.ts = runTs run := by
  refine ⟨List.ne_nil_of_mem_splitBy h, ?_⟩
  have hchain : run.IsChain fun row row' => row.ts = row'.ts := by
    simpa using List.isChain_of_mem_splitBy h
  have : IsTrans Row fun row row' => row.ts = row'.ts := ⟨fun _ _ _ h h' => h.trans h'⟩
  cases run with
  | nil => simp
  | cons row rest =>
    have hall := List.pairwise_cons.mp hchain.pairwise
    intro row' hrow'
    rcases List.mem_cons.mp hrow' with rfl | hrest
    · rfl
    · exact (hall.1 row' hrest).symm

theorem isChain_runs (rows : List Row) :
    (runs rows).IsChain fun run run' => runTs run ≠ runTs run' := by
  refine (List.isChain_getLast_head_splitBy _ rows).imp_of_mem_imp ?_
  rintro run run' hrun hrun' ⟨hne, hne', hts⟩ heq
  have hlast := (ts_of_mem_runs hrun).2 _ (List.getLast_mem hne)
  have hhead := (ts_of_mem_runs hrun').2 _ (List.head_mem hne')
  rw [beq_eq_false_iff_ne, hlast, hhead] at hts
  exact hts heq

/-! ## The heap -/

theorem Heap.read_append {heap : Heap} {ref : ℕ} (h : ref < heap.length) (copies : Heap) :
    Heap.read (heap ++ copies) ref = heap.read ref := by
  rw [read, read, List.getElem?_append_left h]

theorem Heap.read_append_self (heap : Heap) (d : LevelDict) :
    Heap.read (heap ++ [d]) heap.length = d := by
  simp [read]

theorem Heap.read_set_self {heap : Heap} {ref : ℕ} (h : ref < heap.length) (d : LevelDict) :
    Heap.read (heap.set ref d) ref = d := by
  simp [read, h]

theorem Heap.read_set_ne {heap : Heap} {ref ref' : ℕ} (h : ref ≠ ref') (d : LevelDict) :
    Heap.read (heap.set ref d) ref' = heap.read ref' := by
  rw [read, read, List.getElem?_set_ne h]

/-- What a yielded dictionary holds. -/
def Snapshot.contents (snapshot : Snapshot) (heap : Heap) : ℕ × Book :=
  (snapshot.ts, { bids := heap.read snapshot.bids, asks := heap.read snapshot.asks })

/-- The yielded dictionaries are objects, and others than the two of the generator. -/
def Snapshot.Copied (snapshot : Snapshot) (heap : Heap) : Prop :=
  (asksRef < snapshot.bids ∧ snapshot.bids < heap.length) ∧
    asksRef < snapshot.asks ∧ snapshot.asks < heap.length

/-- The objects other than the two of the generator stay as they are. -/
def Frozen (heap heap' : Heap) : Prop :=
  heap.length ≤ heap'.length ∧
    ∀ ref, asksRef < ref → ref < heap.length → heap'.read ref = heap.read ref

theorem Frozen.refl (heap : Heap) : Frozen heap heap := ⟨le_rfl, fun _ _ _ => rfl⟩

theorem Frozen.trans {heap heap' heap'' : Heap} (h : Frozen heap heap') (h' : Frozen heap' heap'') :
    Frozen heap heap'' := by
  refine ⟨h.1.trans h'.1, ?_⟩
  intro ref hcopy hlt
  rw [h'.2 ref hcopy (hlt.trans_le h.1), h.2 ref hcopy hlt]

theorem Frozen.append (heap copies : Heap) : Frozen heap (heap ++ copies) := by
  refine ⟨by simp, ?_⟩
  intro ref _ hlt
  exact Heap.read_append hlt copies

theorem Frozen.set (heap : Heap) {ref : ℕ} (h : ref ≤ asksRef) (d : LevelDict) :
    Frozen heap (heap.set ref d) := by
  refine ⟨by simp, ?_⟩
  intro ref' hcopy _
  exact Heap.read_set_ne (by omega) d

/-- What has been yielded is not changed by what the generator does to its own objects. -/
theorem Snapshot.Copied.contents_eq {snapshot : Snapshot} {heap heap' : Heap}
    (h : snapshot.Copied heap) (hfrozen : Frozen heap heap') :
    snapshot.contents heap' = snapshot.contents heap := by
  rw [contents, contents, hfrozen.2 _ h.1.1 h.1.2, hfrozen.2 _ h.2.1 h.2.2]

/-! ## The reader -/

namespace Reader

/-- Both objects of the generator are there. -/
def Wf (r : Reader) : Prop := asksRef < r.heap.length

theorem wf_start : Wf {} := Nat.one_lt_two

/-- The book that the generator holds. -/
def book (r : Reader) : Book := { bids := r.heap.read bidsRef, asks := r.heap.read asksRef }

/-- What is yielded when the current run ends. -/
def pending (r : Reader) : Option (ℕ × Book) := r.currentTs.map fun ts => (ts, r.book)

variable {r : Reader} {row : Row} {ts : ℕ}

/-! ### Changing an object -/

theorem wf_modify (h : r.Wf) (ref : ℕ) (f : LevelDict → LevelDict) : (r.modify ref f).Wf := by
  simpa [Wf, modify] using h

theorem frozen_modify {ref : ℕ} (href : ref ≤ asksRef) (f : LevelDict → LevelDict) :
    Frozen r.heap (r.modify ref f).heap := Frozen.set r.heap href _

theorem book_modify_bids (h : r.Wf) (f : LevelDict → LevelDict) :
    (r.modify bidsRef f).book = { r.book with bids := f r.book.bids } := by
  have hbids : bidsRef < r.heap.length := lt_trans Nat.zero_lt_one h
  have hne : bidsRef ≠ asksRef := by decide
  simp only [book, modify, Heap.read_set_self hbids, Heap.read_set_ne hne]

theorem book_modify_asks (h : r.Wf) (f : LevelDict → LevelDict) :
    (r.modify asksRef f).book = { r.book with asks := f r.book.asks } := by
  have hne : asksRef ≠ bidsRef := by decide
  simp only [book, modify, Heap.read_set_self h, Heap.read_set_ne hne]

theorem book_applyRow (h : r.Wf) (row : Row) : (r.applyRow row).book = r.book.applyRow row := by
  rw [applyRow, book_modify_bids (wf_modify h _ _), book_modify_asks h]
  rfl

theorem frozen_applyRow (row : Row) (r : Reader) : Frozen r.heap (r.applyRow row).heap :=
  (frozen_modify le_rfl _).trans (frozen_modify (Nat.zero_le _) _)

theorem book_clear (h : r.Wf) : r.clear.book = Book.empty := by
  rw [clear, book_modify_asks (wf_modify h _ _), book_modify_bids h]
  rfl

theorem frozen_clear (r : Reader) : Frozen r.heap r.clear.heap :=
  (frozen_modify (Nat.zero_le _) _).trans (frozen_modify le_rfl _)

theorem book_consume (h : r.Wf) (row : Row) :
    (r.consume row).book
      = (if row.isSnapshot && !r.snapshotCleared then Book.empty else r.book).applyRow row := by
  unfold consume
  dsimp only
  split
  · refine (book_applyRow ?_ row).trans ?_
    · exact lt_of_lt_of_le h (frozen_clear { r with currentTs := some row.ts }).1
    · exact congrArg (Book.applyRow · row) (book_clear (r := { r with currentTs := some row.ts }) h)
  · exact book_applyRow (r := { r with currentTs := some row.ts }) h row

theorem currentTs_consume (row : Row) (r : Reader) :
    (r.consume row).currentTs = some row.ts := by
  unfold consume
  dsimp only
  split <;> rfl

theorem snapshotCleared_consume (row : Row) (r : Reader) :
    (r.consume row).snapshotCleared = (r.snapshotCleared || row.isSnapshot) := by
  unfold consume
  dsimp only
  split
  · rename_i h
    rw [Bool.and_eq_true] at h
    simp [applyRow, modify, h.1]
  · rename_i h
    cases hrow : row.isSnapshot with
    | false => simp [applyRow, modify]
    | true =>
      rw [hrow] at h
      simpa [applyRow, modify] using h

theorem frozen_consume (row : Row) (r : Reader) : Frozen r.heap (r.consume row).heap := by
  unfold consume
  dsimp only
  split
  · exact (frozen_clear { r with currentTs := some row.ts }).trans (frozen_applyRow row _)
  · exact frozen_applyRow row { r with currentTs := some row.ts }

/-! ### Yielding -/

theorem frozen_copy (ts : ℕ) (r : Reader) : Frozen r.heap (r.copy ts).1.heap :=
  (Frozen.append _ _).trans (Frozen.append _ _)

theorem copied_copy (h : r.Wf) (ts : ℕ) : (r.copy ts).2.Copied (r.copy ts).1.heap := by
  have hlength : (r.copy ts).1.heap.length = r.heap.length + 2 := by simp [copy]
  rw [Snapshot.Copied, hlength]
  simp only [copy]
  unfold Wf at h
  omega

theorem contents_copy (h : r.Wf) (ts : ℕ) :
    (r.copy ts).2.contents (r.copy ts).1.heap = (ts, r.book) := by
  have hbids : (r.copy ts).1.heap.read r.heap.length = r.heap.read bidsRef := by
    simp only [copy]
    rw [Heap.read_append (by simp), Heap.read_append_self]
  have hasks : (r.copy ts).1.heap.read (r.heap.length + 1) = r.heap.read asksRef := by
    have hself := Heap.read_append_self (r.heap ++ [r.heap.read bidsRef])
      (Heap.read (r.heap ++ [r.heap.read bidsRef]) asksRef)
    rw [List.length_append, List.length_singleton] at hself
    exact hself.trans (Heap.read_append h _)
  exact congrArg (Prod.mk ts) (congrArg₂ Book.mk hbids hasks)

theorem book_copy (h : r.Wf) (ts : ℕ) : (r.copy ts).1.book = r.book := by
  have hread : ∀ ref, ref ≤ asksRef → (r.copy ts).1.heap.read ref = r.heap.read ref := by
    intro ref href
    have hlt : ref < r.heap.length := href.trans_lt h
    simp only [copy]
    rw [Heap.read_append (by simp; omega), Heap.read_append hlt]
  exact congrArg₂ Book.mk (hread bidsRef (Nat.zero_le _)) (hread asksRef le_rfl)

/-! ### The loop -/

section Loop

/-- What is yielded, with the heap as it is at that moment. -/
abbrev Yields := List (Snapshot × Heap)

def collect (ys : Yields) (heap : Heap) (snapshot : Snapshot) : Yields := ys ++ [(snapshot, heap)]

/-- The yielded dictionaries, read when they are yielded. -/
def Yields.contents (ys : Yields) : List (ℕ × Book) := ys.map fun y => y.1.contents y.2

variable {W : Type} (take : W → Heap → Snapshot → W) {ys : Yields}

theorem Yields.contents_append (ys ys' : Yields) :
    Yields.contents (ys ++ ys') = ys.contents ++ ys'.contents := List.map_append

/-- The caller does not matter: it is given what `collect` collects, one after the other. -/
theorem next_eq (r : Reader) (ys : Yields) (w : W) (row : Row) :
    next take (r, ys.foldl (fun w y => take w y.2 y.1) w) row
      = ((next collect (r, ys) row).1,
          (next collect (r, ys) row).2.foldl (fun w y => take w y.2 y.1) w) := by
  unfold next
  dsimp only
  cases (r.boundary row).2 with
  | none => rfl
  | some snapshot => simp [collect]

theorem foldl_next_eq (rows : List Row) (r : Reader) (ys : Yields) (w : W) :
    rows.foldl (next take) (r, ys.foldl (fun w y => take w y.2 y.1) w)
      = ((rows.foldl (next collect) (r, ys)).1,
          (rows.foldl (next collect) (r, ys)).2.foldl (fun w y => take w y.2 y.1) w) := by
  induction rows generalizing r ys with
  | nil => rfl
  | cons row rows ih =>
    rw [List.foldl_cons, List.foldl_cons, next_eq]
    exact ih _ _

theorem finish_eq (r : Reader) (ys : Yields) (w : W) :
    (finish take (r, ys.foldl (fun w y => take w y.2 y.1) w)).2
      = (finish collect (r, ys)).2.foldl (fun w y => take w y.2 y.1) w := by
  unfold finish
  dsimp only
  cases r.currentTs with
  | none => rfl
  | some ts => simp [collect]

/-! ### What is yielded stays as it is -/

/-- The yields so far are copies, and no object but the two of the generator has changed since. -/
structure Kept (ys : Yields) (heap : Heap) : Prop where
  copied : ∀ y ∈ ys, y.1.Copied y.2
  frozen : ys.Pairwise fun y y' => Frozen y.2 y'.2
  now : ∀ y ∈ ys, Frozen y.2 heap

theorem Kept.mono {heap heap' : Heap} (h : Kept ys heap) (hfrozen : Frozen heap heap') :
    Kept ys heap' where
  copied := h.copied
  frozen := h.frozen
  now y hy := (h.now y hy).trans hfrozen

theorem Kept.collect {heap heap' : Heap} {snapshot : Snapshot} (h : Kept ys heap)
    (hfrozen : Frozen heap heap') (hcopied : snapshot.Copied heap') :
    Kept (collect ys heap' snapshot) heap' where
  copied y hy := by
    rcases List.mem_append.mp hy with hy | hy
    · exact h.copied y hy
    · rw [List.mem_singleton.mp hy]
      exact hcopied
  frozen := by
    apply List.pairwise_append.mpr
    refine ⟨h.frozen, List.pairwise_singleton _ _, ?_⟩
    intro y hy y' hy'
    rw [List.mem_singleton.mp hy']
    exact (h.now y hy).trans hfrozen
  now y hy := by
    rcases List.mem_append.mp hy with hy | hy
    · exact (h.now y hy).trans hfrozen
    · rw [List.mem_singleton.mp hy]
      exact Frozen.refl _

theorem kept_next (h : r.Wf) (hkept : Kept ys r.heap) (row : Row) :
    (next collect (r, ys) row).1.Wf
      ∧ Kept (next collect (r, ys) row).2 (next collect (r, ys) row).1.heap := by
  have hconsume : ∀ (r' : Reader) (ys' : Yields), r'.Wf → Kept ys' r'.heap →
      (r'.consume row).Wf ∧ Kept ys' (r'.consume row).heap := by
    intro r' ys' hwf hkept'
    have hfrozen := frozen_consume row r'
    exact ⟨lt_of_lt_of_le hwf hfrozen.1, hkept'.mono hfrozen⟩
  unfold next
  dsimp only
  unfold boundary
  split
  · rename_i ts hts
    split
    · apply hconsume
      · exact lt_of_lt_of_le h (frozen_copy ts r).1
      · exact hkept.collect (frozen_copy ts r) (copied_copy h ts)
    · exact hconsume r ys h hkept
  · exact hconsume r ys h hkept

theorem kept_foldl_next (rows : List Row) (h : r.Wf) (hkept : Kept ys r.heap) :
    (rows.foldl (next collect) (r, ys)).1.Wf
      ∧ Kept (rows.foldl (next collect) (r, ys)).2 (rows.foldl (next collect) (r, ys)).1.heap := by
  induction rows generalizing r ys with
  | nil => exact ⟨h, hkept⟩
  | cons row rows ih =>
    obtain ⟨hwf', hkept'⟩ := kept_next h hkept row
    exact ih hwf' hkept'

theorem kept_finish (h : r.Wf) (hkept : Kept ys r.heap) :
    Kept (finish collect (r, ys)).2 (finish collect (r, ys)).1.heap := by
  unfold finish
  dsimp only
  split
  · rename_i ts _
    exact hkept.collect (frozen_copy ts r) (copied_copy h ts)
  · exact hkept

/-! ### A run -/

/-- A row in the middle of a run: nothing is yielded. -/
theorem next_same (hts : r.currentTs = some row.ts) (ys : Yields) :
    next collect (r, ys) row = (r.consume row, ys) := by
  simp [next, boundary, hts]

/-- The rows of a run, once the run before it is out. -/
theorem foldl_next_same {run : List Row} (hrun : ∀ row ∈ run, row.ts = ts)
    (h : r.Wf) (hts : r.currentTs = some ts) (ys : Yields) :
    ∃ r' : Reader, run.foldl (next collect) (r, ys) = (r', ys) ∧ r'.Wf ∧ r'.currentTs = some ts ∧
      r'.snapshotCleared = (r.snapshotCleared || run.any Row.isSnapshot) ∧
      r'.book = if r.snapshotCleared then run.foldl Book.applyRow r.book else r.book.after run := by
  induction run generalizing r with
  | nil =>
    refine ⟨r, rfl, h, hts, by simp, ?_⟩
    simp [Book.after]
  | cons row run ih =>
    obtain ⟨hrow, hrest⟩ := List.forall_mem_cons.mp hrun
    have hwf : (r.consume row).Wf := lt_of_lt_of_le h (frozen_consume row r).1
    have hts' : (r.consume row).currentTs = some ts := by rw [currentTs_consume, hrow]
    rw [List.foldl_cons, next_same (by rw [hts, hrow])]
    obtain ⟨r', hfold, hwf', hnow, hcleared', hbook⟩ := ih hrest hwf hts'
    refine ⟨r', hfold, hwf', hnow, ?_, ?_⟩
    · rw [hcleared', snapshotCleared_consume, List.any_cons, Bool.or_assoc]
    · rw [hbook, book_consume h, snapshotCleared_consume]
      cases hcleared : r.snapshotCleared <;> cases hsnapshot : row.isSnapshot <;>
        simp [Book.after, hsnapshot]

/-- The first row of a run is taken as one in the middle of it is, after the yield. -/
theorem next_new (h : r.Wf) (hnew : r.currentTs ≠ some row.ts)
    (hfresh : r.currentTs = none → r.snapshotCleared = false) (ys : Yields) :
    ∃ (r' : Reader) (ys' : Yields), next collect (r, ys) row = next collect (r', ys') row ∧
      r'.Wf ∧ r'.currentTs = some row.ts ∧ r'.snapshotCleared = false ∧ r'.book = r.book ∧
      ys'.contents = ys.contents ++ r.pending.toList := by
  cases hts : r.currentTs with
  | none =>
    refine ⟨{ r with currentTs := some row.ts }, ys, ?_, h, rfl, hfresh hts, rfl, ?_⟩
    · refine Eq.trans ?_ (next_same (show Reader.currentTs _ = some row.ts from rfl) ys).symm
      simp only [next, boundary, hts]
      rfl
    · simp [pending, hts]
  | some ts =>
    have hne : row.ts ≠ ts := by
      intro heq
      rw [hts, heq] at hnew
      exact hnew rfl
    refine ⟨{ (r.copy ts).1 with currentTs := some row.ts, snapshotCleared := false },
      collect ys (r.copy ts).1.heap (r.copy ts).2, ?_, ?_, rfl, rfl, book_copy h ts, ?_⟩
    · refine Eq.trans ?_ (next_same (show Reader.currentTs _ = some row.ts from rfl) _).symm
      simp only [next, boundary, hts, if_pos hne]
      rfl
    · exact lt_of_lt_of_le h (frozen_copy ts r).1
    · rw [collect, Yields.contents_append, pending, hts]
      exact congrArg (ys.contents ++ [·]) (contents_copy h ts)

theorem foldl_next_run {run : List Row} (hne : run ≠ []) (hrun : ∀ row ∈ run, row.ts = runTs run)
    (h : r.Wf) (hnew : r.currentTs ≠ some (runTs run))
    (hfresh : r.currentTs = none → r.snapshotCleared = false) (ys : Yields) :
    ∃ (r' : Reader) (ys' : Yields), run.foldl (next collect) (r, ys) = (r', ys') ∧ r'.Wf ∧
      ys'.contents = ys.contents ++ r.pending.toList ∧ r'.currentTs = some (runTs run) ∧
      r'.snapshotCleared = run.any Row.isSnapshot ∧ r'.book = r.book.after run := by
  obtain ⟨row, rest, rfl⟩ := List.exists_cons_of_ne_nil hne
  obtain ⟨r₁, ys₁, hnext, hwf₁, hts₁, hcleared₁, hbook₁, hys₁⟩ := next_new h hnew hfresh ys
  obtain ⟨r', hfold, hwf', hts', hcleared', hbook'⟩ := foldl_next_same hrun hwf₁ hts₁ ys₁
  refine ⟨r', ys₁, ?_, hwf', hys₁, hts', ?_, ?_⟩
  · rw [List.foldl_cons, hnext]
    exact hfold
  · rw [hcleared', hcleared₁, Bool.false_or]
  · rw [hbook', hcleared₁, hbook₁]
    rfl

/-- Run after run: what is yielded and what is pending are the books of the runs. -/
theorem foldl_next_runs {rs : List (List Row)}
    (hrs : ∀ run ∈ rs, run ≠ [] ∧ ∀ row ∈ run, row.ts = runTs run)
    (hchain : rs.IsChain fun run run' => runTs run ≠ runTs run') (h : r.Wf)
    (hnew : ∀ run ∈ rs.head?, r.currentTs ≠ some (runTs run))
    (hfresh : r.currentTs = none → r.snapshotCleared = false) (ys : Yields) :
    ∃ (r' : Reader) (ys' : Yields), rs.flatten.foldl (next collect) (r, ys) = (r', ys') ∧ r'.Wf ∧
      ys'.contents ++ r'.pending.toList
        = ys.contents ++ r.pending.toList ++ booksOf r.book rs := by
  induction rs generalizing r ys with
  | nil =>
    refine ⟨r, ys, rfl, h, ?_⟩
    rw [booksOf, List.append_nil]
  | cons run rs ih =>
    obtain ⟨⟨hne, hrun⟩, hrest⟩ := List.forall_mem_cons.mp hrs
    obtain ⟨hhead, htail⟩ := List.isChain_cons.mp hchain
    obtain ⟨r₁, ys₁, hfold₁, hwf₁, hys₁, hts₁, -, hbook₁⟩ :=
      foldl_next_run hne hrun h (hnew run rfl) hfresh ys
    have hnew₁ : ∀ run' ∈ rs.head?, r₁.currentTs ≠ some (runTs run') := by
      intro run' hrun' heq
      rw [hts₁] at heq
      exact hhead run' hrun' (Option.some.inj heq)
    obtain ⟨r', ys', hfold, hwf', hbooks⟩ := ih hrest htail hwf₁ hnew₁ (by simp [hts₁]) ys₁
    refine ⟨r', ys', ?_, hwf', ?_⟩
    · rw [List.flatten_cons, List.foldl_append, hfold₁, hfold]
    · have hpending : r₁.pending = some (runTs run, r.book.after run) := by
        rw [pending, hts₁, hbook₁]
        rfl
      rw [hbooks, hys₁, hpending, hbook₁, booksOf]
      simp

theorem contents_finish (h : r.Wf) (ys : Yields) :
    (finish collect (r, ys)).2.contents = ys.contents ++ r.pending.toList := by
  unfold finish pending
  cases r.currentTs with
  | none => simp
  | some ts =>
    dsimp only
    rw [collect, Yields.contents_append]
    exact congrArg (ys.contents ++ [·]) (contents_copy h ts)

end Loop

end Reader

/-! ## The whole file -/

/-- Everything that is yielded for a file. -/
def yields (batches : List (List Row)) : Reader.Yields :=
  (readLobIter Reader.collect [] batches).2

theorem readLobIter_flatten {W : Type} (take : W → Heap → Snapshot → W) (w : W)
    (batches : List (List Row)) :
    readLobIter take w batches
      = Reader.finish take (batches.flatten.foldl (Reader.next take) ({}, w)) := by
  rw [readLobIter, List.foldl_flatten]

theorem readLobIter_eq {W : Type} (take : W → Heap → Snapshot → W) (w : W)
    (batches : List (List Row)) :
    (readLobIter take w batches).2 = (yields batches).foldl (fun w y => take w y.2 y.1) w := by
  have hnext := Reader.foldl_next_eq take batches.flatten {} [] w
  rw [List.foldl_nil] at hnext
  rw [yields, readLobIter_flatten, readLobIter_flatten, hnext]
  exact Reader.finish_eq take _ _ w

theorem kept_yields (batches : List (List Row)) :
    Reader.Kept (yields batches) (readLobIter Reader.collect [] batches).1.heap := by
  have hkept : Reader.Kept [] (Reader.heap {}) := ⟨by simp, List.Pairwise.nil, by simp⟩
  obtain ⟨hwf, hrows⟩ := Reader.kept_foldl_next batches.flatten Reader.wf_start hkept
  rw [yields, readLobIter_flatten]
  exact Reader.kept_finish hwf hrows

theorem contents_yields (batches : List (List Row)) :
    (yields batches).contents = booksOf Book.empty (runs batches.flatten) := by
  have hstart : ∀ run ∈ (runs batches.flatten).head?, Reader.currentTs {} ≠ some (runTs run) := by
    intro run _ heq
    cases heq
  obtain ⟨r, ys, hfold, hwf, hbooks⟩ := Reader.foldl_next_runs
    (fun run hrun => ts_of_mem_runs hrun) (isChain_runs _) Reader.wf_start hstart (fun _ => rfl) []
  have hflatten : (runs batches.flatten).flatten = batches.flatten := List.flatten_splitBy _ _
  rw [hflatten] at hfold
  rw [yields, readLobIter_flatten, hfold, Reader.contents_finish hwf, hbooks]
  rfl

/-- A yielded dictionary never changes afterwards. -/
theorem yields_unchanged (batches : List (List Row)) :
    (yields batches).Pairwise fun y y' => y.1.contents y'.2 = y.1.contents y.2 := by
  have hkept := kept_yields batches
  refine hkept.frozen.imp_of_mem ?_
  intro y y' hy _ hfrozen
  exact (hkept.copied y hy).contents_eq hfrozen

/-! ## The writer -/

section Writer

variable (dumps : List (F64 × Option F64) → String)

/-- What the row of a book should say. -/
def Serializes (y : ℕ × Book) (row : Lob2Row) : Prop :=
  ∃ bids asks : List (F64 × Option F64),
    (bids.Perm y.2.bids.items ∧ bids.Pairwise fun e e' => e'.1 < e.1) ∧
    (asks.Perm y.2.asks.items ∧ asks.Pairwise fun e e' => e.1 < e'.1) ∧
    row = { ts := y.1, bids := dumps bids, asks := dumps asks }

theorem serializes_snapshotToRow (heap : Heap) (snapshot : Snapshot) :
    Serializes dumps (snapshot.contents heap) (snapshotToRow dumps heap snapshot) := by
  refine ⟨(heap.read snapshot.bids).descending, (heap.read snapshot.asks).ascending, ?_, ?_, rfl⟩
  · exact ⟨Dict.perm_descending _, Dict.pairwise_descending _⟩
  · exact ⟨Dict.perm_ascending _, Dict.pairwise_ascending _⟩

namespace Writer

/-- All rows that the writer has been given. -/
def rows (w : Writer) : List Lob2Row := (w.tables.getD []).flatten ++ w.buffer

theorem rows_flush (w : Writer) : w.flush.rows = w.rows := by
  simp [flush, rows]

theorem rows_take (flushSize : ℕ) (w : Writer) (heap : Heap) (snapshot : Snapshot) :
    (w.take dumps flushSize heap snapshot).rows
      = w.rows ++ [snapshotToRow dumps heap snapshot] := by
  unfold take
  dsimp only
  split
  · rw [rows_flush, rows, rows, List.append_assoc]
  · rw [rows, rows, List.append_assoc]

theorem rows_foldl_take (flushSize : ℕ) (ys : Reader.Yields) (w : Writer) :
    (ys.foldl (fun w y => w.take dumps flushSize y.2 y.1) w).rows
      = w.rows ++ ys.map fun y => snapshotToRow dumps y.2 y.1 := by
  induction ys generalizing w with
  | nil => simp
  | cons y ys ih => rw [List.foldl_cons, ih, rows_take, List.map_cons, List.append_assoc,
      List.singleton_append]

end Writer

/-- At the end the tables have every row, whatever the flush size. -/
theorem tables_rebuildToLob2 (flushSize : ℕ) (batches : List (List Row)) :
    ((rebuildToLob2 dumps flushSize batches).tables.getD []).flatten
      = (yields batches).map fun y => snapshotToRow dumps y.2 y.1 := by
  have hrows := Writer.rows_foldl_take dumps flushSize (yields batches) {}
  rw [← readLobIter_eq] at hrows
  unfold rebuildToLob2
  dsimp only
  split
  · rename_i hempty
    rw [Writer.rows, List.isEmpty_iff.mp hempty, List.append_nil] at hrows
    exact hrows
  · rw [← Writer.rows_flush] at hrows
    simpa [Writer.rows, Writer.flush] using hrows

/-- What the reader yields is what the rows say, run for run; it stays as it is while the reader
goes on, and the writer writes one row for each run, in order, its sides strictly sorted. Neither
the batches of the file nor the flush size matters. -/
theorem rebuild_spec (flushSize : ℕ) (batches : List (List Row)) :
    (yields batches).contents = booksOf Book.empty (runs batches.flatten)
      ∧ ((yields batches).Pairwise fun y y' => y.1.contents y'.2 = y.1.contents y.2)
      ∧ List.Forall₂ (Serializes dumps) (booksOf Book.empty (runs batches.flatten))
          ((rebuildToLob2 dumps flushSize batches).tables.getD []).flatten := by
  refine ⟨contents_yields batches, yields_unchanged batches, ?_⟩
  rw [← contents_yields, tables_rebuildToLob2, Reader.Yields.contents]
  apply List.forall₂_map_left_iff.mpr
  apply List.forall₂_map_right_iff.mpr
  apply List.forall₂_same.mpr
  intro y _
  exact serializes_snapshotToRow dumps y.2 y.1

end Writer

end Python
end Cryptomeria
