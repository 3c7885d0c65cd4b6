import Cryptomeria.Exchange

/-!
# When a snapshot replaces the book

A snapshot is meant to replace both sides whatever was there. The loop of `process_msg` leaves a
side alone when the snapshot lists nothing for it, and again when the filter keeps nothing of
what it lists; then the clear inside `apply_snapshot` is never reached, and the levels of the
earlier book stay. `Lands` is the condition on the message under which neither happens.
-/

set_option autoImplicit false

namespace Cryptomeria

open WriteLog

namespace Lob

variable {L : Type} {view parse : L → Option (F64 × F64)} {parseLevels : Value → String → List L}

/-- A snapshot that lists these levels reaches the side: there are some, and the filter keeps
one. `MaxLevel` keeps a positive level if it keeps any at all; `MaxLevelPct` keeps what it cannot
read, a removal, and what is in the window of the best listed price. -/
def Lands (view : L → Option (F64 × F64)) (filter : Option LobFilter) (s : Side)
    (levels : List L) : Prop :=
  levels ≠ [] ∧
    match filter with
    | none => True
    | some (.maxLevel n) => 0 < n ∧ ∃ l ∈ levels, ∃ e, view l = some e ∧ e.2.gt F64.zero = true
    | some (.maxLevelPct pct ar) =>
      ∃ l ∈ levels, ∀ e best, view l = some e → findBestPrice view levels s = some best →
        e.2.eq F64.zero = true ∨ s.inWindow ar pct best e.1 = true

variable (parse) in
theorem lands_iff {filter : Option LobFilter} {s : Side} {levels : List L} :
    Lands view filter s levels ↔ snapshotLevels view parse filter s levels ≠ none := by
  cases filter with
  | none => cases levels <;> simp [Lands, snapshotLevels]
  | some f =>
    rw [Ne, snapshotLevels_eq_none, not_or]
    refine and_congr_right fun _ => ?_
    cases f with
    | maxLevel n =>
      dsimp only
      rw [filterSnapshotLevels_maxLevel_eq_nil, not_or, Nat.pos_iff_ne_zero]
      refine and_congr_right fun _ => ?_
      simp only [not_forall, Bool.not_eq_false, exists_prop]
    | maxLevelPct pct ar =>
      dsimp only
      rw [filterSnapshotLevels_maxLevelPct_eq_nil]
      simp only [not_forall, exists_prop, not_exists, not_and, Bool.not_eq_false]
      refine exists_congr fun l => and_congr_right fun _ => forall₂_congr fun e best => ?_
      refine imp_congr_right fun _ => imp_congr_right fun _ => ?_
      cases e.2.eq F64.zero <;> simp

/-- A side with one level, to tell the empty book from. -/
theorem exists_side_ne (s : Side) : ∃ b : OrderBook, b.side s ≠ OrderBook.new.side s := by
  refine ⟨OrderBook.new.setSide s (Std.ExtTreeMap.insert ∅ F64.zero F64.zero), ?_⟩
  rw [OrderBook.side_setSide_self, OrderBook.side_new]
  exact Std.ExtTreeMap.insert_ne_empty

theorem snapshot_replaces_iff {data : List Value} {d : Value} {action : Option String}
    (hd : data.head? = some d) (ha : action.getD "snapshot" = "snapshot")
    (filter : Option LobFilter) :
    (∀ b₁ b₂, processMsg view parse parseLevels data action filter b₁
        = processMsg view parse parseLevels data action filter b₂) ↔
      ∀ s, Lands view filter s (parseLevels d s.key) := by
  constructor
  · intro hsame s
    by_contra hkeep
    rw [lands_iff parse, not_not] at hkeep
    obtain ⟨b, hb⟩ := exists_side_ne s
    have hside := congrArg (fun b : OrderBook => b.side s) (hsame b OrderBook.new)
    simp only [side_snapshot hd ha, hkeep, replaceSide] at hside
    exact hb hside
  · intro hlands b₁ b₂
    refine OrderBook.ext_side fun s => ?_
    rw [side_snapshot hd ha, side_snapshot hd ha]
    cases hes : snapshotLevels view parse filter s (parseLevels d s.key) with
    | none => exact absurd hes ((lands_iff parse).mp (hlands s))
    | some es => rfl

end Lob

/-- **When a snapshot replaces the book.** For the books of OKX and Kraken: nothing of the
earlier state survives a snapshot if and only if it lands on both sides. -/
theorem snapshot_replaces_book_iff (filter : Option LobFilter) :
    (∀ (msg : Okx.OkxWsMessage) (d : Value), msg.data.head? = some d →
      msg.action.getD "snapshot" = "snapshot" →
      ((∀ b₁ b₂, Okx.processMsg msg filter b₁ = Okx.processMsg msg filter b₂) ↔
        ∀ s, Lob.Lands Okx.parseLevel filter s (Okx.parseLevels d s.key))) ∧
    (∀ (msg : Kraken.KrakenWsMessage) (d : Value), msg.data.head? = some d →
      msg.msgType.getD "snapshot" = "snapshot" →
      ((∀ b₁ b₂, Kraken.processMsg msg filter b₁ = Kraken.processMsg msg filter b₂) ↔
        ∀ s, Lob.Lands some filter s (Kraken.parseLevels d s.key))) :=
  ⟨fun _ _ hd ha => Lob.snapshot_replaces_iff hd ha filter,
    fun _ _ hd ha => Lob.snapshot_replaces_iff hd ha filter⟩

/-- The bids of a first snapshot, then a snapshot with no bids. -/
def bidsOnly : Okx.OkxWsMessage := Okx.booksMsg "snapshot" [("100", "1")] []

def noBids : Okx.OkxWsMessage := Okx.booksMsg "snapshot" [] [("101", "1")]

theorem snapshot_replaces_book_iff_noBids :
    (∀ b₁ b₂, Okx.processMsg noBids none b₁ = Okx.processMsg noBids none b₂) ↔
      ∀ s, Lob.Lands Okx.parseLevel none s
        (Okx.parseLevels (.object [("bids", .array []),
          ("asks", .array [.array [.string "101", .string "1"]])]) s.key) :=
  (snapshot_replaces_book_iff none).1 noBids _ rfl rfl

theorem snapshot_keeps_old_side :
    ¬ ∀ (filter : Option LobFilter) (msg : Okx.OkxWsMessage), msg.action = some "snapshot" →
      msg.data ≠ [] → ∀ b₁ b₂, Okx.processMsg msg filter b₁ = Okx.processMsg msg filter b₂ := by
  intro h
  have hsame := h none noBids rfl (by simp [noBids, Okx.booksMsg])
    (Okx.processMsg bidsOnly none OrderBook.new) OrderBook.new
  exact absurd (congrArg OrderBook.numBids hsame) (by decide +kernel)

end Cryptomeria
