import Cryptomeria.Filter.Subset

/-!
# The top of a filtered book

An update that quotes a price should leave the best price at least as good as the quote. The
filter can refuse the quote: a full `MaxLevel` book takes no new price however good it is, and
`MaxLevelPct` measures the whole message against the best price before it, even when the message
takes that price out. Then some other price has to stand in for it (`best_covers_iff`).

For a quote that is better than all prices held this comes down to the room that is left: the full
`MaxLevel` books of OKX and Kraken refuse it (`best_covers_iff_room`), and `MaxLevelPct` lets it in
(`best_covers_better`).
-/

set_option autoImplicit false

namespace Cryptomeria

open WriteLog

/-! ## What a filter takes -/

section Takes

variable {s : Side} {grow : Bool} {f : LobFilter} {m : Levels s}

/-- The filter takes a size for this price from an entry with these before it in the message.
`MaxLevel` has the price already, or has room for it, where Bitstamp takes the new prices named so
far off the room. `MaxLevelPct` finds it in the window of the best price before the message. -/
def Takes (grow : Bool) (f : LobFilter) (m : Levels s) (earlier : List (F64 × F64)) (price : F64) :
    Prop :=
  match f with
  | .maxLevel n => price ∈ m ∨ m.size + taken grow m earlier < n
  | .maxLevelPct pct ar => ∀ best, m.best = some best → s.inWindow ar pct best price = true

/-- A price at least as good as `q` is there without the entry that quotes `q`: it is held and no
entry removes it, or an entry at another place stores it and no later one removes it. -/
def StandsIn (grow : Bool) (f : LobFilter) (m : Levels s) (es pre : List (F64 × F64)) (q : F64) :
    Prop :=
  ∃ r, (s.cmp r q).isLE ∧
    (Kept m es r ∨ ∃ earlier e later, es = earlier ++ e :: later ∧ earlier ≠ pre ∧ e.1 = r ∧
      e.2.eq F64.zero = false ∧ Takes grow f m earlier r ∧
        ∀ e' ∈ later, e'.1 = r → e'.2.eq F64.zero = false)

theorem passes_iff_takes {earlier : List (F64 × F64)} {e : F64 × F64}
    (hsize : e.2.eq F64.zero = false) :
    passes grow f m earlier e = true ↔ Takes grow f m earlier e.1 := by
  cases f with
  | maxLevel n => simp [passes, Takes, admits_maxLevel, hsize]
  | maxLevelPct pct ar =>
    rw [passes, ← Bool.not_eq_false, admits_maxLevelPct_congr _ 0,
      BookModel.admits_maxLevelPct_eq_false, not_and]
    simp [Takes, hsize]

end Takes

namespace BookModel

variable {x : BookModel} {msg : x.Msg} {s : Side} {f : LobFilter}

/-- The best price of the side is at least as good as `q`. -/
def BestCovers (x : BookModel) (b : x.Book) (s : Side) (q : F64) : Prop :=
  ∃ best, (x.side b s).best = some best ∧ (s.cmp best q).isLE

theorem bestCovers_iff {b : x.Book} {q : F64} :
    x.BestCovers b s q ↔ ∃ r ∈ x.side b s, (s.cmp r q).isLE :=
  Levels.best_isLE_iff

/-- The quote stands in the message: it has a positive size and no later entry names it. -/
def Quotes (x : BookModel) (msg : x.Msg) (s : Side) (pre : List (F64 × F64)) (q v : F64)
    (post : List (F64 × F64)) : Prop :=
  x.entries msg s = pre ++ (q, v) :: post ∧ v.gt F64.zero = true ∧ ∀ e ∈ post, e.1 ≠ q

theorem Quotes.offered {pre post : List (F64 × F64)} {q v : F64} {m : Levels s}
    (h : x.Quotes msg s pre q v post) (htakes : Takes x.grow f m pre q) :
    Offered x.grow f m (x.entries msg s) q := by
  obtain ⟨hes, hpos, hlast⟩ := h
  have hsize := F64.eq_zero_of_gt_zero hpos
  refine ⟨pre, (q, v), post, hes, rfl, hsize, (passes_iff_takes hsize).mpr htakes, ?_⟩
  exact fun e he hq => absurd hq (hlast e he)

theorem bestCovers_update_iff (hk : x.kind msg = .update) (f : LobFilter) (b : x.Book) (q : F64) :
    x.BestCovers (x.processMsg msg (some f) b) s q ↔
      ∃ r, (s.cmp r q).isLE ∧
        (Kept (x.side b s) (x.entries msg s) r ∨
          Offered x.grow f (x.side b s) (x.entries msg s) r) := by
  rw [bestCovers_iff, x.side_update _ _ _ _ hk]
  simp only [letThrough, mem_replay_admitted, and_comm]

/-- The message takes the best price of the side out. -/
def RemovesBest (x : BookModel) (msg : x.Msg) (b : x.Book) (s : Side) : Prop :=
  ∃ best pre v post, (x.side b s).best = some best ∧
    x.entries msg s = pre ++ (best, v) :: post ∧ v.eq F64.zero = true ∧ ∀ e ∈ post, e.1 ≠ best

end BookModel

/-- **When the top of the book covers a quote.** After an update that quotes `q` the best price
is at least as good as `q` if and only if the filter takes the quote, or another price stands in
for it. -/
theorem Exchange.best_covers_iff (x : Exchange) (f : LobFilter) (b : x.model.Book)
    (msg : x.model.Msg) (hk : x.model.kind msg = .update) (s : Side)
    (pre post : List (F64 × F64)) (q v : F64) (hq : x.model.Quotes msg s pre q v post) :
    x.model.BestCovers (x.model.processMsg msg (some f) b) s q ↔
      Takes x.model.grow f (x.model.side b s) pre q ∨
        StandsIn x.model.grow f (x.model.side b s) (x.model.entries msg s) pre q := by
  rw [BookModel.bestCovers_update_iff hk]
  constructor
  · rintro ⟨r, hle, hkept | ⟨earlier, e, later, hes, rfl, hsize, hpass, hlater⟩⟩
    · exact Or.inr ⟨r, hle, Or.inl hkept⟩
    · have htakes := (passes_iff_takes hsize).mp hpass
      by_cases hplace : earlier = pre
      · -- the entry at the place of the quote is the quote
        rw [hq.1, hplace, List.append_cancel_left_eq, List.cons.injEq] at hes
        rw [← hes.1, hplace] at htakes
        exact Or.inl htakes
      · exact Or.inr ⟨e.1, hle, Or.inr ⟨earlier, e, later, hes, hplace, rfl, hsize, htakes, hlater⟩⟩
  · rintro (htakes | ⟨r, hle, hkept | ⟨earlier, e, later, hes, -, rfl, hsize, htakes, hlater⟩⟩)
    · exact ⟨q, by simp [Std.ReflCmp.compare_self], Or.inr (hq.offered htakes)⟩
    · exact ⟨r, hle, Or.inl hkept⟩
    · have hpass := (passes_iff_takes hsize).mpr htakes
      exact ⟨e.1, hle, Or.inr ⟨earlier, e, later, hes, rfl, hsize, hpass, hlater⟩⟩

/-! ## A quote that is better than all prices held -/

section Better

variable {x : BookModel} {b : x.Book} {msg : x.Msg} {s : Side} {pre post : List (F64 × F64)}
  {q v : F64}

theorem not_mem_of_isLE_better {m : Levels s} (hbetter : ∀ r ∈ m, s.cmp q r = .lt) {r : F64}
    (hle : (s.cmp r q).isLE) : r ∉ m := by
  intro hr
  have hself := Std.TransCmp.lt_of_isLE_of_lt hle (hbetter r hr)
  simp [Std.ReflCmp.compare_self] at hself

/-- Where updates are tested against the number of levels before them, a `MaxLevel` side shows a
new best price exactly when it has room. -/
theorem best_covers_iff_room (hgrow : x.grow = false) (hk : x.kind msg = .update)
    (hq : x.Quotes msg s pre q v post) (hbetter : ∀ r ∈ x.side b s, s.cmp q r = .lt) (n : ℕ) :
    x.BestCovers (x.processMsg msg (some (.maxLevel n)) b) s q ↔ (x.side b s).size < n := by
  have htaken : ∀ earlier, taken x.grow (x.side b s) earlier = 0 := by
    intro earlier
    rw [taken, hgrow]
    rfl
  rw [BookModel.bestCovers_update_iff hk]
  constructor
  · rintro ⟨r, hle, hkept | ⟨earlier, e, later, -, rfl, hsize, hpass, -⟩⟩
    · exact absurd hkept.1 (not_mem_of_isLE_better hbetter hle)
    · rcases (passes_iff_takes hsize).mp hpass with hheld | hroom
      · exact absurd hheld (not_mem_of_isLE_better hbetter hle)
      · rwa [htaken] at hroom
  · intro hroom
    refine ⟨q, by simp [Std.ReflCmp.compare_self], Or.inr (hq.offered (Or.inr ?_))⟩
    rwa [htaken]

/-- A new best price is in the window of the old one. -/
theorem best_covers_better {ar : Arithmetic} {p : ℚ} (h0 : 0 ≤ p) (h100 : p ≤ 100)
    (hk : x.kind msg = .update) (hq : x.Quotes msg s pre q v post)
    (hpos : (ar.round q).IsPos) (hheld : ∀ r ∈ x.side b s, r.gt F64.zero = true)
    (hbetter : ∀ r ∈ x.side b s, s.cmp q r = .lt) :
    x.BestCovers (x.processMsg msg (some (.maxLevelPct (.fin p) ar)) b) s q := by
  rw [BookModel.bestCovers_update_iff hk]
  refine ⟨q, by simp [Std.ReflCmp.compare_self], Or.inr (hq.offered fun best hbest => ?_)⟩
  have hmem := Levels.best_mem hbest
  exact Side.inWindow_of_isLE h0 h100 (Arithmetic.gt_zero_of_round hpos) (hheld best hmem)
    (by simp [hbetter best hmem]) (Side.inWindow_self h0 h100 hpos)

end Better

/-- A bid at 100, and a better one. -/
def firstBid : Exchange.okx.model.Msg := Okx.booksMsg "snapshot" [("100", "1")] []

def betterBid : Exchange.okx.model.Msg := Okx.booksMsg "update" [("101", "1")] []

/-- The book of the first bid under `MaxLevel(1)`. -/
def oneBid : Exchange.okx.model.Book :=
  Exchange.okx.model.processMsg firstBid (some (.maxLevel 1)) Exchange.okx.model.new

theorem quotes_betterBid : Exchange.okx.model.Quotes betterBid .bid [] (.fin 101) (.fin 1) [] :=
  ⟨by decide +kernel, by decide +kernel, by simp⟩

theorem Exchange.best_covers_iff_betterBid :
    Exchange.okx.model.BestCovers
        (Exchange.okx.model.processMsg betterBid (some (.maxLevel 1)) oneBid) .bid (.fin 101) ↔
      Takes Exchange.okx.model.grow (.maxLevel 1) (Exchange.okx.model.side oneBid .bid) []
          (.fin 101) ∨
        StandsIn Exchange.okx.model.grow (.maxLevel 1) (Exchange.okx.model.side oneBid .bid)
          (Exchange.okx.model.entries betterBid .bid) [] (.fin 101) :=
  Exchange.best_covers_iff .okx (.maxLevel 1) oneBid betterBid (by decide +kernel) .bid [] []
    (.fin 101) (.fin 1) quotes_betterBid

/-- The bid at 101 does not get into the full book, and the best bid stays at 100. -/
theorem Exchange.best_quote_missed :
    ¬ ∀ (x : Exchange) (f : LobFilter),
      ((∃ n, 1 ≤ n ∧ f = .maxLevel n) ∨ ∃ p : ℚ, 0 ≤ p ∧ p ≤ 100 ∧ f = .maxLevelPct (.fin p)) →
      ∀ msgs : List x.model.Msg, (∀ msg ∈ msgs, x.model.PricesPositive msg) →
      ∀ msg, x.model.PricesPositive msg → x.model.kind msg = .update →
      ∀ s pre q v post, x.model.Quotes msg s pre q v post →
      let b := msgs.foldl (fun b msg => x.model.processMsg msg (some f) b) x.model.new
      (x.model.side b s = ∅ ∨ (∃ best, (x.model.side b s).best = some best ∧ s.cmp q best = .lt) ∨
        x.model.RemovesBest msg b s) →
      x.model.BestCovers (x.model.processMsg msg (some f) b) s q := by
  intro h
  obtain ⟨best, hbest, hle⟩ := h .okx (.maxLevel 1) (Or.inl ⟨1, le_refl 1, rfl⟩) [firstBid]
    (by decide +kernel) betterBid (by decide +kernel) (by decide +kernel) .bid [] (.fin 101)
    (.fin 1) [] quotes_betterBid
    (Or.inr (Or.inl ⟨.fin 100, by decide +kernel, by decide +kernel⟩))
  obtain rfl : best = .fin 100 := by
    refine Option.some.inj (hbest.symm.trans ?_)
    decide +kernel
  exact absurd hle (by decide +kernel)

-- The percentage filter: 100 is taken out and replaced by 50 in one message, and 50 is refused.
example :
    (Okx.processMsg (Okx.booksMsg "update" [("100", "0"), ("50", "1")] [])
      (some (.maxLevelPct (.fin 1)))
      (Okx.processMsg (Okx.booksMsg "snapshot" [("100", "1")] [])
        (some (.maxLevelPct (.fin 1))) OrderBook.new)).bestBid = none := by
  decide +kernel

end Cryptomeria
