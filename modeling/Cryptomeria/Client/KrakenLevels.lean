import Cryptomeria.Client.Persist
import Cryptomeria.Num.Decimal

/-!
# The levels of Kraken in the table

Kraken sends numbers, and `db` takes texts: `persist_message` writes price and quantity with eight
decimals and `write_lob_level` reads them back. `kraken_levels_survive_iff` says for which messages
nothing is lost on the way. A quantity of no more than half of the last decimal becomes 0, which is
how a removed level is written.
-/

set_option autoImplicit false

namespace Cryptomeria

/-- A number above zero. -/
def F64.IsPositive : F64 → Prop
  | .fin q => 0 < q
  | _ => False

namespace Kraken

deriving instance DecidableEq for LobLevel

/-- A level of the book, not the removal of one. -/
def LobLevel.IsPositive (kl : LobLevel) : Prop := kl.price.IsPositive ∧ kl.qty.IsPositive

/-- Side, price and size of the rows that are in the table after a step and not before. -/
def newRows (w w' : World) : List (Side × F64 × F64) :=
  (w'.lobLevels.drop w.lobLevels.length).map LobLevelRow.level

/-- The rows have what is in the levels. The second and the third field are what a reader of the
table relies on. -/
structure Survive (levels : List (Side × LobLevel)) (rows : List (Side × F64 × F64)) : Prop where
  same : ∀ (i : ℕ) (s : Side) (kl : LobLevel), levels[i]? = some (s, kl) → kl.IsPositive →
    rows[i]? = some (s, kl.price, kl.qty)
  distinct : ∀ (i j : ℕ) (s s' : Side) (kl kl' : LobLevel), levels[i]? = some (s, kl) →
    levels[j]? = some (s', kl') → kl.IsPositive → kl'.IsPositive → kl.price ≠ kl'.price →
    rows[i]?.map (fun row => row.2.1) ≠ rows[j]?.map fun row => row.2.1
  kept : ∀ (i : ℕ) (s : Side) (kl : LobLevel), levels[i]? = some (s, kl) → kl.IsPositive →
    rows[i]?.map (fun row => row.2.2) ≠ some F64.zero

/-- With a working sender, the levels of the message are found in the table again. -/
def LevelsSurvive (rfc3339 : String → Option ℤ) (cfg : Config) (msg : KrakenWsMessage) : Prop :=
  ∀ (stamp : Stamp) (w : World), stamp.flushOk = true →
    Survive msg.lobLevels (newRows w (persistMessage rfc3339 cfg stamp msg w))

variable {msg : KrakenWsMessage}

/-- Only a book message has levels. -/
theorem lobLevels_eq_nil (h : ¬ (msg.messageType = .l2Snapshot ∨ msg.messageType = .l2Update)) :
    msg.lobLevels = [] := by
  have hother : ∀ kind, kind = "snapshot" ∨ kind = "update" →
      msg.msgType ≠ some kind ∨ msg.channel ≠ some "book" := by
    intro kind hkind
    by_contra hbook
    obtain ⟨htype, hchannel⟩ := not_or.mp hbook
    rw [not_not] at htype hchannel
    apply h
    rcases hkind with rfl | rfl
    · left
      simp [KrakenWsMessage.messageType, hchannel, htype]
    · right
      simp [KrakenWsMessage.messageType, hchannel, htype]
  rw [KrakenWsMessage.lobLevels, KrakenWsMessage.lobSnapshot, if_pos (hother _ (Or.inl rfl)),
    KrakenWsMessage.lobUpdate, if_pos (hother _ (Or.inr rfl))]
  rfl

/-- A message that is not of the book adds no row. -/
theorem lobLevels_persistMessage_other {rfc3339 : String → Option ℤ} {cfg : Config} {stamp : Stamp}
    (h : ¬ (msg.messageType = .l2Snapshot ∨ msg.messageType = .l2Update)) (w : World) :
    (persistMessage rfc3339 cfg stamp msg w).lobLevels = w.lobLevels := by
  unfold persistMessage
  cases htype : msg.messageType with
  | l2Snapshot => exact absurd (Or.inl htype) h
  | l2Update => exact absurd (Or.inr htype) h
  | trade =>
    cases firstTrade msg with
    | none => rfl
    | some trade => exact World.persistTrade_lobLevels
  | l2 | heartbeat | status | event | unknown => rfl

/-- One row for each level, in their order. -/
theorem newRows_persistMessage (rfc3339 : String → Option ℤ) (cfg : Config) {stamp : Stamp}
    (hflush : stamp.flushOk = true) (w : World) :
    newRows w (persistMessage rfc3339 cfg stamp msg w)
      = msg.lobLevels.map fun (s, kl) => (s, Okx.rowOf (toOkxLevel kl)) := by
  rw [newRows, List.map_drop]
  by_cases h : msg.messageType = .l2Snapshot ∨ msg.messageType = .l2Update
  · rw [lobLevels_persistMessage rfc3339 cfg hflush h]
    exact List.drop_left' (List.length_map _)
  · rw [lobLevels_persistMessage_other h, lobLevels_eq_nil h]
    exact List.drop_eq_nil_of_le (List.length_map _).le

/-- The row of a level: both numbers rounded to eight decimals. -/
theorem rowOf_toOkxLevel {p q : ℚ} :
    Okx.rowOf (toOkxLevel { price := .fin p, qty := .fin q })
      = (.fin (rounded 8 p), .fin (rounded 8 q)) := by
  simp [Okx.rowOf, toOkxLevel, Okx.LobLevel.asF64, parseF64_formatFixed]

/-- A level survives if and only if neither number has more than eight decimals. -/
theorem rowOf_toOkxLevel_eq_iff {kl : LobLevel} (h : kl.IsPositive) :
    Okx.rowOf (toOkxLevel kl) = (kl.price, kl.qty) ↔
      HasDecimals 8 kl.price ∧ HasDecimals 8 kl.qty := by
  obtain ⟨price, qty⟩ := kl
  obtain ⟨hprice, hqty⟩ := h
  cases price with
  | fin p =>
    cases qty with
    | fin q =>
      rw [rowOf_toOkxLevel, Prod.mk.injEq, F64.fin.injEq, F64.fin.injEq, rounded_eq_iff,
        rounded_eq_iff]
      rfl
    | negInf | posInf | nan => exact hqty.elim
  | negInf | posInf | nan => exact hprice.elim

/-- The second and the third field of `Survive` follow from the first. -/
theorem Survive.of_same {levels : List (Side × LobLevel)} {rows : List (Side × F64 × F64)}
    (h : ∀ (i : ℕ) (s : Side) (kl : LobLevel), levels[i]? = some (s, kl) → kl.IsPositive →
      rows[i]? = some (s, kl.price, kl.qty)) : Survive levels rows := by
  refine ⟨h, ?_, ?_⟩
  · intro i j s s' kl kl' hi hj hkl hkl' hne heq
    rw [h i s kl hi hkl, h j s' kl' hj hkl'] at heq
    exact hne (Option.some.inj heq)
  · intro i s kl hi hkl hzero
    rw [h i s kl hi hkl] at hzero
    have hqty : kl.qty = .fin 0 := Option.some.inj hzero
    have hpos := hkl.2
    rw [hqty] at hpos
    exact lt_irrefl _ hpos

end Kraken

/-- **When the levels of a message survive.** What is in the table for the levels of a message is
what Kraken sent if and only if no price and no quantity has more than eight decimals. -/
theorem kraken_levels_survive_iff (rfc3339 : String → Option ℤ) (cfg : Config)
    (msg : Kraken.KrakenWsMessage) :
    Kraken.LevelsSurvive rfc3339 cfg msg ↔
      ∀ (s : Side) (kl : Kraken.LobLevel), (s, kl) ∈ msg.lobLevels → kl.IsPositive →
        HasDecimals 8 kl.price ∧ HasDecimals 8 kl.qty := by
  have hrow : ∀ (stamp : Stamp) (w : World), stamp.flushOk = true →
      ∀ (i : ℕ) (s : Side) (kl : Kraken.LobLevel), msg.lobLevels[i]? = some (s, kl) →
      (Kraken.newRows w (Kraken.persistMessage rfc3339 cfg stamp msg w))[i]?
        = some (s, Okx.rowOf (Kraken.toOkxLevel kl)) := by
    intro stamp w hflush i s kl hi
    rw [Kraken.newRows_persistMessage rfc3339 cfg hflush, List.getElem?_map, hi]
    rfl
  constructor
  · intro h s kl hkl hpos
    obtain ⟨i, hi⟩ := List.getElem?_of_mem hkl
    have hsame := (h { now := 0 } {} rfl).same i s kl hi hpos
    rw [hrow _ _ rfl i s kl hi, Option.some_inj, Prod.mk.injEq] at hsame
    exact (Kraken.rowOf_toOkxLevel_eq_iff hpos).mp hsame.2
  · intro h stamp w hflush
    refine Kraken.Survive.of_same fun i s kl hi hpos => ?_
    have hdecimals := h s kl (List.mem_of_getElem? hi) hpos
    rw [hrow stamp w hflush i s kl hi, (Kraken.rowOf_toOkxLevel_eq_iff hpos).mpr hdecimals]

namespace Kraken

/-- Two bids of a cheap instrument, with nine decimals. -/
def cheapMsg : KrakenWsMessage :=
  { channel := some "book"
    msgType := some "update"
    data := [.object [("bids", .array [
      .object [("price", .number (.float 11 9)), ("qty", .number (.float 1 9))],
      .object [("price", .number (.float 12 9)), ("qty", .number (.float 1 9))]])]] }

/-- Both bids are in the table with price 0.00000001 and size 0. -/
theorem levels_lost :
    ¬ ∀ (rfc3339 : String → Option ℤ) (cfg : Config) (msg : KrakenWsMessage),
      LevelsSurvive rfc3339 cfg msg := by
  intro h
  have hkept := (h (fun _ => none) okxConfig cheapMsg { now := 0 } {} rfl).kept 0 .bid
    { price := .fin (11 / 10 ^ 9), qty := .fin (1 / 10 ^ 9) } (by decide +kernel)
    ⟨by norm_num [F64.IsPositive], by norm_num [F64.IsPositive]⟩
  rw [newRows_persistMessage _ _ rfl] at hkept
  exact hkept (by decide +kernel)

end Kraken
end Cryptomeria
