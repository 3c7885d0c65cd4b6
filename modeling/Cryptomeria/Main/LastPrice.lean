import Cryptomeria.Main.Midway

/-!
# The last price of a status entry

The price of a trade gets into the status entry when the trade is read, and once more when it is
written to the database; a new entry has no price. So while a client reads, its entry shows the
price of the last trade that has come over the present connection, and without a connection it shows
none (`Process.lastPrice_run`). This is for prices that can be read: of one that cannot, OKX and
Bitstamp show the price zero when they have written the trade.
-/

set_option autoImplicit false

namespace Cryptomeria

/-! ## The handlers -/

/-- The price that a message brings, and the messages whose price can be read. The handlers write
this price and no other. -/
structure ClientSpec.Updates.TellPrice {c : ClientSpec} (u : c.Updates)
    (price : c.Msg → Option F64) (readable : c.Msg → Prop) : Prop where
  message : ∀ cfg stamp msg before after, readable msg → ∀ px,
    (∃ now, .lastPrice now px ∈ u.message cfg stamp msg before after) ↔ price msg = some px
  answer : ∀ cfg stamp a before after now px,
    .lastPrice now px ∉ u.answer cfg stamp a before after

theorem lastPrice_not_mem_publishUpdates {now now' : ℕ} {book : OrderBook} {px : F64} :
    Update.lastPrice now' px ∉ publishUpdates now book := by
  simp [publishUpdates, lobUpdates, depthUpdates]

/-- Updates with one price among them. -/
theorem exists_lastPrice_iff {us : List Update} {px' : F64}
    (hsome : ∃ now, Update.lastPrice now px' ∈ us)
    (honly : ∀ now px, Update.lastPrice now px ∈ us → px = px') (px : F64) :
    (∃ now, Update.lastPrice now px ∈ us) ↔ some px' = some px := by
  constructor
  · rintro ⟨now, hmem⟩
    rw [honly now px hmem]
  · intro heq
    rwa [← Option.some.inj heq]

/-- Updates with no price among them. -/
theorem not_exists_lastPrice_iff {us : List Update}
    (hnone : ∀ now px, Update.lastPrice now px ∉ us) (px : F64) :
    (∃ now, Update.lastPrice now px ∈ us) ↔ none = some px := by
  constructor
  · rintro ⟨now, hmem⟩
    exact absurd hmem (hnone now px)
  · intro h
    cases h

namespace Okx

/-- The trade that the handler reports; it looks for one in every message that is not for the
book. -/
def reportedTrade (msg : OkxWsMessage) : Option TradeData :=
  match msg.messageType with
  | .l2Snapshot | .l2Update | .l2 => none
  | .trade | .event | .unknown => firstTrade msg

def tradePrice (msg : OkxWsMessage) : Option F64 :=
  (reportedTrade msg).bind fun trade => parseF64 trade.px

def PriceReadable (msg : OkxWsMessage) : Prop :=
  ∀ trade ∈ reportedTrade msg, (parseF64 trade.px).isSome

theorem tellPrice : updates.TellPrice tradePrice PriceReadable where
  message cfg stamp msg _ book hread px := by
    show (∃ now, .lastPrice now px ∈ messageUpdates cfg stamp msg book) ↔ _
    unfold messageUpdates persistUpdates
    unfold PriceReadable reportedTrade at hread
    unfold tradePrice reportedTrade
    cases hm : msg.messageType with
    | l2Snapshot | l2Update | l2 =>
      apply not_exists_lastPrice_iff
      intro now px
      simpa using lastPrice_not_mem_publishUpdates
    | trade | event | unknown =>
      simp only [hm] at hread
      cases htrade : firstTrade msg with
      | none =>
        apply not_exists_lastPrice_iff
        simp
      | some trade =>
        obtain ⟨px', hpx'⟩ := Option.isSome_iff_exists.mp (hread trade htrade)
        simp only [Option.bind_some, hpx', Option.map_some, Option.toList, Option.getD_some]
        apply exists_lastPrice_iff
        · exact ⟨stamp.now, by simp⟩
        · intro now px hmem
          cases cfg.sender <;> cases stamp.flushOk <;> simp at hmem <;> tauto
  answer _ _ a := a.elim

end Okx

namespace Kraken

def tradePrice (msg : KrakenWsMessage) : Option F64 :=
  match msg.messageType with
  | .trade => (firstTrade msg).map fun trade => trade.price
  | .l2Snapshot | .l2Update | .l2 | .event | .status | .heartbeat | .unknown => none

theorem tellPrice (rfc3339 : String → Option ℤ) :
    (updates rfc3339).TellPrice tradePrice fun _ => True where
  message _ stamp msg _ book _ px := by
    show (∃ now, .lastPrice now px ∈ messageUpdates stamp msg book) ↔ _
    unfold messageUpdates tradePrice
    cases msg.messageType with
    | l2Snapshot | l2Update | l2 =>
      apply not_exists_lastPrice_iff
      intro now px
      simpa using lastPrice_not_mem_publishUpdates
    | event | status | heartbeat | unknown =>
      apply not_exists_lastPrice_iff
      simp
    | trade =>
      cases firstTrade msg with
      | none =>
        apply not_exists_lastPrice_iff
        simp
      | some trade =>
        apply exists_lastPrice_iff
        · exact ⟨stamp.now, by simp⟩
        · intro now px hmem
          simp at hmem
          tauto
  answer _ _ a := a.elim

end Kraken

namespace Bitstamp

def reportedTrade (msg : BitstampWsMessage) : Option TradeData :=
  match msg.messageType with
  | .trade => tradeOf msg
  | .l2Snapshot | .l2Update | .event | .unknown => none

def tradePrice (msg : BitstampWsMessage) : Option F64 :=
  (reportedTrade msg).bind fun trade => parseF64 trade.price

def PriceReadable (msg : BitstampWsMessage) : Prop :=
  ∀ trade ∈ reportedTrade msg, (parseF64 trade.price).isSome

theorem tellPrice : updates.TellPrice tradePrice PriceReadable where
  message cfg stamp msg before after hread px := by
    show (∃ now, .lastPrice now px ∈ messageUpdates cfg stamp msg before after) ↔ _
    unfold messageUpdates persistUpdates
    unfold PriceReadable reportedTrade at hread
    unfold tradePrice reportedTrade
    cases hm : msg.messageType with
    | l2Snapshot | l2Update =>
      apply not_exists_lastPrice_iff
      intro now px
      cases before.snapshotApplied with
      | false => simp
      | true => cases cfg.sender <;> simpa using lastPrice_not_mem_publishUpdates
    | event | unknown =>
      apply not_exists_lastPrice_iff
      intro now px
      cases before.snapshotApplied <;> cases cfg.sender <;> simp
    | trade =>
      simp only [hm] at hread
      cases htrade : tradeOf msg with
      | none =>
        apply not_exists_lastPrice_iff
        intro now px
        cases before.snapshotApplied <;> cases cfg.sender <;> simp
      | some trade =>
        obtain ⟨px', hpx'⟩ := Option.isSome_iff_exists.mp (hread trade htrade)
        simp only [Option.bind_some, hpx', Option.map_some, Option.toList, Option.getD_some]
        apply exists_lastPrice_iff
        · refine ⟨stamp.now, ?_⟩
          cases before.snapshotApplied <;> simp
        · intro now px
          cases before.snapshotApplied <;> cases cfg.sender <;> cases stamp.flushOk <;>
            simp [hpx']
  answer _ stamp a _ after now px := by
    cases a with
    | ok snapshot => exact lastPrice_not_mem_publishUpdates
    | badJson | failed =>
      intro h
      cases h

end Bitstamp

/-- The price that a message of the exchange brings. -/
def Venue.tradePrice (rfc3339 : String → Option ℤ) :
    (x : Venue) → (x.client rfc3339).Msg → Option F64
  | okx => Okx.tradePrice
  | kraken => Kraken.tradePrice
  | bitstamp => Bitstamp.tradePrice

/-- If there is a trade in the message, its price can be read. -/
def Venue.PriceReadable (rfc3339 : String → Option ℤ) :
    (x : Venue) → (x.client rfc3339).Msg → Prop
  | okx => Okx.PriceReadable
  | kraken => fun _ => True
  | bitstamp => Bitstamp.PriceReadable

theorem Venue.tellPrice (rfc3339 : String → Option ℤ) (x : Venue) :
    (x.updates rfc3339).TellPrice (x.tradePrice rfc3339) (x.PriceReadable rfc3339) := by
  cases x with
  | okx => exact Okx.tellPrice
  | kraken => exact Kraken.tellPrice rfc3339
  | bitstamp => exact Bitstamp.tellPrice

/-! ## One client -/

/-- What some updates without a new entry do to the price of the entry. -/
theorem Slice.lastPrice_foldl {us : List Update} (hkeeps : KeepsEntry us) {sl : Slice}
    {entry : ClientStatus} (hentry : entry ∈ (us.foldl Slice.apply sl).status) :
    (∃ now px, .lastPrice now px ∈ us ∧ entry.lastPrice = some px) ∨
      (∀ now px, .lastPrice now px ∉ us) ∧
        ∃ before ∈ sl.status, entry.lastPrice = before.lastPrice := by
  induction us using List.reverseRecOn generalizing entry with
  | nil => exact Or.inr ⟨fun _ _ => List.not_mem_nil, entry, hentry, rfl⟩
  | append_singleton us up ih =>
    obtain ⟨hus, hup⟩ := List.forall_mem_append.mp hkeeps
    rw [List.foldl_concat] at hentry
    -- the entry before the last update, and what that update does to its price
    have hbefore : (∃ now px, up = .lastPrice now px ∧ entry.lastPrice = some px) ∨
        (∀ now px, up ≠ .lastPrice now px) ∧ ∃ before ∈ (us.foldl Slice.apply sl).status,
          entry.lastPrice = before.lastPrice := by
      cases up with
      | status st => exact absurd (hup _ (List.mem_singleton_self _)) (by simp [Update.isStatus])
      | lastPrice now px =>
        obtain ⟨before, -, rfl⟩ := Option.mem_map.mp hentry
        exact Or.inl ⟨now, px, rfl, rfl⟩
      | sizes =>
        obtain ⟨before, hbefore, rfl⟩ := Option.mem_map.mp hentry
        exact Or.inr ⟨by simp, before, hbefore, rfl⟩
      | gauge | depth | trade => exact Or.inr ⟨by simp, entry, hentry, rfl⟩
    rcases hbefore with ⟨now, px, rfl, hprice⟩ | ⟨hother, before, hbefore, hprice⟩
    · exact Or.inl ⟨now, px, by simp, hprice⟩
    · rw [hprice]
      rcases ih hus hbefore with ⟨now, px, hmem, hpx⟩ | ⟨hnone, first, hfirst, hpx⟩
      · exact Or.inl ⟨now, px, List.mem_append_left _ hmem, hpx⟩
      · refine Or.inr ⟨?_, first, hfirst, hpx⟩
        intro now px hmem
        rcases List.mem_append.mp hmem with h | h
        · exact hnone now px h
        · exact hother now px (List.mem_singleton.mp h).symm

section Steps

variable {c : ClientSpec} {u : c.Updates} {cfg : Config} {price : c.Msg → Option F64}
  {readable : c.Msg → Prop} (hu : u.TellPrice price readable)
include hu

/-- A handler writes the price of the message that it has read. -/
theorem Conn.exists_lastPrice_iff {filter : Option LobFilter} {conn : Conn c} {e : ConnEvent c}
    (hread : ∀ msg ∈ conn.reads e, readable msg) (px : F64) :
    (∃ now, .lastPrice now px ∈ conn.updates u cfg filter e) ↔
      (conn.reads e).bind price = some px := by
  cases e with
  | arrive item => simp [updates, reads]
  | answer stamp a =>
    have hnone : ∀ now, .lastPrice now px ∉ conn.updates u cfg filter (.answer stamp a) := by
      intro now
      simp only [updates]
      cases conn.takes (.answer stamp a) with
      | none => simp
      | some _ => exact hu.answer _ _ _ _ _ now px
    simp [hnone, reads]
  | poll stamp =>
    simp only [updates]
    cases hreads : conn.reads (.poll stamp) with
    | none => simp
    | some msg => exact hu.message _ _ _ _ _ (hread msg hreads) px

namespace Client

/-- The price of the last trade that has come over the present connection. -/
def quote (price : c.Msg → Option F64) (st : Client c) : Option F64 :=
  (st.conn.received.filterMap price).getLast?

/-- What the price of the entry is while the client is in this state. -/
structure Quotes (price : c.Msg → Option F64) (readable : c.Msg → Prop) (st : Client c)
    (entry : ClientStatus) : Prop where
  blank : st.phase.bookless = true → entry.lastPrice = none
  traded : st.phase = .reading → (∀ msg ∈ st.conn.received, readable msg) →
    entry.lastPrice = st.quote price

/-- The part of it that is not in `Mirrors`. -/
structure Traded (cfg : Config) (price : c.Msg → Option F64) (readable : c.Msg → Prop)
    (st : Client c) : Prop where
  unread : ∀ second, st.phase = .subscribing second → st.conn.received = []
  traded : st.phase = .reading → (∀ msg ∈ st.conn.received, readable msg) →
    ∀ entry ∈ (st.slice cfg).status, entry.lastPrice = st.quote price

variable {st : Client c}

omit hu in
/-- Reading goes on: no new entry was written. -/
theorem readUpdates_of_reading {e : ConnEvent c} (h : (st.read cfg e).phase = .reading) :
    st.readUpdates u cfg e = st.conn.updates u cfg cfg.lobFilter e := by
  unfold readUpdates
  cases e with
  | arrive | answer => exact List.append_nil _
  | poll stamp =>
    dsimp only
    split
    · rename_i hdisconnected
      simp only [read, hdisconnected.1, hdisconnected.2] at h
      cases h
    · exact List.append_nil _

omit hu in
theorem read_ne_subscribing (hphase : st.phase = .reading) (e : ConnEvent c) (second : Bool) :
    (st.read cfg e).phase ≠ .subscribing second := by
  unfold read
  cases e with
  | arrive item => simp [hphase]
  | answer stamp a =>
    dsimp only
    split <;> simp [hphase]
  | poll stamp =>
    dsimp only
    split
    · simp
    · split <;> simp [disconnect, sleep]
    · split <;> simp [hphase]

omit hu in
theorem received_read (e : ConnEvent c) :
    (st.read cfg e).conn.received = st.conn.received ++ (st.conn.reads e).toList := by
  rw [read_conn]
  exact Conn.received_step cfg cfg.lobFilter (st.conn, st.world) e

omit hu in
theorem quote_read (e : ConnEvent c) :
    (st.read cfg e).quote price = ((st.conn.reads e).bind price).or (st.quote price) := by
  rw [quote, received_read, List.filterMap_append, List.getLast?_append]
  cases st.conn.reads e with
  | none => rfl
  | some msg => cases hprice : price msg <;> simp [hprice, quote]

/-- In the read loop the price changes with the quote. -/
theorem traded_read (hkeeps : u.KeepsEntry) (hstatus : cfg.statusHandle = true)
    (hphase : st.phase = .reading) (h : st.Traded cfg price readable) {e : ConnEvent c}
    (hnext : (st.read cfg e).phase = .reading)
    (hread : ∀ msg ∈ (st.read cfg e).conn.received, readable msg) :
    ∀ entry ∈ ((st.read cfg e).slice cfg).status,
      entry.lastPrice = (st.read cfg e).quote price := by
  intro entry hentry
  rw [received_read, List.forall_mem_append] at hread
  have hmsg : ∀ msg ∈ st.conn.reads e, readable msg :=
    fun msg hmem => hread.2 msg (Option.mem_toList.mpr hmem)
  have hslice : (st.read cfg e).slice cfg
      = (st.conn.updates u cfg cfg.lobFilter e).foldl Slice.apply (st.slice cfg) := by
    rw [slice, shared_read u hstatus, slice_foldl_apply, readUpdates_of_reading hnext]
    rfl
  rw [hslice] at hentry
  rw [quote_read]
  have hwrites := @Conn.exists_lastPrice_iff _ _ cfg _ _ hu cfg.lobFilter st.conn e hmsg
  rcases Slice.lastPrice_foldl (Conn.keepsEntry_updates hkeeps) hentry with
    ⟨now, px, hmem, hpx⟩ | ⟨hnone, before, hbefore, hsame⟩
  · rw [(hwrites px).mp ⟨now, hmem⟩, hpx]
    rfl
  · have hnoPrice : (st.conn.reads e).bind price = none := by
      rw [Option.eq_none_iff_forall_ne_some]
      intro px hpx
      obtain ⟨now, hmem⟩ := (hwrites px).mpr hpx
      exact hnone now px hmem
    rw [hnoPrice, hsame]
    exact h.traded hphase hread.1 before hbefore

theorem traded_step (hkeeps : u.KeepsEntry) (hstatus : cfg.statusHandle = true)
    (hmirrors : st.Mirrors cfg) (h : st.Traded cfg price readable) (e : Event c) :
    (st.step cfg e).Traded cfg price readable := by
  have hother : ∀ st' : Client c, (∀ second, st'.phase ≠ .subscribing second) →
      st'.phase ≠ .reading → st'.Traded cfg price readable :=
    fun st' hsub hread => ⟨fun second h => absurd h (hsub second), fun h => absurd h hread⟩
  unfold step
  split
  · exact ⟨fun _ _ => rfl, nofun⟩
  · exact hother _ (fun _ => by simp [sleep]) (by simp [sleep])
  · rename_i hphase
    exact ⟨fun _ _ => h.unread false hphase, nofun⟩
  · rename_i hphase
    -- the loop begins, and nothing is shown or read yet
    refine ⟨nofun, fun _ _ entry hentry => ?_⟩
    have hblank := hmirrors.showsBlank (by rw [hphase]; rfl) entry hentry
    rw [hblank.lastPrice, quote, h.unread true hphase]
    rfl
  · exact hother _ (fun _ => by simp [sleep]) (by simp [sleep])
  · rename_i second item hphase
    refine ⟨fun _ _ => h.unread second hphase, fun hreading => ?_⟩
    rw [show (st.read cfg (.arrive item)).phase = st.phase from rfl, hphase] at hreading
    cases hreading
  · rename_i e hphase
    refine ⟨fun second hsub => ?_, traded_read hu hkeeps hstatus hphase h⟩
    exact absurd hsub (read_ne_subscribing hphase e second)
  · split
    · exact h
    · exact hother _ (fun _ => by simp) (by simp)
  · rename_i site delay signal hphase
    cases site <;> cases signal <;>
      exact hother _ (fun _ => by simp [wake, connect]) (by simp [wake, connect])
  · exact h

theorem traded_run (hkeeps : u.KeepsEntry) (hc : c.Mirrors) (hstatus : cfg.statusHandle = true)
    {w : World} (hw : w.ShowsBlank cfg) (es : List (Event c)) :
    (run c cfg w es).Traded cfg price readable := by
  have hboth : (run c cfg w es).Mirrors cfg ∧ (run c cfg w es).Traded cfg price readable :=
    (Trace.always_of_inductive
      (I := fun st : Client c => st.Mirrors cfg ∧ st.Traded cfg price readable)
      (H := fun _ => True) (s := start c cfg w) ⟨hw, fun _ _ => rfl, nofun⟩ (fun _ _ => trivial)
      fun _ e h _ => ⟨mirrors_step hc hstatus h.1 e,
        traded_step hu hkeeps hstatus h.1 h.2 e⟩).last
  exact hboth.2

theorem quotes_run (hkeeps : u.KeepsEntry) (hc : c.Mirrors) (hstatus : cfg.statusHandle = true)
    {w : World} (hw : w.ShowsBlank cfg) (own : List (Event c)) :
    ∀ entry ∈ ((run c cfg w own).slice cfg).status,
      (run c cfg w own).Quotes price readable entry := by
  intro entry hentry
  constructor
  · intro hphase
    exact ((mirrors_run hc hstatus hw own).showsBlank hphase entry hentry).lastPrice
  · intro hphase hread
    exact (traded_run hu hkeeps hc hstatus hw own).traded hphase hread entry hentry

/-- An update keeps the price of the entry, or sets it to what the client will show. -/
theorem quotes_apply (htells : u.TellBook) (hkeeps : u.KeepsEntry) {e : Event c} {up : Update}
    (hup : up ∈ st.updates u cfg e) {sl : Slice} {entry : ClientStatus}
    (hentry : entry ∈ (sl.apply up).status) :
    (st.step cfg e).Quotes price readable entry ∨
      ∃ before ∈ sl.status, ∀ st : Client c, st.Quotes price readable before →
        st.Quotes price readable entry := by
  have hkept : ∀ before : ClientStatus, entry.lastPrice = before.lastPrice →
      ∀ st : Client c, st.Quotes price readable before → st.Quotes price readable entry := by
    intro before hsame st h
    exact ⟨fun hp => hsame.trans (h.blank hp), fun hp hr => hsame.trans (h.traded hp hr)⟩
  have hfrom := updates_step htells st e up hup
  cases hfrom with
  | gauge | depth | trade => exact Or.inr ⟨entry, hentry, hkept entry rfl⟩
  | sizes now =>
    obtain ⟨before, hbefore, rfl⟩ := Option.mem_map.mp hentry
    exact Or.inr ⟨before, hbefore, hkept before rfl⟩
  | blank hblank =>
    rw [← Option.some.inj hentry]
    have hphase := bookless_of_status hkeeps hup
    refine Or.inl ⟨fun _ => hblank.lastPrice, fun hreading => ?_⟩
    rw [hreading] at hphase
    cases hphase
  | lastPrice now px =>
    obtain ⟨before, -, rfl⟩ := Option.mem_map.mp hentry
    left
    obtain ⟨e, rfl, hphase, hhandler⟩ := exists_handler hup rfl
    have hread : st.step cfg (.link e) = st.read cfg e := by simp only [step, hphase]
    refine ⟨fun hbookless => ?_, fun _ hreadable => ?_⟩
    · rw [not_bookless_of_mem hup rfl] at hbookless
      cases hbookless
    · rw [hread, received_read, List.forall_mem_append] at hreadable
      have hprice : (st.conn.reads e).bind price = some px :=
        (Conn.exists_lastPrice_iff hu
          (fun msg hmem => hreadable.2 msg (Option.mem_toList.mpr hmem)) px).mp ⟨now, hhandler⟩
      rw [hread, quote_read, hprice]
      rfl

end Client

end Steps

/-! ## All tasks -/

namespace Process

variable {rfc3339 : String → Option ℤ} {uni : Unicode} {cli : CliArgs}
  {tasks : List ResolvedInstrument} {i : Fin tasks.length}

/-- **The last price of `/status`.** At every moment of every interleaving, also while a handler is
at work, `/status` has an entry for a running task whose key is its own. Its price is that of one
state of the client, the last or the last but one: while the client reads, the price that the last
trade message of the present connection reports, if the prices can be read, and none without a
connection. -/
theorem lastPrice_run
    (hkey : ∀ j, j ≠ i → (instrumentOf j).statusKey ≠ (instrumentOf i).statusKey)
    (es : List (ProcessEvent rfc3339 tasks)) {wsUrl : String} {sender : Bool}
    {client : Client ((instrumentOf i).venue.client rfc3339)} {pending : List Update}
    (htask : (run uni cli es).task i = .running wsUrl sender client pending) :
    ∃ own, client = Client.run _ (cli.config uni (instrumentOf i) wsUrl sender)
        (startingWorld (instrumentOf i)) own ∧
      ∃ entry, ((run uni cli es).report i).status = some entry ∧
        ∃ pre, pre <+: own ∧ own.length ≤ pre.length + 1 ∧
          (Client.run _ (cli.config uni (instrumentOf i) wsUrl sender)
            (startingWorld (instrumentOf i)) pre).Quotes
              ((instrumentOf i).venue.tradePrice rfc3339)
              ((instrumentOf i).venue.PriceReadable rfc3339) entry := by
  obtain ⟨own, hrun, hmidway⟩ := midway_run hkey es htask
  obtain ⟨entry, hentry⟩ := entry_run hkey es htask
  refine ⟨own, hrun, entry, hentry, ?_⟩
  have hkeeps := (instrumentOf i).venue.keepsEntry rfc3339
  have htells := (instrumentOf i).venue.tellPrice rfc3339
  refine hmidway.shown (D := Client.Quotes _ _)
    (Client.quotes_run htells hkeeps ((instrumentOf i).venue.mirrors rfc3339) rfl
      showsBlank_startingWorld)
    (fun own e up hup sl entry hentry => ?_) hentry
  exact Client.quotes_apply htells ((instrumentOf i).venue.tellBook rfc3339) hkeeps hup hentry

/-- A trade arrives and is read. -/
def tradeEvents : List (Event Okx.client) :=
  [.link (.arrive (.text "" (some
      { arg := some { channel := "trades", instId := "BTC-USDT" }
        data := [tradeObject "1" "100" "2"] }))),
    .link (.poll { now := 5 })]

theorem lastPrice_run_trade :
    ∃ entry, ((run .ascii {} (twoTasksRun false ++ tradeEvents.map firstHandles)).report
        firstTask).status = some entry ∧
      ∃ own pre, pre <+: own ∧ own.length ≤ pre.length + 1 ∧
        (Client.run ((instrumentOf firstTask).venue.client fun _ => none) (firstConfig false)
          (startingWorld (instrumentOf firstTask)) pre).Quotes
            ((instrumentOf firstTask).venue.tradePrice fun _ => none)
            ((instrumentOf firstTask).venue.PriceReadable fun _ => none) entry := by
  obtain ⟨own, -, entry, hentry, pre, hpre, hlength, hquotes⟩ :=
    @lastPrice_run (fun _ => none) .ascii {} _ firstTask (by decide +kernel)
      (twoTasksRun false ++ tradeEvents.map firstHandles) _ _ _ _ rfl
  exact ⟨entry, hentry, own, pre, hpre, hlength, hquotes⟩

end Process

end Cryptomeria
