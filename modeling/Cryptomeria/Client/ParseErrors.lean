import Cryptomeria.Client.Venue

/-!
# Frames that cannot be parsed

A text frame that is no message is logged, the first 200 bytes of it at most, and the loop goes on.
Taking these bytes panics where a character lies across the limit: `malformed_goes_on_iff`. The
line is the same in the three clients.
-/

set_option autoImplicit false

namespace Cryptomeria

/-! ## Bytes and characters -/

def byteLength (cs : List Char) : ℕ := (cs.map Char.utf8Size).sum

@[simp] theorem byteLength_nil : byteLength [] = 0 := rfl

@[simp] theorem byteLength_cons (c : Char) (cs : List Char) :
    byteLength (c :: cs) = c.utf8Size + byteLength cs := by
  rw [byteLength, List.map_cons, List.sum_cons]
  rfl

theorem utf8ByteSize_ofList (cs : List Char) : (String.ofList cs).utf8ByteSize = byteLength cs := by
  induction cs with
  | nil => rfl
  | cons c cs ih =>
    rw [String.ofList_cons, String.utf8ByteSize_append, String.utf8ByteSize_singleton, ih,
      byteLength_cons]

/-- No character begins before byte `n` and ends after it. -/
def NoneAcross (n : ℕ) (cs : List Char) : Prop :=
  ∀ pre c post, cs = pre ++ c :: post → byteLength pre < n → byteLength pre + c.utf8Size ≤ n

theorem noneAcross_cons_iff {n : ℕ} {c : Char} {cs : List Char} (hn : 0 < n) :
    NoneAcross n (c :: cs) ↔ c.utf8Size ≤ n ∧ NoneAcross (n - c.utf8Size) cs := by
  constructor
  · intro h
    have hc : c.utf8Size ≤ n := by simpa using h [] c cs rfl hn
    refine ⟨hc, fun pre c' post hsplit hlt => ?_⟩
    have hnext := h (c :: pre) c' post (by rw [hsplit]; rfl) (by rw [byteLength_cons]; omega)
    rw [byteLength_cons] at hnext
    omega
  · rintro ⟨hc, h⟩ pre c' post hsplit hlt
    cases pre with
    | nil =>
      obtain ⟨rfl, -⟩ := List.cons.inj hsplit
      simpa using hc
    | cons d pre =>
      obtain ⟨rfl, hrest⟩ := List.cons.inj hsplit
      rw [byteLength_cons] at hlt ⊢
      have hnext := h pre c' post hrest (by omega)
      omega

/-- A byte within the text is a boundary if and only if no character lies across it. -/
theorem isCharBoundary_iff {cs : List Char} {n : ℕ} (hn : n ≤ byteLength cs) :
    isCharBoundary cs n = true ↔ NoneAcross n cs := by
  induction cs generalizing n with
  | nil =>
    obtain rfl : n = 0 := Nat.le_zero.mp hn
    exact iff_of_true (by rw [isCharBoundary]) fun pre c post h => by simp at h
  | cons c cs ih =>
    cases n with
    | zero => exact iff_of_true (by rw [isCharBoundary]) fun pre c' post h hlt => by omega
    | succ n =>
      rw [isCharBoundary, noneAcross_cons_iff n.succ_pos, Bool.and_eq_true, decide_eq_true_eq]
      refine and_congr_right fun hc => ih ?_
      rw [byteLength_cons] at hn
      omega

/-- The characters in the first `n` bytes. -/
def takeBytes : List Char → ℕ → List Char
  | [], _ => []
  | c :: cs, n => if c.utf8Size ≤ n then c :: takeBytes cs (n - c.utf8Size) else []

theorem takeBytes_prefix (cs : List Char) (n : ℕ) : takeBytes cs n <+: cs := by
  induction cs generalizing n with
  | nil => exact List.prefix_rfl
  | cons c cs ih =>
    rw [takeBytes]
    split
    · exact List.cons_prefix_cons.mpr ⟨rfl, ih _⟩
    · exact List.nil_prefix

theorem byteLength_takeBytes {cs : List Char} {n : ℕ} (h : isCharBoundary cs n = true) :
    byteLength (takeBytes cs n) = n := by
  induction cs generalizing n with
  | nil =>
    cases n with
    | zero => rfl
    | succ n => simp [isCharBoundary] at h
  | cons c cs ih =>
    cases n with
    | zero =>
      have hsize := c.utf8Size_pos
      rw [takeBytes, if_neg (by omega), byteLength_nil]
    | succ n =>
      rw [isCharBoundary, Bool.and_eq_true, decide_eq_true_eq] at h
      rw [takeBytes, if_pos h.1, byteLength_cons, ih h.2]
      omega

/-! ## The frame -/

/-- `&text[..text.len().min(200)]`; none where it panics. -/
def shownRaw (raw : String) : Option String :=
  if sliceable raw then some (String.ofList (takeBytes raw.toList (min raw.utf8ByteSize 200)))
  else none

theorem sliceable_iff {raw : String} :
    sliceable raw = true ↔ NoneAcross 200 raw.toList := by
  have hsize : raw.utf8ByteSize = byteLength raw.toList := by
    rw [← utf8ByteSize_ofList, String.ofList_toList]
  rw [sliceable, hsize, isCharBoundary_iff (min_le_left _ _)]
  rcases le_total (byteLength raw.toList) 200 with hshort | hlong
  · rw [min_eq_left hshort]
    -- no character of the text ends after the text does
    have hend : ∀ pre c post, raw.toList = pre ++ c :: post →
        byteLength pre + c.utf8Size ≤ byteLength raw.toList := by
      intro pre c post hsplit
      rw [hsplit, byteLength, byteLength, List.map_append, List.sum_append, List.map_cons,
        List.sum_cons]
      omega
    refine iff_of_true (fun pre c post hsplit _ => hend pre c post hsplit) ?_
    exact fun pre c post hsplit _ => (hend pre c post hsplit).trans hshort
  · rw [min_eq_right hlong]

/-- What the log line shows is the first 200 bytes of the frame, or all of it. -/
def Shown (raw shown : String) : Prop :=
  shownRaw raw = some shown ∧ shown.toList <+: raw.toList ∧
    shown.utf8ByteSize = min raw.utf8ByteSize 200

theorem exists_shown {raw : String} (h : sliceable raw = true) : ∃ shown, Shown raw shown := by
  refine ⟨_, if_pos h, ?_, ?_⟩
  · rw [String.toList_ofList]
    exact takeBytes_prefix _ _
  · rw [utf8ByteSize_ofList]
    exact byteLength_takeBytes h

variable {c : ClientSpec}

/-- The frame is logged and the loop goes on to `rest`: the session (the order book and, for
Bitstamp, the buffer and the flags) is what it was, and so is the world with its message counter. A
signal that has been noted before ends the loop after any frame. -/
structure GoesOn (raw : String) (rest : List (ReadItem c.Msg)) (st st' : Client c) : Prop where
  logged : ∃ shown, Shown raw shown
  alive : st'.phase ≠ .panicked
  reading : st.shutdown = false → st'.phase = .reading
  socket : st'.conn.socket = rest
  notEnded : st'.conn.ending = none
  session : st'.conn.session = st.conn.session
  world : st'.world = st.world

variable {cfg : Config} {st : Client c} {raw : String} {rest : List (ReadItem c.Msg)}

theorem conn_step_malformed (cfg : Config) (stamp : Stamp) (w : World) {conn : Conn c}
    (hready : conn.ready = true) (hsocket : conn.socket = .text raw none :: rest) :
    Conn.step cfg cfg.lobFilter (conn, w) (.poll stamp)
      = if sliceable raw then ({ conn with socket := rest }, w)
        else ({ conn with socket := rest, ending := some .panicked }, w) := by
  simp only [Conn.step, hready, hsocket, Conn.handle]

theorem goesOn_iff_sliceable (stamp : Stamp) (hreading : st.phase = .reading)
    (hready : st.conn.ready = true) (hsocket : st.conn.socket = .text raw none :: rest) :
    GoesOn raw rest st (st.step cfg (.link (.poll stamp))) ↔ sliceable raw = true := by
  obtain ⟨hopen, hanswered⟩ : st.conn.ending = none ∧ c.awaiting st.conn.session = false := by
    simpa [Conn.ready] using hready
  have hstep : st.step cfg (.link (.poll stamp)) = st.read cfg (.poll stamp) := by
    simp only [Client.step, hreading]
  have hconn := conn_step_malformed cfg stamp st.world hready hsocket
  rw [hstep]
  unfold Client.read
  rw [hconn]
  cases hraw : sliceable raw with
  | false =>
    rw [if_neg Bool.false_ne_true]
    exact iff_of_false (fun h => h.alive rfl) Bool.false_ne_true
  | true =>
    rw [if_pos rfl]
    refine iff_of_true ?_ rfl
    simp only [hopen, hanswered, hsocket, List.isEmpty_cons, Bool.not_false, Bool.and_true]
    cases hshutdown : st.shutdown with
    | true =>
      rw [if_pos rfl]
      have hnoted : st.shutdown ≠ false := by simp [hshutdown]
      exact ⟨exists_shown hraw, nofun, fun h => absurd h hnoted, rfl, rfl, rfl, rfl⟩
    | false =>
      rw [if_neg Bool.false_ne_true]
      have halive : st.phase ≠ .panicked := by simp [hreading]
      exact ⟨exists_shown hraw, halive, fun _ => hreading, rfl, rfl, rfl, rfl⟩

/-- **When a malformed frame cannot stop a client**: in every state of the read loop, if and only
if no character of it lies across byte 200. -/
theorem Venue.malformed_goes_on_iff (x : Venue) (rfc3339 : String → Option ℤ) (cfg : Config)
    (st : Client (x.client rfc3339)) (stamp : Stamp) (raw : String)
    (rest : List (ReadItem (x.client rfc3339).Msg)) (hreading : st.phase = .reading)
    (hready : st.conn.ready = true) (hsocket : st.conn.socket = .text raw none :: rest) :
    GoesOn raw rest st (st.step cfg (.link (.poll stamp))) ↔ NoneAcross 200 raw.toList := by
  rw [goesOn_iff_sliceable stamp hreading hready hsocket, sliceable_iff]

/-- An OKX client in its read loop, with a text that is no message. -/
def readingText (raw : String) : Client Okx.client :=
  { phase := .reading, conn := { session := OrderBook.new, socket := [.text raw none] } }

/-- A character of two bytes before 250 letters. -/
def longText : String := String.ofList ('é' :: List.replicate 250 'a')

theorem noneAcross_letters (n k : ℕ) : NoneAcross n (List.replicate k 'a') := by
  intro pre c post hsplit hbefore
  have hletter : c ∈ List.replicate k 'a' := by
    rw [hsplit]
    exact List.mem_append_right pre List.mem_cons_self
  rw [List.eq_of_mem_replicate hletter]
  exact hbefore

theorem noneAcross_longText : NoneAcross 200 longText.toList := by
  have hchars : longText.toList = 'é' :: List.replicate 250 'a' := String.toList_ofList
  rw [hchars, noneAcross_cons_iff (by decide)]
  exact ⟨by decide, noneAcross_letters _ _⟩

theorem Venue.malformed_goes_on_iff_longText :
    GoesOn longText [] (readingText longText)
      ((readingText longText).step okxConfig (.link (.poll { now := 0 }))) :=
  (Venue.malformed_goes_on_iff .okx (fun _ => none) okxConfig (readingText longText) { now := 0 }
    longText [] rfl rfl rfl).mpr noneAcross_longText

/-- A character of two bytes after 199 letters. -/
def acrossText : String := String.ofList (List.replicate 199 'a' ++ ['é'])

theorem Venue.malformed_stops :
    ¬ ∀ (x : Venue) (rfc3339 : String → Option ℤ) (cfg : Config) (st : Client (x.client rfc3339))
      (stamp : Stamp) (raw : String) (rest : List (ReadItem (x.client rfc3339).Msg)),
      st.phase = .reading → st.conn.ready = true → st.conn.socket = .text raw none :: rest →
        GoesOn raw rest st (st.step cfg (.link (.poll stamp))) := by
  intro h
  have hgoes := h .okx (fun _ => none) okxConfig (readingText acrossText) { now := 0 } acrossText []
    rfl rfl rfl
  have hraw : sliceable acrossText = true := (goesOn_iff_sliceable _ rfl rfl rfl).mp hgoes
  have hbefore : byteLength (List.replicate 199 'a') = 199 := by
    rw [byteLength, List.map_replicate, List.sum_replicate]
    rfl
  have hacross := sliceable_iff.mp hraw (List.replicate 199 'a') 'é' []
    String.toList_ofList (by rw [hbefore]; decide)
  rw [hbefore] at hacross
  exact absurd hacross (by decide)

end Cryptomeria
