import Cryptomeria.Lob.History

/-!
# Messages that come twice

Sizes are absolute, so an unfiltered book does not mind if the exchange takes up the stream at an
earlier point: while the old messages come again it may show old sizes, but when they are through it
is as if they had come once (`Exchange.resumed`). Single orders are another matter, since they
add up.
-/

set_option autoImplicit false

namespace Cryptomeria

open WriteLog

namespace Exchange

variable {x : Exchange} {msgs : List x.model.Msg} {b b' : x.model.Book} {s : Side}

/-- A run of the book without a filter. -/
def follow (x : Exchange) (b : x.model.Book) (msgs : List x.model.Msg) : x.model.Book :=
  msgs.foldl (fun b msg => x.model.processMsg msg none b) b

/-- A run replays the entries that count, on an empty side if one of its messages resets it. -/
theorem side_follow (hmsgs : ∀ msg ∈ msgs, x.model.kind msg ≠ .order) (b : x.model.Book)
    (s : Side) :
    x.model.side (x.follow b msgs) s
      = replay (if msgs.any fun msg => x.resets msg s then ∅ else x.model.side b s)
          (writes (x.history msgs s)) := by
  induction msgs using List.reverseRecOn with
  | nil => rfl
  | append_singleton msgs msg ih =>
    obtain ⟨hearlier, hlast⟩ := List.forall_mem_append.mp hmsgs
    have hstep := side_step (hlast msg (List.mem_singleton_self msg)) (x.follow b msgs) s
    rw [follow, List.foldl_concat, ← follow, hstep, ih hearlier, history_concat, List.any_append]
    cases hres : x.resets msg s with
    | true => simp [hres]
    | false =>
      have hwrites : writes (x.history msgs s ++ x.counted msg s)
          = writes (x.history msgs s) ++ writes (x.counted msg s) := List.map_append
      simp [hres, hwrites, replay_append]

/-- A run leads from equal sides to equal sides. -/
theorem side_follow_congr (hmsgs : ∀ msg ∈ msgs, x.model.kind msg ≠ .order)
    (h : x.model.side b s = x.model.side b' s) :
    x.model.side (x.follow b msgs) s = x.model.side (x.follow b' msgs) s := by
  rw [side_follow hmsgs, side_follow hmsgs, h]

/-- The same messages once more. -/
theorem side_follow_again (hmsgs : ∀ msg ∈ msgs, x.model.kind msg ≠ .order) (b : x.model.Book)
    (s : Side) :
    x.model.side (x.follow (x.follow b msgs) msgs) s = x.model.side (x.follow b msgs) s := by
  rw [side_follow hmsgs, side_follow hmsgs]
  cases msgs.any fun msg => x.resets msg s with
  | true => rfl
  | false => exact replay_idem _ _

/-- **A stream that is taken up again.** The exchange has delivered `pre` and `again`, and then goes
on from the beginning of `again`. After that, and from then on, the sides of an unfiltered book are
as if nothing had come twice. -/
theorem resumed (x : Exchange) (pre again post : List x.model.Msg)
    (hagain : ∀ msg ∈ again, x.model.kind msg ≠ .order)
    (hpost : ∀ msg ∈ post, x.model.kind msg ≠ .order) (s : Side) :
    x.levelsAfter (pre ++ again ++ again ++ post) s = x.levelsAfter (pre ++ again ++ post) s := by
  have hfollow : ∀ msgs, x.levelsAfter msgs s = x.model.side (x.follow x.model.new msgs) s :=
    fun _ => rfl
  have happend : ∀ b (l l' : List x.model.Msg), x.follow b (l ++ l') = x.follow (x.follow b l) l' :=
    fun _ _ _ => List.foldl_append
  rw [hfollow, hfollow, happend, happend _ (pre ++ again) post]
  apply side_follow_congr hpost
  rw [happend, happend]
  exact side_follow_again hagain _ s

/-- An update comes again, and then a new one. -/
theorem resumed_update :
    Exchange.okx.levelsAfter
        ([Okx.booksMsg "snapshot" [("100", "1")] []] ++ [Okx.booksMsg "update" [("99", "2")] []]
          ++ [Okx.booksMsg "update" [("99", "2")] []]
          ++ [Okx.booksMsg "update" [("100", "0")] []]) .bid
      = Exchange.okx.levelsAfter
        ([Okx.booksMsg "snapshot" [("100", "1")] []] ++ [Okx.booksMsg "update" [("99", "2")] []]
          ++ [Okx.booksMsg "update" [("100", "0")] []]) .bid :=
  resumed .okx _ _ _ (fun _ _ => Lob.kindOf_ne_order) (fun _ _ => Lob.kindOf_ne_order) .bid

end Exchange

end Cryptomeria
