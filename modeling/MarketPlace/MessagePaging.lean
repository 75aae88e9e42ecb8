import MarketPlace.ConversationOpening
import MarketPlace.CursorPaging

/-!
# Paging through the messages of a conversation

The client of the pagination guide passes the time of the oldest message of a
page as the next cursor.  The messages have microseconds, but the returned
time is in milliseconds and the comparison with it is strict, so a message
within the millisecond of the cursor is skipped.
-/

namespace MarketPlace.Trade

open CursorPaging Interleaving

/-! ## The client -/

/-- The pages that a client fetches until one is empty.  Page `k` is fetched
from `markets k`; the cursor is the time of the oldest message so far. -/
def fetchMessages (userId conversationId limit : ℕ) (markets : ℕ → Market)
    (draws : ℕ → Draw) : ℕ → ℕ → Option ℕ → Option (List MessageView)
  | 0, _, _ => none
  | fuel + 1, k, cursor =>
      match (listMessages userId conversationId limit cursor).runAlone k
        (draws k) (markets k) with
      | some (.ok messages, _) =>
          match messages.getLast? with
          | none => some []
          | some oldest =>
              (fetchMessages userId conversationId limit markets draws fuel
                (k + 1) (some (1000 * oldest.sentAt))).map (messages ++ ·)
      | _ => none

/-- The client stops, and has seen each of the messages once, the newest
first. -/
def PagesComplete (userId conversationId limit : ℕ) (markets : ℕ → Market)
    (draws : ℕ → Draw) (messages : List MessageRow) : Prop :=
  ∃ fuel rows,
    fetchMessages userId conversationId limit markets draws fuel 0 none =
      some (rows.map messageView) ∧
    rows.Perm messages ∧ NewestFirst MessageRow.sentAt rows

/-- At the end of every full page the next message was sent in an earlier
millisecond than the last one. -/
def ApartAtPageEnds (limit : ℕ) (messages : List MessageRow) : Prop :=
  let times := (messages.map MessageRow.sentAt).mergeSort
    fun time other => other ≤ time
  ∀ k last next, times[(k + 1) * limit - 1]? = some last →
    times[(k + 1) * limit]? = some next →
      milliseconds next < milliseconds last

/-! ## One page -/

/-- The cursor that the client makes of a time. -/
def cursorOf (time : ℕ) : ℕ := 1000 * milliseconds time

theorem cursorOf_le (time : ℕ) : cursorOf time ≤ time :=
  Nat.mul_div_le time 1000

theorem lt_cursorOf_iff {time other : ℕ} :
    time < cursorOf other ↔ milliseconds time < milliseconds other := by
  unfold cursorOf milliseconds
  omega

theorem pairwise_latestFirst (tieRank : ℕ → ℕ) (rows : List MessageRow) :
    NewestFirst MessageRow.sentAt (rows.mergeSort (latestFirst tieRank)) := by
  have hsorted : (rows.mergeSort (latestFirst tieRank)).Pairwise
      fun row other => latestFirst tieRank row other = true := by
    refine List.pairwise_mergeSort (fun row other third hle hle' => ?_)
      (fun row other => ?_) rows
    · unfold latestFirst at hle hle' ⊢
      grind
    · unfold latestFirst
      grind
  refine hsorted.imp fun {row other} hle => ?_
  unfold latestFirst at hle
  split at hle
  · omega
  · simpa using hle

theorem isPage_listMessages (conversationId limit : ℕ) (cursor : Option ℕ)
    (tieRank : ℕ → ℕ) (db : Database) :
    IsPage MessageRow.sentAt limit (db.messagesOf conversationId) cursor
      (db.listMessages conversationId limit cursor tieRank) :=
  ⟨_, List.mergeSort_perm _ _, pairwise_latestFirst tieRank _, rfl⟩

section Page

variable {userId conversationId limit i : ℕ} {d : Draw} {m m' : Market}

theorem databaseAnswers_of_passes
    (hpasses : (assertConversationParticipant conversationId userId).Returns i
      d m () m') : d.databaseFails = false := by
  by_contra hfails
  rw [Bool.not_eq_false] at hfails
  simp [assertConversationParticipant, select, selectOrdered, attempt,
    Program.Returns, Program.runAlone, hfails] at hpasses

/-- A user who may read the conversation is shown the page. -/
theorem runAlone_listMessages (cursor : Option ℕ)
    (hpasses : (assertConversationParticipant conversationId userId).Returns i
      d m () m) :
    (listMessages userId conversationId limit cursor).runAlone i d m =
      some (.ok ((m.db.listMessages conversationId limit cursor
        d.tieRank).map messageView), m) := by
  have hanswers := databaseAnswers_of_passes hpasses
  refine Program.returns_bind.mpr ⟨(), m, hpasses, ?_⟩
  simp [selectOrdered, attempt, Program.Returns, Program.runAlone, hanswers,
    Market.viewFor]

end Page

/-! ## All pages -/

section Pages

variable {userId conversationId limit : ℕ} {markets : ℕ → Market}
  {draws : ℕ → Draw} {messages : List MessageRow}

/-- The messages stay as they are while the pages are fetched, and every fetch
is let through. -/
structure Readable (userId conversationId : ℕ) (markets : ℕ → Market)
    (draws : ℕ → Draw) (messages : List MessageRow) : Prop where
  messages_eq : ∀ k, (markets k).db.messagesOf conversationId = messages
  passes : ∀ k, (assertConversationParticipant conversationId userId).Returns k
    (draws k) (markets k) () (markets k)

/-- What the client has seen when it stops is a walk over the pages. -/
theorem fetchMessages_visits
    (h : Readable userId conversationId markets draws messages) {fuel k : ℕ}
    {cursor : Option ℕ} {views : List MessageView}
    (hfetch : fetchMessages userId conversationId limit markets draws fuel k
      cursor = some views) :
    ∃ rows, views = rows.map messageView ∧
      Visits MessageRow.sentAt cursorOf limit messages cursor rows := by
  induction fuel generalizing k cursor views with
  | zero => contradiction
  | succ fuel ih =>
      have hpage := isPage_listMessages conversationId limit cursor
        (draws k).tieRank (markets k).db
      rw [h.messages_eq k] at hpage
      rw [fetchMessages, runAlone_listMessages cursor (h.passes k)] at hfetch
      simp only [List.getLast?_map] at hfetch
      cases holdest : ((markets k).db.listMessages conversationId limit cursor
          (draws k).tieRank).getLast? with
      | none =>
          rw [List.getLast?_eq_none_iff.mp holdest] at hpage
          simp only [holdest, Option.map_none, Option.some.injEq] at hfetch
          exact ⟨[], hfetch.symm, .stop hpage⟩
      | some oldest =>
          simp only [holdest, Option.map_some, Option.map_eq_some_iff] at hfetch
          obtain ⟨rest, hrest, rfl⟩ := hfetch
          obtain ⟨rows, rfl, hvisits⟩ := ih hrest
          exact ⟨_ ++ rows, List.map_append.symm, .next hpage holdest hvisits⟩

/-- With fuel for every message and the last page the client stops. -/
theorem exists_fetchMessages (hlimit : 0 < limit)
    (h : Readable userId conversationId markets draws messages) {fuel k : ℕ}
    {cursor : Option ℕ}
    (hfuel : (before MessageRow.sentAt messages cursor).length < fuel) :
    ∃ views, fetchMessages userId conversationId limit markets draws fuel k
      cursor = some views := by
  induction fuel generalizing k cursor with
  | zero => omega
  | succ fuel ih =>
      obtain ⟨sorted, hperm, hsorted, hpage⟩ :=
        isPage_listMessages conversationId limit cursor (draws k).tieRank
          (markets k).db
      rw [h.messages_eq k] at hperm
      rw [fetchMessages, runAlone_listMessages cursor (h.passes k)]
      simp only [List.getLast?_map]
      cases holdest : ((markets k).db.listMessages conversationId limit cursor
          (draws k).tieRank).getLast? with
      | none => exact ⟨[], rfl⟩
      | some oldest =>
          rw [hpage] at holdest
          have hless := length_before_next_lt hlimit cursorOf_le hperm hsorted
            holdest
          obtain ⟨rest, hrest⟩ := ih (k := k + 1)
            (Nat.lt_of_lt_of_le hless (Nat.le_of_lt_succ hfuel))
          exact ⟨_, Option.map_eq_some_iff.mpr ⟨rest, hrest, rfl⟩⟩

theorem apartAtPageEnds_iff {sorted : List MessageRow}
    (hperm : sorted.Perm messages)
    (hsorted : NewestFirst MessageRow.sentAt sorted) :
    ApartAtPageEnds limit messages ↔
      Apart cursorOf limit (sorted.map MessageRow.sentAt) := by
  have htimes : (messages.map MessageRow.sentAt).mergeSort
      (fun time other => decide (other ≤ time)) =
        sorted.map MessageRow.sentAt := by
    have hpairwise : ((messages.map MessageRow.sentAt).mergeSort
        (fun time other => decide (other ≤ time))).Pairwise
          fun time other => decide (other ≤ time) = true :=
      List.pairwise_mergeSort (by simp only [decide_eq_true_eq]; omega)
        (by simp only [Bool.or_eq_true, decide_eq_true_eq]; omega) _
    exact List.Perm.eq_of_pairwise
      (fun a b _ _ (hle : b ≤ a) (hle' : a ≤ b) => Nat.le_antisymm hle' hle)
      (hpairwise.imp of_decide_eq_true) (List.pairwise_map.mpr hsorted)
      ((List.mergeSort_perm _ _).trans (hperm.map _).symm)
  simp only [ApartAtPageEnds, Apart, htimes, lt_cursorOf_iff]

theorem before_none : before MessageRow.sentAt messages none = messages := by
  simp [before]

theorem apart_of_pagesComplete (hlimit : 0 < limit)
    (h : Readable userId conversationId markets draws messages)
    (hcomplete : PagesComplete userId conversationId limit markets draws
      messages) : ApartAtPageEnds limit messages := by
  obtain ⟨fuel, rows, hfetch, hrows, -⟩ := hcomplete
  obtain ⟨seen, hseen, hvisits⟩ := fetchMessages_visits h hfetch
  have hsorted := pairwise_latestFirst id messages
  have hperm := List.mergeSort_perm messages (latestFirst id)
  rw [apartAtPageEnds_iff hperm hsorted]
  refine (hvisits.length_eq_iff hlimit cursorOf_le
    (before_none.symm ▸ hperm) hsorted).mp ?_
  have hlength := congrArg List.length hseen
  rw [List.length_map, List.length_map] at hlength
  rw [← hlength, hrows.length_eq, hperm.length_eq]

/-- The client sees every message once, newest first, and stops exactly when
the messages are a millisecond apart wherever a full page ends. -/
theorem pages_complete_iff (hlimit : 0 < limit)
    (h : Readable userId conversationId markets draws messages) :
    PagesComplete userId conversationId limit markets draws messages ↔
      ApartAtPageEnds limit messages := by
  refine ⟨apart_of_pagesComplete hlimit h, fun hapart => ?_⟩
  have hsorted := pairwise_latestFirst id messages
  have hperm := List.mergeSort_perm messages (latestFirst id)
  rw [apartAtPageEnds_iff hperm hsorted] at hapart
  obtain ⟨views, hfetch⟩ := exists_fetchMessages (k := 0) hlimit h
    (show (before MessageRow.sentAt messages none).length <
      messages.length + 1 by rw [before_none]; omega)
  obtain ⟨rows, rfl, hvisits⟩ := fetchMessages_visits h hfetch
  have hall := (hvisits.perm_iff hlimit cursorOf_le
    (before_none.symm ▸ hperm) hsorted).mpr hapart
  rw [before_none] at hall
  exact ⟨_, rows, hfetch, hall, hvisits.newestFirst cursorOf_le⟩

end Pages

/-! ## Two messages -/

def sampleMessage (id sentAt : ℕ) : MessageRow :=
  ⟨id, 1, 2, "Hello", sentAt, none⟩

/-- Users 1 and 2 have a conversation with two messages. -/
def chatOf (messages : List MessageRow) : Market :=
  .opening (messages.foldl (fun db row => db.apply (.insertMessage row))
    (acquaintances.apply (.insertConversation ⟨1, 1, 2, none, none, 0⟩)))
      acquaintanceIds 0

/-- Sent in two milliseconds. -/
def twoMilliseconds : List MessageRow :=
  [sampleMessage 1 2000100, sampleMessage 2 2001400]

/-- Sent in the same millisecond. -/
def oneMillisecond : List MessageRow :=
  [sampleMessage 1 2000100, sampleMessage 2 2000400]

theorem readable_twoMilliseconds :
    Readable 1 1 (fun _ => chatOf twoMilliseconds) (fun _ => calmDraw)
      twoMilliseconds :=
  ⟨fun _ => rfl, fun _ => rfl⟩

theorem readable_oneMillisecond :
    Readable 1 1 (fun _ => chatOf oneMillisecond) (fun _ => calmDraw)
      oneMillisecond :=
  ⟨fun _ => rfl, fun _ => rfl⟩

theorem pages_complete_twoMilliseconds :
    PagesComplete 1 1 1 (fun _ => chatOf twoMilliseconds) (fun _ => calmDraw)
      twoMilliseconds := by
  refine (pages_complete_iff (by decide) readable_twoMilliseconds).mpr
    ((apartAtPageEnds_iff (List.Perm.swap _ _ _) ?_).mpr ?_)
  · simp [NewestFirst, sampleMessage]
  · rintro (_ | k) last next hlast hnext
    · obtain rfl : 2001400 = last := by simpa [sampleMessage] using hlast
      obtain rfl : 2000100 = next := by simpa [sampleMessage] using hnext
      decide
    · simp at hnext

/-- Of two messages in one millisecond, a client with pages of one message
sees one. -/
theorem not_pages_complete_oneMillisecond :
    ¬ PagesComplete 1 1 1 (fun _ => chatOf oneMillisecond) (fun _ => calmDraw)
      oneMillisecond := by
  intro hcomplete
  have hapart := (apartAtPageEnds_iff (List.Perm.swap _ _ _)
    (by simp [NewestFirst, sampleMessage])).mp
      (apart_of_pagesComplete (by decide) readable_oneMillisecond hcomplete)
  have hbelow : 2000100 < cursorOf 2000400 := hapart 0 _ _ rfl rfl
  exact absurd hbelow (by decide)

end MarketPlace.Trade
