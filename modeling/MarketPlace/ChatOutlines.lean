import MarketPlace.ChatGateway
import MarketPlace.ServiceOutlines

/-!
# What the chat services show

A conversation that a service returns is one of the acting user's, as this
user could see it at some time since the call.
-/

namespace MarketPlace.Trade

open EventLog Interleaving Relational

variable {rights : Rights} {i : ℕ} {m : Market} {user conversationId : ℕ}

/-- The user saw the conversation like this at some time since. -/
def SeenSince (since : List Event) (user : ℕ) (view : ConversationView)
    (m : Market) : Prop :=
  ∃ past row, since <:+ past ∧ past <:+ m.history ∧
    (stored m.opened past).conversations.get view.id = some row ∧
      (stored m.opened past).conversationView user row = some view

theorem SeenSince.later {since : List Event} {view : ConversationView}
    {m' : Market} (h : SeenSince since user view m)
    (hhistory : m.history <:+ m'.history) (hopened : m'.opened = m.opened) :
    SeenSince since user view m' := by
  obtain ⟨past, row, hsince, hpast, hrow, hview⟩ := h
  refine ⟨past, row, hsince, hpast.trans hhistory, ?_, ?_⟩
  · rw [hopened]
    exact hrow
  · rw [hopened]
    exact hview

/-- What a view says of its conversation and of the peer. -/
theorem conversationView_eq_some {db : Database} {row : ConversationRow}
    {view : ConversationView} (h : db.conversationView user row = some view) :
    view.id = row.id ∧ view.peerUserId = row.peerOf user ∧
      view.unreadCount = db.unreadCount user row.id := by
  obtain ⟨peer, hpeer, rfl⟩ := Option.map_eq_some_iff.mp h
  have hid : peer.id = row.peerOf user := Table.key_of_get hpeer
  exact ⟨rfl, hid, rfl⟩

theorem Market.Sound.seenSince {since : List Event} {row : ConversationRow}
    {view : ConversationView} (h : m.Sound) (hsince : since <:+ m.history)
    (hrow : m.db.conversations.get view.id = some row)
    (hview : m.db.conversationView user row = some view) :
    SeenSince since user view m := by
  refine ⟨m.history, row, hsince, List.suffix_refl _, ?_, ?_⟩
  · rw [← h.traced]
    exact hrow
  · rw [← h.traced]
    exact hview

/-- The data only grows along the history. -/
theorem grows_stored {opened : Database} {past history : List Event}
    (hpast : past <:+ history) :
    (stored opened past).Grows (stored opened history) := by
  induction history with
  | nil =>
      obtain rfl := List.suffix_nil.mp hpast
      exact Database.Grows.refl _
  | cons event rest ih =>
      rcases List.suffix_cons_iff.mp hpast with rfl | hrest
      · exact Database.Grows.refl _
      · refine (ih hrest).trans ?_
        rw [stored_cons]
        cases event with
        | wrote | elsewhere => exact Database.grows_apply _ _
        | rejected | lost => exact Database.Grows.refl _

/-- The peer that a user saw is the other participant still. -/
theorem SeenSince.peer {since : List Event} {view : ConversationView}
    (h : SeenSince since user view m) (hsound : m.Sound) :
    ∃ row, m.db.conversations.get view.id = some row ∧
      view.peerUserId = row.peerOf user := by
  obtain ⟨past, row, -, hpast, hrow, hview⟩ := h
  obtain ⟨row', hrow', hkept⟩ :=
    (grows_stored hpast).conversations _ row hrow
  obtain ⟨hfirst, hsecond⟩ := Prod.mk.inj hkept
  refine ⟨row', hsound.traced ▸ hrow', ?_⟩
  rw [(conversationView_eq_some hview).2.1, ConversationRow.peerOf,
    ConversationRow.peerOf, hfirst, hsecond]

/-- Two participants that see the same peer are one user. -/
theorem eq_of_peerOf_eq {row : ConversationRow} {other : ℕ}
    (huser : row.userAId = user ∨ row.userBId = user)
    (hother : row.userAId = other ∨ row.userBId = other)
    (hpeer : row.peerOf user = row.peerOf other) : user = other := by
  unfold ConversationRow.peerOf at hpeer
  split at hpeer <;> split at hpeer <;> omega

section Since

variable {since : List Event} {β γ : Type}

/-- A program that is safe goes on after what was there. -/
theorem Safe.onward {program : Operation β} {next : β → Operation γ}
    {post : γ → Market → Prop} (h : Safe rights i m program)
    (hsince : since <:+ m.history)
    (hnext : ∀ value t, since <:+ t.history →
      (next value).Meets (acting rights) i post (fun _ _ => True) t) :
    (program >>= next).Meets (acting rights) i post (fun _ _ => True) m := by
  have hframed := Program.Meets.frame (fun t => since <:+ t.history)
    (fun {_ _} (hrely : Rely i _ _) h => h.trans hrely.history)
    (fun {_ _} (hacts : (_ ∧ _) ∧ Acts rights i _ _) h =>
      h.trans (hacts.2.rely hacts.1.1).history) h hsince
  refine Program.Meets.seq (fun _ t => since <:+ t.history)
    (hframed.mono (fun _ _ h => h.2) fun _ _ _ => trivial) ?_
  exact hnext

theorem getConversationById_shows (hsince : since <:+ m.history) :
    (getConversationById user conversationId).Meets (acting rights) i
      (fun view t => view.id = conversationId ∧
        SeenSince since user view t ∧ TakesPart user conversationId t.db)
      (fun _ _ => True) m := by
  refine Program.Meets.seq _
    (assertConversationParticipant_meets fun _ _ _ => trivial) ?_
  rintro - t ⟨hlater, hpart⟩
  refine Program.Meets.bind (select_meets (fun _ _ => trivial) ?_)
  intro u v hseen
  cases hquery : ((u.viewFor none i).conversations.get conversationId).bind
      ((u.viewFor none i).conversationView user) with
  | none => exact failed_meets fun _ _ => trivial
  | some view =>
      obtain ⟨row, hrow, hview⟩ := Option.bind_eq_some_iff.mp hquery
      have hid : view.id = conversationId :=
        (conversationView_eq_some hview).1.trans (Table.key_of_get hrow)
      refine done_meets fun w hw => ⟨hid, ?_, ?_⟩
      · have hafter := Later.trans hseen.after.toRely hw
        refine SeenSince.later (m := u) ?_ hafter.history hafter.opened
        refine hseen.before.sound.seenSince ?_ (hid.symm ▸ hrow) hview
        exact (hsince.trans hlater.history).trans hseen.before.history
      · exact hpart.grows (Later.trans hseen.later.toRely hw).grows

theorem getOrCreateConversation_shows {participantId : ℕ}
    {productId : Option ℕ} (huser : rights.user = some user)
    (hwrites : ∀ kind ∈ [.insertConversation, .setConversationProduct],
      kind ∈ rights.writes) (hsince : since <:+ m.history) :
    (getOrCreateConversation user participantId productId).Meets
      (acting rights) i
      (fun view t => SeenSince since user view t ∧ TakesPart user view.id t.db)
      (fun _ _ => True) m := by
  simp only [List.forall_mem_cons] at hwrites
  have hshown : ∀ conversationId t, since <:+ t.history →
      (getConversationById user conversationId).Meets (acting rights) i
        (fun view t =>
          SeenSince since user view t ∧ TakesPart user view.id t.db)
        (fun _ _ => True) t := by
    intro conversationId t hsince
    refine (getConversationById_shows hsince).mono ?_ fun _ _ h => h
    rintro view v ⟨rfl, hseen, hpart⟩
    exact ⟨hseen, hpart⟩
  unfold getOrCreateConversation
  split
  · exact failed_meets fun _ _ => trivial
  refine safe_assertUserExists.onward hsince fun _ t hsince => ?_
  refine safe_select.onward hsince fun _ t hsince => ?_
  split
  · exact failed_meets fun _ _ => trivial
  refine safe_validateProduct.onward hsince fun validatedProductId t hsince => ?_
  refine safe_select.onward hsince fun existing t hsince => ?_
  cases existing with
  | some conversation =>
      refine Safe.onward ?_ hsince fun _ t hsince => hshown _ t hsince
      unfold backfillProduct
      split
      · exact safe_done _
      · exact safe_ite (fun _ => safe_done _) fun _ =>
          safe_execute (fun _ => hwrites.2.1) (fun _ => rfl)
            fun _ _ => ⟨user, huser, by trivial⟩
  | none =>
      refine Safe.onward ?_ hsince fun insert t hsince => hshown _ t hsince
      refine (safe_insertReturning (fun _ => hwrites.1) (fun _ => rfl)
        ?_).orNotFound
      exact fun _ _ => ⟨user, huser, rfl, rfl, orderedPair_eq_or _ _⟩

theorem getConversationParticipants_meets :
    (getConversationParticipants conversationId).Meets (acting rights) i
      (fun participants t => TakesPart participants.1 conversationId t.db ∧
        TakesPart participants.2 conversationId t.db)
      (fun _ _ => True) m := by
  refine Program.Meets.bind (select_meets (fun _ _ => trivial) ?_)
  intro u t hseen
  cases hrow : (u.viewFor none i).conversations.get conversationId with
  | none => exact failed_meets fun _ _ => trivial
  | some row =>
      dsimp only
      split
      · next userAId userBId hA hB =>
          have hA : row.userAId = userAId := toPositiveInt_eq_some hA
          have hB : row.userBId = userBId := toPositiveInt_eq_some hB
          refine done_meets fun v hv => ?_
          have hgrows := (Later.trans hseen.after.toRely hv).grows
          have hfirst : TakesPart userAId conversationId u.db :=
            ⟨row, hrow, .inl hA⟩
          have hsecond : TakesPart userBId conversationId u.db :=
            ⟨row, hrow, .inr hB⟩
          exact ⟨hfirst.grows hgrows, hsecond.grows hgrows⟩
      · exact failed_meets fun _ _ => trivial

end Since

end MarketPlace.Trade
