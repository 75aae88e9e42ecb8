import MarketPlace.MarketOutlines

/-!
# Outlines of the services without transactions

Reads, media files, profiles, favourites, blocks, ratings and chat.  What a
service has checked of a row stays true of it until the statement that relies
on it, however the requests interleave.
-/

namespace MarketPlace.Trade

open EventLog Interleaving Relational

variable {rights : Rights} {i : ℕ} {m : Market} {user : ℕ}
variable {app : Deployment}

/-! ## Listings and files -/

theorem safe_assertSearchCategoryPair {category subcategory : Option String} :
    Safe rights i m (assertSearchCategoryPair category subcategory) := by
  unfold assertSearchCategoryPair
  split
  · rcases assertCategoryPair_cases _ _ _ with
      ⟨hdone, -⟩ | ⟨fault, hfailed⟩
    · rw [hdone]
      exact safe_done _
    · rw [hfailed]
      exact safe_failed _
  · exact safe_done _

theorem safe_searchProducts {dto : SearchProductsDto} {viewer : Option ℕ} :
    Safe rights i m (searchProducts app dto viewer) :=
  safe_assertSearchCategoryPair.bind fun _ _ => safe_select

theorem safe_listMyProducts {dto : SearchProductsDto}
    {status : Option ProductStatus} :
    Safe rights i m (listMyProducts app user dto status) :=
  safe_assertSearchCategoryPair.bind fun _ _ => safe_select

theorem safe_getProductById {productId : ℕ} {viewer : Option ℕ} :
    Safe rights i m (getProductById productId viewer) := by
  refine Safe.bind (fetchProductWithImages_meets fun _ _ _ _ => trivial)
    fun product t => ?_
  split
  · exact safe_failed _
  split
  · exact safe_done _
  exact safe_select.bind fun _ _ =>
    safe_ite (fun _ => safe_failed _) fun _ => safe_done _

theorem safe_createUploadIntent {dto : CreateUploadIntentDto}
    (huser : rights.user = some user) (hwrites : .insertFile ∈ rights.writes) :
    Safe rights i m (createUploadIntent app user dto) := by
  refine Safe.bind (currentTime_meets fun _ _ _ => trivial) fun now t => ?_
  refine Safe.bind (draw_meets fun _ _ _ => trivial) fun hex t => ?_
  refine Safe.bind (safe_insertReturning (fun _ => hwrites) (fun _ => rfl)
    fun u _ => ⟨user, huser, rfl⟩) fun row t => ?_
  refine Safe.bind ?_ fun _ _ => safe_done _
  refine attempt_meets fun u hu d outcome v hrun => ?_
  split at hrun <;>
    simp only [Option.some.injEq, Prod.mk.injEq] at hrun <;>
      obtain ⟨rfl, rfl⟩ := hrun <;>
        exact ⟨.inl rfl, fun _ _ => trivial⟩

theorem safe_markUploaded {fileId : ℕ} {checksum : Option String}
    (huser : rights.user = some user)
    (hwrites : .markUploaded ∈ rights.writes) :
    Safe rights i m (markUploaded user fileId checksum) := by
  refine safe_select.bind fun file t => ?_
  split
  · exact safe_failed _
  · exact safe_ite (fun _ => safe_failed _) fun _ =>
      (safe_execute (fun _ => hwrites) (fun _ => rfl)
        fun _ _ => ⟨user, huser, by trivial⟩).bind fun _ _ => safe_done _

theorem safe_getFile {isAdmin : Bool} {fileId : ℕ} :
    Safe rights i m (getFile app user isAdmin fileId) := by
  refine safe_select.bind fun file t => ?_
  split
  · exact safe_failed _
  · exact safe_ite (fun _ => safe_failed _) fun _ => safe_done _

/-! ## Profiles, favourites, blocks and ratings -/

theorem safe_getMe : Safe rights i m (getMe app user) := by
  refine safe_select.bind fun view t => ?_
  split
  · exact safe_failed _
  · exact safe_done _

theorem safe_getPublicProfile {userId : ℕ} {dto : GetPublicUserQueryDto}
    {viewer : Option ℕ} :
    Safe rights i m (getPublicProfile app userId dto viewer) := by
  refine Safe.bind ?_ fun block t => ?_
  · unfold blockState
    split
    · exact safe_done _
    · exact safe_select
  refine safe_ite (fun _ => safe_failed _) fun _ => ?_
  refine safe_select.bind fun row t => ?_
  split
  · exact safe_failed _
  · exact safe_selectOrdered.bind fun _ _ => safe_done _

theorem uploadedFor_of_avatarFileFault {file : Option FileRow}
    (h : avatarFileFault user file = none) :
    ∃ row, file = some row ∧ row.UploadedFor .avatar user := by
  cases file with
  | none => contradiction
  | some row =>
      simp only [avatarFileFault] at h
      by_cases huploader : toPositiveIntOfNullable
          (row.uploaderUserId.map BigintText.mk) = some user
      · by_cases hfile : row.status ≠ .uploaded ∨ row.purpose ≠ .avatar
        · simp [huploader, hfile] at h
        · have hstatus : row.status = .uploaded := by
            by_contra hstatus
            exact hfile (.inl hstatus)
          have hpurpose : row.purpose = .avatar := by
            by_contra hpurpose
            exact hfile (.inr hpurpose)
          exact ⟨row, rfl, hpurpose, toPositiveIntOfNullable_eq_some huploader,
            hstatus⟩
      · simp [huploader] at h

/-- The avatar file that a profile is updated to has been checked. -/
def AvatarChecked (user : ℕ) (avatarFileId : Option ℕ) (m : Market) : Prop :=
  ∀ fileId, avatarFileId = some fileId →
    ∃ file, m.db.files.get fileId = some file ∧ file.UploadedFor .avatar user

theorem AvatarChecked.later {avatarFileId : Option ℕ} {t : Market}
    (h : AvatarChecked user avatarFileId m) (hlater : Later i m t) :
    AvatarChecked user avatarFileId t := by
  intro fileId hfileId
  obtain ⟨file, hfile, huploaded⟩ := h fileId hfileId
  obtain ⟨file', hfile', hkept⟩ := hlater.grows.files _ file hfile
  exact ⟨file', hfile', huploaded.kept hkept⟩

theorem assertAvatarFile_meets {avatarFileId : Option ℕ} :
    (assertAvatarFile user avatarFileId).Meets (acting rights) i
      (fun _ t => AvatarChecked user avatarFileId t) (fun _ _ => True) m := by
  unfold assertAvatarFile
  split
  · exact done_meets fun _ _ _ h => nomatch h
  refine Program.Meets.bind (select_meets (fun _ _ => trivial) ?_)
  intro u t hseen
  split
  · exact failed_meets fun _ _ => trivial
  · next hfault =>
      obtain ⟨file, hfile, huploaded⟩ := uploadedFor_of_avatarFileFault hfault
      refine done_meets fun v hv => ?_
      refine AvatarChecked.later (m := u) ?_
        (Later.trans hseen.after.toRely hv)
      rintro fileId h
      obtain rfl := Option.some.inj h
      exact ⟨file, hfile, huploaded⟩

theorem safe_updateMe {dto : UpdateProfileDto}
    (huser : rights.user = some user)
    (hwrites : .updateProfile ∈ rights.writes) :
    Safe rights i m (updateMe app user dto) := by
  refine safe_ite (fun _ => safe_failed _) fun _ => ?_
  refine Program.Meets.seq _ assertAvatarFile_meets fun _ t hchecked => ?_
  refine Safe.bind (safe_execute (fun _ => hwrites) (fun _ => rfl) ?_)
    fun _ _ => safe_getMe
  intro u hu
  exact ⟨user, huser, rfl, fun fileId _ hfileId =>
    hchecked.later hu fileId hfileId⟩

theorem safe_addFavorite {productId : ℕ} (huser : rights.user = some user)
    (hwrites : .insertFavorite ∈ rights.writes) :
    Safe rights i m (addFavorite user productId) := by
  refine safe_select.bind fun product t => ?_
  split
  · exact safe_failed _
  refine safe_select.bind fun blocked t => ?_
  refine safe_ite (fun _ => safe_failed _) fun _ => ?_
  exact (safe_execute (fun _ => hwrites) (fun _ => rfl)
    fun _ _ => ⟨user, huser, by trivial⟩).bind fun _ _ => safe_done _

theorem safe_removeFavorite {productId : ℕ} (huser : rights.user = some user)
    (hwrites : .deleteFavorite ∈ rights.writes) :
    Safe rights i m (removeFavorite user productId) :=
  (safe_execute (fun _ => hwrites) (fun _ => rfl)
    fun _ _ => ⟨user, huser, by trivial⟩).bind fun _ _ => safe_done _

theorem safe_listFavorites {dto : ListFavoritesDto} :
    Safe rights i m (listFavorites user dto) := safe_select

theorem safe_blockUser {blockedUserId : ℕ} (huser : rights.user = some user)
    (hwrites : .insertBlock ∈ rights.writes) :
    Safe rights i m (blockUser user blockedUserId) := by
  refine safe_ite (fun _ => safe_failed _) fun _ => ?_
  refine safe_select.bind fun target t => ?_
  refine safe_ite (fun _ => safe_failed _) fun _ => ?_
  exact (safe_execute (fun _ => hwrites) (fun _ => rfl)
    fun _ _ => ⟨user, huser, by trivial⟩).bind fun _ _ => safe_done _

theorem safe_unblockUser {blockedUserId : ℕ} (huser : rights.user = some user)
    (hwrites : .deleteBlock ∈ rights.writes) :
    Safe rights i m (unblockUser user blockedUserId) :=
  (safe_execute (fun _ => hwrites) (fun _ => rfl)
    fun _ _ => ⟨user, huser, by trivial⟩).bind fun _ _ => safe_done _

theorem safe_assertUserExists {userId : ℕ} {label : String} :
    Safe rights i m (assertUserExists userId label) :=
  safe_select.bind fun _ _ =>
    safe_ite (fun _ => safe_failed _) fun _ => safe_done _

theorem notFoundOnForeignKey_eq_failed {β : Type} (message : String)
    (fault : Fault) :
    ∃ other, (notFoundOnForeignKey message fault : Operation β) =
      .failed other := by
  unfold notFoundOnForeignKey
  split <;> exact ⟨_, rfl⟩

theorem Safe.orNotFound {β : Type} {program : Operation β} {message : String}
    (h : Safe rights i m program) :
    Safe rights i m (tryCatch program (notFoundOnForeignKey message)) := by
  refine Program.Meets.caught _ h fun fault t _ => ?_
  obtain ⟨other, hother⟩ := notFoundOnForeignKey_eq_failed message fault
  rw [hother]
  exact safe_failed _

theorem safe_rateUser {ratedUserId ratingValue : ℕ}
    (huser : rights.user = some user)
    (hwrites : .upsertRating ∈ rights.writes) :
    Safe rights i m (rateUser user ratedUserId ratingValue) := by
  refine safe_ite (fun _ => safe_failed _) fun _ => ?_
  refine safe_assertUserExists.bind fun _ _ => ?_
  exact (safe_insertReturning (fun _ => hwrites) (fun _ => rfl)
    fun _ _ => ⟨user, huser, by trivial⟩).orNotFound

/-! ## Who takes part in a conversation -/

/-- The user is one of the two that the conversation is between. -/
def TakesPart (user conversationId : ℕ) (db : Database) : Prop :=
  ∃ conversation, db.conversations.get conversationId = some conversation ∧
    (conversation.userAId = user ∨ conversation.userBId = user)

theorem TakesPart.grows {conversationId : ℕ} {db db' : Database}
    (h : TakesPart user conversationId db) (hgrows : db.Grows db') :
    TakesPart user conversationId db' := by
  obtain ⟨conversation, hget, huser⟩ := h
  obtain ⟨conversation', hget', hkept⟩ :=
    hgrows.conversations _ conversation hget
  obtain ⟨hfirst, hsecond⟩ := Prod.mk.inj hkept
  exact ⟨conversation', hget', by rwa [hfirst, hsecond]⟩

/-- A participant stays one while a program runs. -/
theorem meets_takingPart {β : Type} {program : Operation β}
    (post : β → Market → Prop) (fail : Fault → Market → Prop)
    {conversationId : ℕ} (hpart : TakesPart user conversationId m.db)
    (h : program.Meets (acting rights) i post fail m) :
    program.Meets (acting rights) i
      (fun value t => post value t ∧ TakesPart user conversationId t.db)
      (fun fault t => fail fault t ∧ TakesPart user conversationId t.db) m :=
  Program.Meets.frame (fun t => TakesPart user conversationId t.db)
    (fun {_ _} (hrely : Rely i _ _) h => h.grows hrely.grows)
    (fun {_ _} (hacts : (_ ∧ _) ∧ Acts rights i _ _) h =>
      h.grows (hacts.2.rely hacts.1.1).grows) h hpart

theorem takesPart_of_participantFault {conversationId : ℕ}
    {row : ConversationRow}
    (h : participantFault conversationId user row = none) :
    row.userAId = user ∨ row.userBId = user := by
  unfold participantFault at h
  split at h
  · next userA userB hA hB =>
      have hA := toPositiveInt_eq_some hA
      have hB := toPositiveInt_eq_some hB
      dsimp only at hA hB
      rw [hA, hB]
      by_contra hneither
      rw [if_pos (not_or.mp hneither)] at h
      contradiction
  · contradiction

theorem assertConversationParticipant_meets {conversationId : ℕ}
    {fail : Fault → Market → Prop}
    (hfail : ∀ fault t, Later i m t → fail fault t) :
    (assertConversationParticipant conversationId user).Meets (acting rights) i
      (fun _ t => Later i m t ∧ TakesPart user conversationId t.db) fail m := by
  unfold assertConversationParticipant
  refine Program.Meets.bind (select_meets (fun t ht => hfail _ t ht) ?_)
  intro u t hseen
  have hlater := hseen.later
  cases hrow : (u.viewFor none i).conversations.get conversationId with
  | none =>
      exact failed_meets fun v hv => hfail _ v (Later.trans hlater.toRely hv)
  | some row =>
      dsimp only
      split
      · exact failed_meets fun v hv => hfail _ v (Later.trans hlater.toRely hv)
      · next hfault =>
          have hpart : TakesPart user conversationId u.db :=
            ⟨row, hrow, takesPart_of_participantFault hfault⟩
          refine Program.Meets.bind (select_meets
            (fun v hv => hfail _ v (Later.trans hlater.toRely hv)) ?_)
          intro u' t' hseen'
          have hlater' := Later.trans hlater.toRely hseen'.later
          split
          · exact failed_meets fun v hv =>
              hfail _ v (Later.trans hlater'.toRely hv)
          · exact done_meets fun v hv =>
              ⟨Later.trans hlater'.toRely hv, (hpart.grows
                hseen.after.grows).grows
                  (Later.trans hseen'.later.toRely hv).grows⟩

theorem safe_assertConversationParticipant {conversationId : ℕ} :
    Safe rights i m (assertConversationParticipant conversationId user) :=
  (assertConversationParticipant_meets fun _ _ _ => trivial).mono
    (fun _ _ _ => trivial) fun _ _ _ => trivial

/-! ## Conversations -/

theorem safe_getConversationById {conversationId : ℕ} :
    Safe rights i m (getConversationById user conversationId) := by
  refine safe_assertConversationParticipant.bind fun _ t => ?_
  refine safe_select.bind fun view t => ?_
  split
  · exact safe_failed _
  · exact safe_done _

theorem safe_validateProduct {participantId : ℕ} {productId : Option ℕ} :
    Safe rights i m (validateProduct user participantId productId) := by
  unfold validateProduct
  split
  · exact safe_done _
  refine safe_select.bind fun product t => ?_
  split
  · exact safe_failed _
  · exact safe_done _

theorem orderedPair_eq_or (userId participantId : ℕ) :
    (orderedPair userId participantId).1 = userId ∨
      (orderedPair userId participantId).2 = userId := by
  unfold orderedPair
  split
  · exact .inl rfl
  · exact .inr rfl

theorem safe_getOrCreateConversation {participantId : ℕ}
    {productId : Option ℕ} (huser : rights.user = some user)
    (hwrites : ∀ kind ∈ [.insertConversation, .setConversationProduct],
      kind ∈ rights.writes) :
    Safe rights i m (getOrCreateConversation user participantId productId) := by
  simp only [List.forall_mem_cons] at hwrites
  refine safe_ite (fun _ => safe_failed _) fun _ => ?_
  refine safe_assertUserExists.bind fun _ _ => ?_
  refine safe_select.bind fun _ _ => ?_
  refine safe_ite (fun _ => safe_failed _) fun _ => ?_
  refine safe_validateProduct.bind fun validatedProductId _ => ?_
  refine safe_select.bind fun existing _ => ?_
  split
  · refine Safe.bind ?_ fun _ _ => safe_getConversationById
    unfold backfillProduct
    split
    · exact safe_done _
    · exact safe_ite (fun _ => safe_done _) fun _ =>
        safe_execute (fun _ => hwrites.2.1) (fun _ => rfl)
          fun _ _ => ⟨user, huser, by trivial⟩
  · refine Safe.bind ?_ fun _ _ => safe_getConversationById
    refine (safe_insertReturning (fun _ => hwrites.1) (fun _ => rfl)
      ?_).orNotFound
    exact fun _ _ => ⟨user, huser, rfl, rfl, orderedPair_eq_or _ _⟩

theorem safe_listConversations {scope : ConversationScope} {limit offset : ℕ} :
    Safe rights i m (listConversations user scope limit offset) :=
  safe_selectOrdered

/-! ## Messages -/

theorem safe_listMessages {conversationId limit : ℕ} {before : Option ℕ} :
    Safe rights i m (listMessages user conversationId limit before) :=
  safe_assertConversationParticipant.bind fun _ _ =>
    safe_selectOrdered.bind fun _ _ => safe_done _

/-- The message that is marked belongs to a conversation of the reader. -/
theorem markRead_meets {messageId : ℕ} (huser : rights.user = some user)
    (hwrites : .markRead ∈ rights.writes) :
    (markRead user messageId).Meets (acting rights) i
      (fun view t => TakesPart user view.conversationId t.db)
      (fun _ _ => True) m := by
  refine Program.Meets.bind (select_meets (fun _ _ => trivial) ?_)
  intro u t hseen
  cases hrow : (u.viewFor none i).messages.get messageId with
  | none => exact failed_meets fun _ _ => trivial
  | some row =>
      dsimp only
      split
      · next conversationId senderId hconversation hsender =>
          have hconversation := toPositiveInt_eq_some hconversation
          have hsender := toPositiveInt_eq_some hsender
          dsimp only at hconversation hsender
          refine Program.Meets.seq _ (assertConversationParticipant_meets
            fun _ _ _ => trivial) fun _ v hv => ?_
          obtain ⟨hlater, hpart⟩ := hv
          split
          · exact failed_meets fun _ _ => trivial
          have hkept : ∀ w, Later i v w → ∃ row',
              w.db.messages.get messageId = some row' ∧
                MessageKept row row' := fun w hw =>
            (Later.trans hseen.after.toRely
              (Later.trans hlater.toRely hw)).grows.messages _ row hrow
          refine Program.Meets.bind (run_meets (fun _ _ => hwrites)
            (fun _ _ => rfl) ?_ (fun _ _ _ _ => trivial)
            (fun _ _ _ _ _ _ => trivial) ?_)
          · intro w hw
            obtain ⟨row', hrow', hkept⟩ := hkept w hw
            obtain ⟨conversation, hget, hin⟩ := hpart.grows hw.grows
            refine ⟨user, huser, row', conversation, hrow', ?_, hin, ?_⟩
            · rwa [hkept.conversation, hconversation]
            · rwa [hkept.sender, hsender]
          · intro w x hw _ hx
            obtain ⟨row', hrow', hkept⟩ := hkept w hw
            obtain ⟨row'', hrow'', hkept'⟩ :=
              (w.db.grows_apply (.markRead messageId w.now)).messages _ row'
                hrow'
            simp only [hrow'']
            refine done_meets fun y hy => ?_
            have hgrows : (w.db.apply (.markRead messageId w.now)).Grows y.db :=
              (Later.trans hx.toRely hy).grows
            have hsame : (messageView row'').conversationId = conversationId :=
              (hkept.trans hkept').conversation.trans hconversation
            rw [hsame]
            exact ((hpart.grows hw.grows).grows
              (w.db.grows_apply _)).grows hgrows
      · exact failed_meets fun _ _ => trivial

theorem safe_markRead {messageId : ℕ} (huser : rights.user = some user)
    (hwrites : .markRead ∈ rights.writes) :
    Safe rights i m (markRead user messageId) :=
  (markRead_meets huser hwrites).mono (fun _ _ _ => trivial)
    fun _ _ _ => trivial

/-! ## Sending -/

/-- Request `i` has stored no message. -/
def Silent (i : ℕ) (m : Market) : Prop :=
  ∀ at_ row, .wrote i at_ (.insertMessage row) ∉ m.history

/-- The pointer statement of every message that request `i` has stored was
made or was lost. -/
def PointersFollowed (i : ℕ) (m : Market) : Prop :=
  ∀ at_ row, .wrote i at_ (.insertMessage row) ∈ m.history →
    (∃ later, .wrote i later (.setLastMessage row.conversationId row.id) ∈
      m.history) ∨
    .lost i (.setLastMessage row.conversationId row.id) ∈ m.history

theorem Silent.pointersFollowed (h : Silent i m) : PointersFollowed i m :=
  fun at_ row hwrote => absurd hwrote (h at_ row)

theorem Fresh.silent (h : Fresh i m) : Silent i m :=
  fun _ _ hwrote => h.2 _ hwrote rfl

theorem Rely.mem_of_actor {t : Market} {event : Event} (h : Rely i m t)
    (hevent : event ∈ t.history) (hactor : event.actor = some i) :
    event ∈ m.history :=
  (h.others event hevent).resolve_right fun hother => hother hactor

theorem Silent.later {t : Market} (h : Silent i m) (hrely : Rely i m t) :
    Silent i t :=
  fun at_ row hwrote => h at_ row (hrely.mem_of_actor hwrote rfl)

theorem PointersFollowed.later {t : Market} (h : PointersFollowed i m)
    (hrely : Rely i m t) : PointersFollowed i t := by
  intro at_ row hwrote
  have hsubset := hrely.history.subset
  rcases h at_ row (hrely.mem_of_actor hwrote rfl) with ⟨later, hset⟩ | hlost
  · exact .inl ⟨later, hsubset hset⟩
  · exact .inr (hsubset hlost)

/-- A request without the right to store messages stays silent. -/
theorem Acts.silent {t : Market} (hacts : Acts rights i m t)
    (hrights : .insertMessage ∉ rights.writes) (h : Silent i m) :
    Silent i t := by
  rcases hacts with rfl | hstep
  · exact h
  intro at_ row hwrote
  cases hstep with
  | lost change hwrites =>
      exact h at_ row (by simpa [Market.record] using hwrote)
  | rejected client change violation hwrites hviolation =>
      exact h at_ row (by simpa [Market.record, Market.take] using hwrote)
  | wrote actor change huser hwrites halone hunlocked hviolation hoffered =>
      rcases List.mem_cons.mp hwrote with hnew | hold
      · obtain ⟨-, -, rfl⟩ := Event.wrote.inj hnew
        exact hrights hwrites
      · exact h at_ row hold
  | queued => exact h at_ row hwrote
  | locked => exact h at_ row hwrote
  | rolledBack => exact h at_ row hwrote
  | committed actor huser htransaction =>
      simp only [Market.commit, flush_eq, List.mem_append, List.mem_reverse,
        List.mem_map] at hwrote
      rcases hwrote with ⟨change, hchange, hnew⟩ | hold
      · obtain ⟨-, -, rfl⟩ := Event.wrote.inj hnew
        exact absurd (htransaction.transactional _ hchange)
          Bool.false_ne_true
      · exact h at_ row hold

/-- The only message that request `i` has stored is still there. -/
structure Sent (i : ℕ) (row : MessageRow) (m : Market) : Prop where
  only : ∀ at_ other, .wrote i at_ (.insertMessage other) ∈ m.history →
    other = row
  stored : ∃ row', m.db.messages.get row.id = some row' ∧ MessageKept row row'

theorem Sent.later {row : MessageRow} {t : Market} (h : Sent i row m)
    (hrely : Rely i m t) : Sent i row t where
  only at_ other hwrote := h.only at_ other (hrely.mem_of_actor hwrote rfl)
  stored := by
    obtain ⟨row', hget, hkept⟩ := h.stored
    obtain ⟨row'', hget', hkept'⟩ := hrely.grows.messages _ row' hget
    exact ⟨row'', hget', hkept.trans hkept'⟩

theorem Silent.record {event : Event} (h : Silent i m)
    (hevent : ∀ at_ row, event ≠ .wrote i at_ (.insertMessage row)) :
    Silent i (m.record event) := by
  intro at_ row hwrote
  rcases List.mem_cons.mp hwrote with hnew | hold
  · exact hevent at_ row hnew.symm
  · exact h at_ row hold

theorem insertMessage_meets {conversationId : ℕ} {messageText : String}
    (huser : rights.user = some user)
    (hwrites : .insertMessage ∈ rights.writes)
    (hpart : TakesPart user conversationId m.db)
    (hsilent : Silent i m) :
    (insertReturning none
      (fun now ids =>
        ⟨ids.messages, conversationId, user, messageText, now, none⟩)
      .insertMessage).Meets (acting rights) i
      (fun row t => row.conversationId = conversationId ∧ Sent i row t)
      (fun _ t => Silent i t) m := by
  refine run_meets (fun _ _ => hwrites) (fun _ _ => rfl) ?_ ?_ ?_ ?_
  · exact fun u hu => ⟨user, huser, rfl, rfl, rfl, hpart.grows hu.grows⟩
  · exact fun u t hu ht => ((hsilent.later hu.toRely).record
      (by simp)).later ht.toRely
  · intro u t violation hu _ ht
    exact ((hsilent.later hu.toRely).record (by simp)).later
      (m := (u.take _).record _) ht.toRely
  · intro u t hu _ ht
    refine ⟨rfl, Sent.later ⟨fun at_ other hwrote => ?_, ?_⟩ ht.toRely⟩
    · rcases List.mem_cons.mp hwrote with hnew | hold
      · exact Change.insertMessage.inj (Event.wrote.inj hnew).2.2
      · exact absurd hold (hsilent.later hu.toRely at_ other)
    · have hfree : u.db.messages.get u.ids.messages = none :=
        Option.eq_none_iff_forall_ne_some.mpr fun row hrow =>
          lt_irrefl _ (hu.sound.within.messages _ row hrow)
      exact ⟨_, Table.get_insert_self hfree, MessageKept.refl _⟩

theorem setLastMessage_meets {row : MessageRow}
    (huser : rights.user = some user)
    (hwrites : .setLastMessage ∈ rights.writes) (hsent : Sent i row m) :
    (perform none fun _ =>
      .setLastMessage row.conversationId row.id).Meets (acting rights) i
      (fun _ t => PointersFollowed i t) (fun _ t => PointersFollowed i t)
      m := by
  unfold perform execute
  refine run_meets (fun _ _ => hwrites) (fun _ _ => rfl) ?_ ?_ ?_ ?_
  · intro u hu
    obtain ⟨row', hget, hkept⟩ := (hsent.later hu.toRely).stored
    exact ⟨user, huser, row', hget, hkept.conversation⟩
  · intro u t hu ht
    refine PointersFollowed.later (fun at_ other hwrote => ?_) ht.toRely
    rcases List.mem_cons.mp hwrote with hnew | hold
    · contradiction
    · obtain rfl := (hsent.later hu.toRely).only at_ other hold
      exact .inr List.mem_cons_self
  · intro u t violation hu hviolation _
    obtain ⟨row', hget, -⟩ := (hsent.later hu.toRely).stored
    simp [Database.violation, hget] at hviolation
  · intro u t hu _ ht
    refine PointersFollowed.later (fun at_ other hwrote => ?_) ht.toRely
    rcases List.mem_cons.mp hwrote with hnew | hold
    · exact absurd (Event.wrote.inj hnew).2.2 (by simp)
    · obtain rfl := (hsent.later hu.toRely).only at_ other hold
      exact .inl ⟨u.now, List.mem_cons_self⟩

theorem sendMessage_meets {conversationId : ℕ} {messageText : String}
    (huser : rights.user = some user)
    (hwrites : ∀ kind ∈ [.insertMessage, .setLastMessage],
      kind ∈ rights.writes) (hfresh : Fresh i m) :
    (sendMessage user conversationId messageText).Meets (acting rights) i
      (fun view t =>
        (PointersFollowed i t ∧ view.conversationId = conversationId) ∧
          TakesPart user conversationId t.db)
      (fun _ t => PointersFollowed i t) m := by
  simp only [List.forall_mem_cons] at hwrites
  have hsilent := hfresh.silent
  refine Program.Meets.seq _ (assertConversationParticipant_meets
    fun _ t ht => (hsilent.later ht.toRely).pointersFollowed) fun _ t ht => ?_
  obtain ⟨hlater, hpart⟩ := ht
  have hsilent := hsilent.later hlater.toRely
  refine (meets_takingPart
    (fun view t => PointersFollowed i t ∧
      view.conversationId = conversationId)
    (fun _ t => PointersFollowed i t) hpart ?_).mono
      (fun _ _ h => h) fun _ _ h => h.1
  refine Program.Meets.seq (fun row t =>
    row.conversationId = conversationId ∧ Sent i row t) ?_ ?_
  · refine Program.Meets.caught _ (insertMessage_meets huser hwrites.1
      hpart hsilent) fun fault u hu => ?_
    obtain ⟨other, hother⟩ := notFoundOnForeignKey_eq_failed
      "Conversation not found" fault
    rw [hother]
    exact failed_meets fun v hv => (hu.later hv.toRely).pointersFollowed
  · rintro row u ⟨rfl, hsent⟩
    exact Program.Meets.seq _ (setLastMessage_meets huser hwrites.2.1 hsent)
      fun _ v hv => done_meets fun _ hx => ⟨hv.later hx.toRely, rfl⟩

/-! ## The market -/

theorem Request.safe {request : Request} (i : ℕ) (m : Market)
    (hquiet : .insertMessage ∉ request.writes) :
    Safe request.rights i m (request.handler app) := by
  cases request with
  | createProduct user dto => exact (safe_createProduct rfl fun _ => id).map
  | getProductById productId viewer => exact safe_getProductById.map
  | updateProduct user productId dto =>
      exact (safe_updateProduct rfl fun _ => id).map
  | deleteProduct user productId =>
      exact (safe_deleteProduct rfl List.mem_cons_self).map
  | updateProductStatus user productId status =>
      exact (safe_updateProductStatus rfl List.mem_cons_self).map
  | listMyProducts user dto status => exact safe_listMyProducts.map
  | searchProducts dto viewer => exact safe_searchProducts.map
  | createUploadIntent user dto =>
      exact (safe_createUploadIntent rfl List.mem_cons_self).map
  | markUploaded user fileId checksum =>
      exact (safe_markUploaded rfl List.mem_cons_self).map
  | getFile user isAdmin fileId => exact safe_getFile.map
  | getMe user => exact safe_getMe.map
  | getPublicProfile userId dto viewer => exact safe_getPublicProfile.map
  | updateMe user dto => exact (safe_updateMe rfl List.mem_cons_self).map
  | addFavorite user productId =>
      exact (safe_addFavorite rfl List.mem_cons_self).map
  | removeFavorite user productId =>
      exact (safe_removeFavorite rfl List.mem_cons_self).map
  | listFavorites user dto => exact safe_listFavorites.map
  | blockUser user other => exact (safe_blockUser rfl List.mem_cons_self).map
  | unblockUser user other =>
      exact (safe_unblockUser rfl List.mem_cons_self).map
  | rateUser user other value =>
      exact (safe_rateUser rfl List.mem_cons_self).map
  | getOrCreateConversation user participantId productId =>
      exact (safe_getOrCreateConversation rfl fun _ => id).map
  | listConversations user scope limit offset =>
      exact safe_listConversations.map
  | getConversationById user conversationId =>
      exact safe_getConversationById.map
  | listMessages user conversationId limit before => exact safe_listMessages.map
  | sendMessage user conversationId messageText =>
      exact absurd List.mem_cons_self hquiet
  | markRead user messageId => exact (safe_markRead rfl List.mem_cons_self).map

theorem Request.handler_meets (request : Request) {i : ℕ} {m : Market}
    (hfresh : Fresh i m) :
    (request.handler app).Meets (acting request.rights) i
      (fun _ t => PointersFollowed i t) (fun _ t => PointersFollowed i t)
      m := by
  by_cases hsends : .insertMessage ∈ request.writes
  · cases request with
    | sendMessage user conversationId messageText =>
        exact Program.Meets.seq _
          (sendMessage_meets rfl (fun _ => id) hfresh)
          fun _ _ ht => done_meets fun _ hu => ht.1.1.later hu.toRely
    | _ => simp [Request.writes, syncWrites] at hsends
  · have hsafe : Safe request.rights i m (request.handler app) :=
      Request.safe i m hsends
    refine (Program.Meets.frame (Silent i) ?_ ?_ hsafe hfresh.silent).mono
      (fun _ _ h => h.2.pointersFollowed) fun _ _ h => h.2.pointersFollowed
    · exact fun hrely hsilent => hsilent.later hrely
    · exact fun hacts hsilent => hacts.2.silent hsends hsilent

/-- Every request keeps to its own rights, however the requests interleave. -/
theorem market_sound : (market app).SoundWithin discipline
    (fun request i => Acts request.rights i) Fresh (fun _ _ => True)
    (fun _ i _ t => PointersFollowed i t) (fun _ i _ t => PointersFollowed i t) where
  handler_meets request _ _ _ hfresh := request.handler_meets hfresh
  guarantee_fresh hne hguarantee hfresh :=
    fresh_of_guarantee hne hguarantee hfresh
  environment_fresh _ _ _ hfresh := Market.fresh_surroundings hfresh
  environment_rely event i m _ := Market.rely_surroundings event i m
  environment_invariant _ _ hsound := Market.sound_surroundings hsound

end MarketPlace.Trade
