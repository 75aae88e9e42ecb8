import MarketPlace.ChatErrorEvents
import MarketPlace.CodeUnits
import MarketPlace.ConversationDetails
import MarketPlace.ConversationOpening
import MarketPlace.SettledRuns

/-!
# Texts of messages

What becomes of a text that the event `message.send` accepts: the driver sends
it as UTF-8, Postgres refuses NUL, the table refuses texts of spaces, and the
exception filter answers what was thrown.  The members of the conversation have
accounts, since conversations refer to users.

A text is measured by the validation library.  Left out are the room that the
sender's socket joins and the emission to it.
-/

namespace MarketPlace.Trade

open CodeUnits Interleaving Relational

/-! ## The event -/

structure SendMessageDto where
  conversationId : ℤ
  text : Text

/-- `@IsInt() @Min(1)` and `@Length(1, 4000)`. -/
def SendMessageDto.Accepted (length : Text → ℕ) (dto : SendMessageDto) : Prop :=
  1 ≤ dto.conversationId ∧ 1 ≤ length dto.text ∧ length dto.text ≤ 4000

/-- The text that reaches the server, if it can be one of its texts. -/
def received (text : Text) : Option String :=
  if Char.ofNat 0 ∈ decode text then none else some (String.ofList (decode text))

/-- The INSERT of `sendMessage`. -/
def insertText (userId conversationId : ℕ) (text : Text) :
    Operation MessageRow :=
  match received text with
  | some messageText =>
      insertReturning none
        (fun now ids =>
          ⟨ids.messages, conversationId, userId, messageText, now, none⟩)
        .insertMessage
  | none => throw (.database none)

/-- `ChatService.sendMessage`, with a text as the language has it. -/
def sendText (userId conversationId : ℕ) (text : Text) :
    Operation MessageView := do
  assertConversationParticipant conversationId userId
  let insert ← tryCatch (insertText userId conversationId text)
    (notFoundOnForeignKey "Conversation not found")
  perform none fun _ => .setLastMessage conversationId insert.id
  pure (messageView insert)

/-- What `ChatGateway.sendMessage` does on the database: the expansion of the
answer reads the rows behind its ids. -/
def messageSend (userId : ℕ) (dto : SendMessageDto) : Operation MessageView := do
  let response ← sendText userId dto.conversationId.toNat dto.text
  select none fun _ => response

/-- With a text of the server the service is the one that is modelled on
these. -/
theorem sendText_eq_sendMessage {userId conversationId : ℕ} {text : Text}
    {messageText : String} (hreceived : received text = some messageText) :
    sendText userId conversationId text =
      sendMessage userId conversationId messageText := by
  rw [sendText, insertText, hreceived]
  rfl

/-! ## The answer to an error -/

/-- An exception of the framework that was made of a text. -/
def httpException (message error : String) (statusCode : ℚ) :
    ChatErrors.HttpException where
  message := message
  response := .object
    [("message", .text message), ("error", .text error),
      ("statusCode", .number statusCode)]

def ChatForbiddenReason.text : ChatForbiddenReason → String
  | .notParticipant => "NOT_PARTICIPANT"
  | .conversationBlocked => "CONVERSATION_BLOCKED"

/-- The exception that the filter gets. -/
def Fault.thrown : Fault → ChatErrors.Exception
  | .exception .badRequest message =>
      .badRequest (httpException message "Bad Request" 400)
  | .exception .unauthorized message =>
      .unauthorized (httpException message "Unauthorized" 401)
  | .exception .forbidden message =>
      .forbidden (httpException message "Forbidden" 403)
  | .exception .notFound message =>
      .notFound (httpException message "Not Found" 404)
  | .forbiddenChat reason message context =>
      .forbidden (ChatErrors.forbiddenChatException reason.text message
        (context.map fun (key, value) => (key, (value : ℚ))))
  | .exception _ _ | .database _ | .internal => .other .undefined

def Fault.code (js : ChatErrors.Conversions) (fault : Fault) :
    ChatErrors.Value :=
  (ChatErrors.normalizeError js fault.thrown "message.send" "" "").code

/-! ## Texts that are kept -/

/-- The texts that the table holds as they are. -/
structure Storable (text : Text) : Prop where
  wellFormed : isWellFormed text
  no_nul : (0 : UInt16) ∉ text
  not_blank : ∃ unit ∈ text, unit ≠ 32

theorem received_of_nul {text : Text} (hnul : (0 : UInt16) ∈ text) :
    received text = none :=
  if_pos ((@mem_decode_iff (Char.ofNat 0) (by decide) text).mpr hnul)

theorem received_of_no_nul {text : Text} (hnul : (0 : UInt16) ∉ text) :
    received text = some (String.ofList (decode text)) :=
  if_neg fun hmem =>
    hnul ((@mem_decode_iff (Char.ofNat 0) (by decide) text).mp hmem)

theorem blank_iff (text : Text) :
    Database.blank (String.ofList (decode text)) = true ↔
      ∀ unit ∈ text, unit = 32 := by
  rw [← show ' '.toNat.toUInt16 = 32 from rfl,
    ← @all_decode_iff ' ' (by decide) text]
  simp [Database.blank]

/-- A text that arrives is stored as it is exactly if it is well formed. -/
theorem utf16_stored_iff (text : Text) :
    utf16 (String.ofList (decode text)) = text ↔ isWellFormed text := by
  rw [utf16, String.toList_ofList, encode_decode_iff]

/-! ## Statements that are answered -/

/-- The database does not fail. -/
def Draw.Calm (draw : Draw) : Prop := draw.databaseFails = false

section Settles

variable {β : Type} {i : ℕ} {m : Market}

theorem settles_select (client : Option Client) (query : Database → β) :
    (select client query).Settles Draw.Calm i m
      (.ok (query (m.viewFor client i))) m := by
  intro ws outcome t hcalm hends
  obtain ⟨w, rfl, haction⟩ := ends_attempt.mp hends
  have hw : w.databaseFails = false := hcalm w (List.mem_singleton_self w)
  rw [hw] at haction
  obtain ⟨houtcome, hsame⟩ := Prod.mk.inj (Option.some.inj haction)
  exact ⟨houtcome.symm, hsame.symm⟩

variable {change : ℕ → Sequences → Change}
  {result : ℕ → Sequences → Database → Database → β}

theorem settles_run
    (hviolation : m.db.violation (change m.now m.ids) = none) :
    (run none change result).Settles Draw.Calm i m
      (.ok (result m.now m.ids m.db
        (m.autocommit i (change m.now m.ids)).db))
      (m.autocommit i (change m.now m.ids)) := by
  intro ws outcome t hcalm hends
  obtain ⟨w, rfl, haction⟩ := ends_attempt.mp hends
  have hw : w.databaseFails = false := hcalm w (List.mem_singleton_self w)
  have hnone : (m.viewFor none i).violation
      (change (m.nowFor none) m.ids) = none := hviolation
  dsimp only at haction
  rw [hw, hnone] at haction
  split at haction
  · contradiction
  split at haction
  · obtain ⟨houtcome, hsame⟩ := Prod.mk.inj (Option.some.inj haction)
    exact ⟨houtcome.symm, hsame.symm⟩
  · contradiction

theorem settles_perform {change : ℕ → Change}
    (hviolation : m.db.violation (change m.now) = none) :
    (perform none change).Settles Draw.Calm i m (.ok ())
      (m.autocommit i (change m.now)) :=
  @settles_run _ i m (fun now _ => change now) (fun _ _ _ _ => ()) hviolation

theorem settles_run_violation {violation : Database.Violation}
    (hviolation : m.db.violation (change m.now m.ids) = some violation) :
    (run none change result).Settles Draw.Calm i m
      (.error (.database (some violation)))
      ((m.take (change m.now m.ids)).record
        (.rejected i (change m.now m.ids))) := by
  intro ws outcome t hcalm hends
  obtain ⟨w, rfl, haction⟩ := ends_attempt.mp hends
  have hw : w.databaseFails = false := hcalm w (List.mem_singleton_self w)
  have hsome : (m.viewFor none i).violation
      (change (m.nowFor none) m.ids) = some violation := hviolation
  dsimp only at haction
  rw [hw, hsome] at haction
  split at haction
  · contradiction
  split at haction
  · obtain ⟨houtcome, hsame⟩ := Prod.mk.inj (Option.some.inj haction)
    exact ⟨houtcome.symm, hsame.symm⟩
  · contradiction

theorem settles_insertReturning_violation {ρ : Type}
    {row : ℕ → Sequences → ρ} {insert : ρ → Change}
    {violation : Database.Violation}
    (hviolation : m.db.violation (insert (row m.now m.ids)) = some violation) :
    (insertReturning none row insert).Settles Draw.Calm i m
      (.error (.database (some violation)))
      ((m.take (insert (row m.now m.ids))).record
        (.rejected i (insert (row m.now m.ids)))) :=
  @settles_run_violation _ i m (fun now ids => insert (row now ids))
    (fun now ids _ _ => row now ids) violation hviolation

theorem settles_assertConversationParticipant {userId conversationId : ℕ}
    {row : ConversationRow}
    (hrow : m.db.conversations.get conversationId = some row)
    (hfault : participantFault conversationId userId row = none)
    (hblock : m.db.hasBlockBetweenUsers userId (row.peerOf userId) = false) :
    (assertConversationParticipant conversationId userId).Settles Draw.Calm i m
      (.ok ()) m := by
  refine (settles_select none _).bind ?_
  have hview : (m.viewFor none i).conversations.get conversationId = some row :=
    hrow
  rw [hview]
  dsimp only
  rw [hfault]
  refine (settles_select none _).bind ?_
  have hunblocked : (m.viewFor none i).hasBlockBetweenUsers userId
      (row.peerOf userId) = false := hblock
  rw [hunblocked]
  exact Program.settles_done ()

end Settles

/-! ## Sending alone -/

/-- The message that the next INSERT makes of the text. -/
def newMessage (userId conversationId : ℕ) (messageText : String) (m : Market) :
    MessageRow :=
  ⟨m.ids.messages, conversationId, userId, messageText, m.now, none⟩

/-- The market after the two writes of a message. -/
def Market.sent (i : ℕ) (row : MessageRow) (m : Market) : Market :=
  (m.autocommit i (.insertMessage row)).autocommit i
    (.setLastMessage row.conversationId row.id)

/-- What the service needs of the conversation and its sender. -/
structure MayWrite (userId conversationId : ℕ) (m : Market) : Prop where
  asserted : ∀ i, (assertConversationParticipant conversationId userId).Settles
    Draw.Calm i m (.ok ()) m
  conversation : (m.db.conversations.get conversationId).isSome
  sender : (m.db.users.get userId).isSome
  free : m.db.messages.get m.ids.messages = none

namespace MayWrite

variable {i userId conversationId : ℕ} {m : Market} {messageText : String}

theorem violation_insert (h : MayWrite userId conversationId m)
    (messageText : String) :
    m.db.violation
        (.insertMessage (newMessage userId conversationId messageText m)) =
      if Database.blank messageText then some .check else none := by
  have hconversation : (m.db.conversations.get conversationId).isNone = false :=
    Option.isNone_eq_false_iff.mpr h.conversation
  have hsender : (m.db.users.get userId).isNone = false :=
    Option.isNone_eq_false_iff.mpr h.sender
  simp [Database.violation, newMessage, hconversation, hsender]

theorem violation_last (h : MayWrite userId conversationId m) (i : ℕ)
    (messageText : String) :
    (m.autocommit i (.insertMessage
        (newMessage userId conversationId messageText m))).db.violation
      (.setLastMessage conversationId m.ids.messages) = none := by
  have hnew : (m.db.messages.insert
      (newMessage userId conversationId messageText m)).get m.ids.messages =
        some (newMessage userId conversationId messageText m) :=
    Table.get_insert_self h.free
  have hdb : (m.autocommit i (.insertMessage
      (newMessage userId conversationId messageText m))).db.messages =
        m.db.messages.insert
          (newMessage userId conversationId messageText m) := rfl
  rw [Database.violation, hdb, hnew]
  simp

theorem settles_sendMessage (h : MayWrite userId conversationId m)
    (hblank : Database.blank messageText = false) :
    (sendMessage userId conversationId messageText).Settles Draw.Calm i m
      (.ok (messageView (newMessage userId conversationId messageText m)))
      (m.sent i (newMessage userId conversationId messageText m)) := by
  have hinsert := h.violation_insert messageText
  rw [hblank, if_neg Bool.false_ne_true] at hinsert
  refine (h.asserted i).bind ?_
  rw [Program.tryCatch_eq_recover]
  refine (Program.Settles.recover_ok (settles_run hinsert)).bind ?_
  refine (settles_perform (h.violation_last i messageText)).bind ?_
  exact Program.settles_done _

theorem settles_sendMessage_blank (h : MayWrite userId conversationId m)
    (hblank : Database.blank messageText = true) :
    ∃ t, (sendMessage userId conversationId messageText).Settles Draw.Calm i m
      (.error (.database (some .check))) t := by
  have hinsert := h.violation_insert messageText
  rw [hblank, if_pos rfl] at hinsert
  have hrejected := @settles_insertReturning_violation i m _
    (fun now ids => (⟨ids.messages, conversationId, userId, messageText, now,
      none⟩ : MessageRow)) .insertMessage .check hinsert
  have hthrown : ∀ t, (notFoundOnForeignKey "Conversation not found"
      (.database (some .check)) : Operation MessageRow).Settles Draw.Calm i t
        (.error (.database (some .check))) t :=
    fun _ => Program.settles_failed _
  exact ⟨_, (h.asserted i).bind (Program.Settles.bind_error
    (hrejected.recover (hthrown _)))⟩

theorem settles_sendText_nul (h : MayWrite userId conversationId m) {text : Text}
    (hnul : (0 : UInt16) ∈ text) :
    (sendText userId conversationId text).Settles Draw.Calm i m
      (.error (.database none)) m := by
  refine (h.asserted i).bind (Program.Settles.bind_error ?_)
  rw [Program.tryCatch_eq_recover, insertText, received_of_nul hnul]
  exact (Program.settles_failed _).recover (Program.settles_failed _)

end MayWrite

/-! ## Accepted messages -/

/-- The text is kept as it is in one new message of the sender. -/
def StoredExactly (userId : ℕ) (dto : SendMessageDto) (m t : Market)
    (outcome : Except Fault MessageView) : Prop :=
  ∃ row, outcome = .ok (messageView row) ∧
    t.db.messages.rows = m.db.messages.rows ++ [row] ∧
    row.conversationId = dto.conversationId.toNat ∧ row.senderId = userId ∧
    utf16 row.messageText = dto.text

def AnsweredInvalid (js : ChatErrors.Conversions)
    (outcome : Except Fault MessageView) : Prop :=
  ∃ fault, outcome = .error fault ∧ fault.code js = .text "VALIDATION_ERROR"

/-- An error of Postgres is no error of validation. -/
theorem not_answeredInvalid_database (js : ChatErrors.Conversions)
    (violation : Option Database.Violation) :
    ¬ AnsweredInvalid js (.error (.database violation)) := by
  rintro ⟨fault, hfault, hcode⟩
  obtain rfl := Except.error.inj hfault
  have hinternal : (Fault.database violation).code js =
      .text "INTERNAL_ERROR" := rfl
  rw [hinternal] at hcode
  exact absurd (ChatErrors.Value.text.inj hcode) (by decide)

/-- How the event ends, run alone: by the text. -/
theorem settles_messageSend {userId : ℕ} {dto : SendMessageDto} {m : Market}
    (h : MayWrite userId dto.conversationId.toNat m) (i : ℕ) :
    ∃ outcome t, (messageSend userId dto).Settles Draw.Calm i m outcome t ∧
      ((∃ violation, outcome = .error (.database violation)) ∧
          ¬ Storable dto.text ∨
        ∃ row, outcome = .ok (messageView row) ∧
          t.db.messages.rows = m.db.messages.rows ++ [row] ∧
          row.conversationId = dto.conversationId.toNat ∧
          row.senderId = userId ∧
          row.messageText = String.ofList (decode dto.text) ∧
          (Storable dto.text ↔ isWellFormed dto.text)) := by
  by_cases hnul : (0 : UInt16) ∈ dto.text
  · refine ⟨_, _, (h.settles_sendText_nul hnul).bind_error, .inl ⟨⟨_, rfl⟩, ?_⟩⟩
    exact fun hstorable => hstorable.no_nul hnul
  have hsend := @sendText_eq_sendMessage userId dto.conversationId.toNat _ _
    (received_of_no_nul hnul)
  cases hblank : Database.blank (String.ofList (decode dto.text)) with
  | true =>
      obtain ⟨t, hsettles⟩ := h.settles_sendMessage_blank (i := i) hblank
      rw [← hsend] at hsettles
      refine ⟨_, _, hsettles.bind_error, .inl ⟨⟨_, rfl⟩, ?_⟩⟩
      rintro ⟨-, -, unit, hunit, hother⟩
      exact hother ((blank_iff _).mp hblank unit hunit)
  | false =>
      have hsettles := h.settles_sendMessage (i := i) hblank
      rw [← hsend] at hsettles
      refine ⟨_, _, hsettles.bind (settles_select none _), .inr ?_⟩
      refine ⟨_, rfl, ?_, rfl, rfl, rfl, ?_⟩
      · have hmessages : ∀ row, (m.sent i row).db.messages =
            m.db.messages.insert row := fun _ => rfl
        rw [hmessages]
        rw [Table.rows_insert]
        exact if_pos h.free
      · have hother : ∃ unit ∈ dto.text, unit ≠ 32 := by
          by_contra hnone
          push Not at hnone
          rw [(blank_iff _).mpr hnone] at hblank
          contradiction
        exact ⟨Storable.wellFormed, fun hwell => ⟨hwell, hnul, hother⟩⟩

/-- A participant of a conversation without a block may write in it. -/
theorem mayWrite_of_reaches {app : Deployment} {now : ℕ}
    {pool : Pool Request Draw Market Fault Response}
    (hreach : (market app).Reaches (fun _ _ => True) (Pool.opening now) pool)
    {userId conversationId : ℕ} {row : ConversationRow}
    (hrow : pool.state.db.conversations.get conversationId = some row)
    (haccess : pool.state.db.Accessible userId row) :
    MayWrite userId conversationId pool.state := by
  obtain ⟨-, hA, hB⟩ := peopled_of_reaches hreach conversationId row hrow
  have hpositive := usersPositive_of_reaches hreach
  obtain ⟨userA, huserA⟩ := Option.isSome_iff_exists.mp hA
  obtain ⟨userB, huserB⟩ := Option.isSome_iff_exists.mp hB
  have hfault := (@participantFault_eq_none_iff _ conversationId _
    (hpositive.users _ _ huserA) (hpositive.users _ _ huserB)).mpr haccess.1
  constructor
  · exact fun i => settles_assertConversationParticipant hrow hfault haccess.2
  · rw [hrow]
    rfl
  · rcases haccess.1 with huser | huser
    · rwa [huser]
    · rwa [huser]
  · exact (onCourse_of_reaches hreach).invariant.within.message_free

theorem served_iff {userId i : ℕ} {dto : SendMessageDto} {m t : Market}
    {ws : List Draw} {outcome : Except Fault MessageView}
    (h : MayWrite userId dto.conversationId.toNat m)
    (js : ChatErrors.Conversions) (hcalm : ∀ w ∈ ws, w.Calm)
    (hends : (messageSend userId dto).Ends i ws m outcome t) :
    StoredExactly userId dto m t outcome ∨ AnsweredInvalid js outcome ↔
      Storable dto.text := by
  obtain ⟨settled, u, hsettles, hcases⟩ := settles_messageSend h i
  obtain ⟨rfl, rfl⟩ := hsettles ws outcome t hcalm hends
  rcases hcases with ⟨⟨violation, rfl⟩, hnot⟩ |
    ⟨row, rfl, hrows, hconversation, hsender, htext, hstorable⟩
  · refine iff_of_false ?_ hnot
    rintro (⟨row, hok, -⟩ | hinvalid)
    · cases hok
    · exact not_answeredInvalid_database js violation hinvalid
  · rw [hstorable, ← utf16_stored_iff]
    constructor
    · rintro (⟨other, -, hother, -, -, hexact⟩ | ⟨fault, hfault, -⟩)
      · have hlist := List.append_cancel_left (hrows.symm.trans hother)
        obtain rfl := List.singleton_inj.mp hlist
        rw [← htext, hexact]
      · cases hfault
    · intro hexact
      refine .inl ⟨row, rfl, hrows, hconversation, hsender, ?_⟩
      rw [htext, hexact]

theorem finishes_insertText (userId conversationId : ℕ) (text : Text) :
    (insertText userId conversationId text).Finishes Market.Idle 1 := by
  unfold insertText
  split
  · exact finishes_run _ _
  · exact Program.finishes_failed _

theorem finishes_assertConversationParticipant (userId conversationId : ℕ) :
    (assertConversationParticipant conversationId userId).Finishes
      Market.Idle 2 := by
  refine Program.Finishes.bind (k := 1) (n := 1) (finishes_select _)
    fun query => ?_
  split
  · exact Program.finishes_failed _
  split
  · exact Program.finishes_failed _
  refine Program.Finishes.bind (k := 0) (n := 1) (finishes_select _)
    fun blocked => ?_
  split
  · exact Program.finishes_failed _
  · exact Program.finishes_done _

theorem finishes_perform (change : ℕ → Change) :
    (perform none change).Finishes Market.Idle 1 :=
  @finishes_run Unit (fun now _ => change now) fun _ _ _ _ => ()

/-- Where nobody holds a lock, the event never waits. -/
theorem finishes_messageSend (userId : ℕ) (dto : SendMessageDto) :
    (messageSend userId dto).Finishes Market.Idle 5 := by
  refine Program.Finishes.bind (k := 1) (n := 4) ?_ fun _ => finishes_select _
  refine Program.Finishes.bind (k := 2) (n := 2)
    (finishes_assertConversationParticipant _ _) fun _ => ?_
  refine Program.Finishes.bind (k := 1) (n := 1) ?_ fun insert => ?_
  · rw [Program.tryCatch_eq_recover]
    refine Program.Finishes.recover (k := 0) (n := 1) (finishes_insertText _ _ _)
      fun fault => ?_
    unfold notFoundOnForeignKey
    split
    · exact Program.finishes_failed _
    · exact Program.finishes_failed _
  · refine Program.Finishes.bind (k := 0) (n := 1) (finishes_perform _) fun _ => ?_
    exact Program.finishes_done _

/-- Sent alone by a participant of a conversation without a block, with a
database that answers, a text is stored as it is or answered as invalid exactly
if the table can hold it; and where nobody holds a lock, the event ends. -/
theorem message_served_iff {app : Deployment} {now : ℕ}
    {pool : Pool Request Draw Market Fault Response}
    (hreach : (market app).Reaches (fun _ _ => True) (Pool.opening now) pool)
    {userId : ℕ} {dto : SendMessageDto} {row : ConversationRow}
    (hrow : pool.state.db.conversations.get dto.conversationId.toNat = some row)
    (haccess : pool.state.db.Accessible userId row)
    (js : ChatErrors.Conversions) (i : ℕ) :
    (∀ ws outcome t, (∀ w ∈ ws, w.Calm) →
      (messageSend userId dto).Ends i ws pool.state outcome t →
        (StoredExactly userId dto pool.state t outcome ∨
            AnsweredInvalid js outcome ↔
          Storable dto.text)) ∧
    (pool.state.Idle → ∃ ws outcome t, (∀ w ∈ ws, w.Calm) ∧
      (messageSend userId dto).Ends i ws pool.state outcome t) := by
  constructor
  · intro ws outcome t hcalm hends
    exact served_iff (mayWrite_of_reaches hreach hrow haccess) js hcalm hends
  · intro hidle
    obtain ⟨ws, outcome, t, hsame, hends⟩ :=
      (finishes_messageSend userId dto).exists_ends hidle calmDraw
    exact ⟨ws, outcome, t, fun w hw => hsame w hw ▸ rfl, hends⟩

/-! ## Two texts -/

/-- Characters, of which a pair of surrogates is one. -/
def characterCount (text : Text) : ℕ := (decode text).length

def hello : SendMessageDto := ⟨1, utf16 "Hello"⟩

def space : SendMessageDto := ⟨1, utf16 " "⟩

/-- User 1 may write in the first conversation. -/
def opensToFirst (m : Market) : Bool :=
  (m.db.conversations.get 1).any fun row =>
    row.userAId = 1 && !m.db.hasBlockBetweenUsers 1 (row.peerOf 1)

/-- After users 1 and 2 have met, user 1 sends the text alone. -/
theorem exists_sent {dto : SendMessageDto} {n : ℕ}
    (hrun : ((market sampleApp).run meets (Pool.opening 0)).any
      (fun pool => opensToFirst pool.state &&
        ((messageSend 1 dto).runUnder 1 (List.replicate n calmDraw)
          pool.state).any fun _ => true) = true) :
    ∃ pool row outcome t,
      (market sampleApp).Reaches (fun _ _ => True) (Pool.opening 0) pool ∧
        pool.state.db.conversations.get 1 = some row ∧
        pool.state.db.Accessible 1 row ∧
        (messageSend 1 dto).Ends 1 (List.replicate n calmDraw) pool.state
          outcome t := by
  obtain ⟨pool, hreach, hcheck⟩ := System.exists_reaches_of_run hrun
  obtain ⟨hopens, hsend⟩ := Bool.and_eq_true_iff.mp hcheck
  obtain ⟨row, hrow, haccess⟩ := (Option.any_eq_true _ _).mp hopens
  obtain ⟨outcome, t, hends, -⟩ := Program.exists_ends_of_runUnder hsend
  simp only [Bool.and_eq_true, decide_eq_true_eq, Bool.not_eq_true'] at haccess
  exact ⟨pool, row, outcome, t, hreach, hrow, ⟨.inl haccess.1.symm, haccess.2⟩,
    hends⟩

theorem calm_replicate (n : ℕ) : ∀ w ∈ List.replicate n calmDraw, w.Calm := by
  intro w hw
  rw [List.eq_of_mem_replicate hw]
  rfl

theorem message_served_iff_hello :
    ∃ pool outcome t,
      (messageSend 1 hello).Ends 1 (List.replicate 5 calmDraw) pool outcome t ∧
        (StoredExactly 1 hello pool t outcome ∨
          AnsweredInvalid ChatErrors.plainConversions outcome) := by
  obtain ⟨pool, row, outcome, t, hreach, hrow, haccess, hends⟩ :=
    @exists_sent hello 5 (by decide +kernel)
  have hstorable : Storable hello.text :=
    ⟨by decide +kernel, by decide +kernel, by decide +kernel⟩
  exact ⟨pool.state, outcome, t, hends,
    ((@message_served_iff _ _ _ hreach 1 hello row hrow haccess
      ChatErrors.plainConversions 1).1 _ outcome t (calm_replicate 5)
        hends).mpr hstorable⟩

/-- A space is a text of one character, and ends in an internal error. -/
theorem space_not_served :
    space.Accepted characterCount ∧
      ∃ pool row outcome t,
        (market sampleApp).Reaches (fun _ _ => True) (Pool.opening 0) pool ∧
          pool.state.db.conversations.get 1 = some row ∧
          pool.state.db.Accessible 1 row ∧
          (messageSend 1 space).Ends 1 (List.replicate 3 calmDraw) pool.state
            outcome t ∧
          ¬ (StoredExactly 1 space pool.state t outcome ∨
            AnsweredInvalid ChatErrors.plainConversions outcome) := by
  refine ⟨⟨by decide, by decide +kernel, by decide +kernel⟩, ?_⟩
  obtain ⟨pool, row, outcome, t, hreach, hrow, haccess, hends⟩ :=
    @exists_sent space 3 (by decide +kernel)
  refine ⟨pool, row, outcome, t, hreach, hrow, haccess, hends, ?_⟩
  have hmay : MayWrite 1 space.conversationId.toNat pool.state :=
    mayWrite_of_reaches hreach hrow haccess
  rw [served_iff hmay ChatErrors.plainConversions (calm_replicate 3) hends]
  rintro ⟨-, -, hother⟩
  revert hother
  decide +kernel

end MarketPlace.Trade
