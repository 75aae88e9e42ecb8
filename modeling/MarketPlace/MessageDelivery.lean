import MarketPlace.LinearizedLogs
import MarketPlace.MarketActions
import MarketPlace.RoomAttendance

/-!
# Messages are announced once and delivered

A message that is sent or read over a socket is announced to the room of its
conversation exactly if its request has an answer, with the message of the
answer, and a socket that has joined the conversation receives what is
announced there until it goes.
-/

namespace MarketPlace.Trade

open EventLog Interleaving Relational

/-! ## Announcements -/

/-- What is announced of a message. -/
structure Announcement where
  event : ChatEvent
  room : String
  payload : WsPayload
  deriving DecidableEq, Repr

def Emission.announcement (emission : Emission) : Option (ℕ × Announcement) :=
  if emission.event = .conversationJoined then none
  else some (emission.actor, ⟨emission.event, emission.room, emission.payload⟩)

theorem Emission.announcement_actor {emission : Emission}
    {entry : ℕ × Announcement} (h : emission.announcement = some entry) :
    entry.1 = emission.actor := by
  obtain ⟨-, h⟩ := Option.ite_none_left_eq_some.mp h
  exact congrArg Prod.fst (Option.some.inj h).symm

/-- The announcements with the requests that they are of, the oldest first. -/
def announced (g : Gateway) : List (ℕ × Announcement) :=
  g.emissions.reverse.filterMap Emission.announcement

/-- What a request with an answer has announced. -/
def GatewayRequest.announces :
    GatewayRequest → GatewayResponse → Option Announcement
  | .sendMessage _ conversationId _, .message view =>
      some ⟨.messageReceived, roomName conversationId, .message true view⟩
  | .markRead _ _, .message view =>
      some ⟨.messageRead, roomName view.conversationId, .message true view⟩
  | _, _ => none

theorem announced_congr {g g' : Gateway} (h : g'.emissions = g.emissions) :
    announced g' = announced g := by
  rw [announced, announced, h]

theorem announced_emit {i : ℕ} {event : ChatEvent} {room : String}
    {payload : WsPayload} {g : Gateway} :
    announced (g.emit i event room payload) =
      announced g ++ if event = .conversationJoined then []
        else [(i, ⟨event, room, payload⟩)] := by
  by_cases hevent : event = .conversationJoined <;>
    simp [announced, Gateway.emit, Emission.announcement, hevent]

/-- Request `i` has announced nothing yet. -/
def Unannounced (i : ℕ) (g : Gateway) : Prop := effectsOf i (announced g) = []

theorem GatewayFresh.unannounced {i : ℕ} {g : Gateway}
    (hfresh : GatewayFresh i g) : Unannounced i g := by
  refine effectsOf_eq_nil fun entry hentry hactor => ?_
  obtain ⟨emission, hemission, hannouncement⟩ := List.mem_filterMap.mp hentry
  refine hfresh.emissions emission (List.mem_reverse.mp hemission) ?_
  exact (Emission.announcement_actor hannouncement).symm.trans hactor

/-- A step of request `i` announces nothing for another one. -/
theorem GatewayStep.effectsOf_eq {i j : ℕ} {g g' : Gateway}
    (hstep : GatewayStep i g g') (hne : i ≠ j) :
    effectsOf j (announced g') = effectsOf j (announced g) := by
  rcases hstep.emits with hsame | ⟨emission, hemits, hactor, -⟩
  · rw [announced_congr hsame]
  · have hannounced : announced g' =
        announced g ++ emission.announcement.toList := by
      cases h : emission.announcement <;>
        simp [announced, hemits, h]
    rw [hannounced, effectsOf_append, List.append_right_eq_self]
    refine effectsOf_eq_nil fun entry hentry hentry' => hne ?_
    have hannouncement := Option.mem_toList.mp hentry
    rw [← hactor, ← Emission.announcement_actor hannouncement, hentry']

/-! ## Programs that announce nothing -/

section Keeps

variable {i : ℕ} {α : Type} {fact : Gateway → Prop}

theorem keeps_onMarket (operation : Operation α)
    (hfact : ∀ m g, fact g → fact { g with market := m }) :
    (onMarket operation).Keeps fact := by
  unfold onMarket
  induction operation with
  | done value => exact Program.keeps_done value
  | failed fault => exact Program.keeps_failed fault
  | atomic action next ih =>
      refine ⟨fun j w g result t hg haction => ?_, ih⟩
      dsimp only at haction
      split at haction
      · contradiction
      · obtain ⟨-, rfl⟩ := Prod.mk.inj (Option.some.inj haction)
        exact hfact _ g hg

theorem keeps_update {change : ℕ → GatewayDraw → Gateway → Gateway}
    (hchange : ∀ j w g, fact g → fact (change j w g)) :
    (update change).Keeps fact := by
  refine ⟨fun j w g result t hg haction => ?_, fun _ => Program.keeps_done _⟩
  obtain ⟨-, rfl⟩ := Prod.mk.inj (Option.some.inj haction)
  exact hchange j w g hg

theorem keeps_getUser (client : ℕ) : (getUser client).Keeps fact := by
  refine ⟨fun j w g result t hg haction => ?_, fun result => ?_⟩
  · obtain ⟨-, rfl⟩ := Prod.mk.inj (Option.some.inj haction)
    exact hg
  · cases result with
    | none => exact Program.keeps_failed _
    | some user => exact Program.keeps_done _

/-- What is announced depends on the emissions alone. -/
theorem Unannounced.congr {g g' : Gateway} (h : Unannounced i g)
    (hsame : g'.emissions = g.emissions) : Unannounced i g' :=
  (congrArg (effectsOf i) (announced_congr hsame)).trans h

theorem silent_onMarket (operation : Operation α) :
    (onMarket operation).Keeps (Unannounced i) :=
  keeps_onMarket operation fun _ _ hg => hg.congr rfl

theorem silent_emitJoined (room : String) (payload : WsPayload) :
    (emit .conversationJoined room payload).Keeps (Unannounced i) := by
  refine keeps_update fun j w g hg => ?_
  have hsame : announced (g.emit j .conversationJoined room payload) =
      announced g := by simp [announced_emit]
  exact (congrArg (effectsOf i) hsame).trans hg

theorem silent_handleConnection (jwtAccessSecret : String)
    (handshake : Handshake) :
    (handleConnection jwtAccessSecret handshake).Keeps (Unannounced i) := by
  unfold handleConnection
  cases extractToken handshake with
  | none =>
      exact keeps_update fun _ _ _ hg => hg.congr Gateway.turnAway_emissions
  | some token =>
      refine (keeps_update fun _ _ _ hg => hg.congr rfl).bind fun _ =>
        keeps_update fun j w g hg => ?_
      cases (w.verifyAsync token jwtAccessSecret).bind normalizedSub with
      | none => exact hg.congr Gateway.turnAway_emissions
      | some user => exact hg.congr Gateway.authenticate_emissions

theorem silent_buildConversationJoinedPayload (view : ConversationView) :
    (buildConversationJoinedPayload view).Keeps (Unannounced i) :=
  (silent_onMarket _).bind fun _ => Program.keeps_done _

theorem silent_joinSockets (room : String) (userId created turns : ℕ)
    (visited : List ℕ) :
    (joinSockets room userId created turns visited).Keeps (Unannounced i) := by
  induction turns generalizing visited with
  | zero =>
      refine ⟨fun j w g result t hg haction => ?_, fun _ =>
        Program.keeps_done _⟩
      contradiction
  | succ turns ih =>
      refine ⟨fun j w g result t hg haction => ?_, fun result => ?_⟩
      · dsimp only at haction
        split at haction
        · obtain ⟨-, rfl⟩ := Prod.mk.inj (Option.some.inj haction)
          exact hg
        · obtain ⟨-, rfl⟩ := Prod.mk.inj (Option.some.inj haction)
          exact hg.congr Gateway.joinRoom_emissions
      · cases result with
        | none => exact Program.keeps_done _
        | some socket => exact ih _

theorem silent_joinUsers (room : String) (userIds : List ℕ) :
    (joinUsers room userIds).Keeps (Unannounced i) := by
  induction userIds with
  | nil => exact Program.keeps_done _
  | cons userId rest ih =>
      refine Program.Keeps.bind ⟨fun j w g result t hg haction => ?_,
        fun result => ?_⟩ fun _ => ih
      · obtain ⟨-, rfl⟩ := Prod.mk.inj (Option.some.inj haction)
        exact hg
      · obtain ⟨created, turns⟩ := result
        cases created with
        | none => exact Program.keeps_done _
        | some created => exact silent_joinSockets room userId created turns []

theorem silent_createConversation (user participantId : ℕ)
    (productId : Option ℕ) :
    (createConversation user participantId productId).Keeps
      (Unannounced i) := by
  refine (silent_onMarket _).bind fun view => ?_
  dsimp only
  split
  · refine (silent_onMarket _).bind fun participants => ?_
    refine (silent_buildConversationJoinedPayload view).bind fun payload => ?_
    exact ((silent_joinUsers _ _).bind fun _ =>
      silent_emitJoined _ payload).bind fun _ => Program.keeps_done _
  · exact Program.keeps_done _

end Keeps

/-! ## Messages that are stored -/

/-- Request `i` has stored the message of the view, which is still there. -/
def StoredBy (i user conversationId : ℕ) (text : String) (view : MessageView)
    (m : Market) : Prop :=
  ∃ row at_ row', .wrote i at_ (.insertMessage row) ∈ m.history ∧
    view = messageView row ∧ row.senderId = user ∧
      row.conversationId = conversationId ∧ row.messageText = text ∧
        m.db.messages.get row.id = some row' ∧ MessageKept row row'

section Stored

variable {rights : Rights} {i user conversationId : ℕ} {text : String}
  {view : MessageView} {m t : Market}

theorem StoredBy.later (h : StoredBy i user conversationId text view m)
    (hhistory : m.history <:+ t.history) (hgrows : m.db.Grows t.db) :
    StoredBy i user conversationId text view t := by
  obtain ⟨row, at_, row', hwrote, hview, huser, hconversation, htext, hget,
    hkept⟩ := h
  obtain ⟨row'', hget', hkept'⟩ := hgrows.messages _ row' hget
  exact ⟨row, at_, row'', hhistory.subset hwrote, hview, huser, hconversation,
    htext, hget', hkept.trans hkept'⟩

theorem insertMessage_stores (huser : rights.user = some user)
    (hwrites : .insertMessage ∈ rights.writes)
    (hpart : TakesPart user conversationId m.db) :
    (insertReturning none
      (fun now ids =>
        ⟨ids.messages, conversationId, user, text, now, none⟩)
      .insertMessage).Meets (acting rights) i
      (fun row t => StoredBy i user conversationId text (messageView row) t)
      (fun _ _ => True) m := by
  refine run_meets (fun _ _ => hwrites) (fun _ _ => rfl) ?_
    (fun _ _ _ _ => trivial) (fun _ _ _ _ _ _ => trivial) ?_
  · exact fun u hu => ⟨user, huser, rfl, rfl, rfl, hpart.grows hu.grows⟩
  · intro u t hu _ ht
    have hfree : u.db.messages.get u.ids.messages = none :=
      Option.eq_none_iff_forall_ne_some.mpr fun row hrow =>
        lt_irrefl _ (hu.sound.within.messages _ row hrow)
    refine StoredBy.later ?_ ht.history ht.grows
    exact ⟨_, u.now, _, List.mem_cons_self, rfl, rfl, rfl, rfl,
      Table.get_insert_self hfree, MessageKept.refl _⟩

theorem sendMessage_stores (huser : rights.user = some user)
    (hwrites : ∀ kind ∈ [.insertMessage, .setLastMessage],
      kind ∈ rights.writes) :
    (sendMessage user conversationId text).Meets (acting rights) i
      (fun view t => StoredBy i user conversationId text view t)
      (fun _ _ => True) m := by
  simp only [List.forall_mem_cons] at hwrites
  refine Program.Meets.seq _ (assertConversationParticipant_meets
    fun _ _ _ => trivial) fun _ t ht => ?_
  refine Program.Meets.seq (fun row t =>
    StoredBy i user conversationId text (messageView row) t) ?_ ?_
  · refine Program.Meets.caught (fun _ _ => True)
      (insertMessage_stores huser hwrites.1 ht.2) fun fault u _ => ?_
    obtain ⟨other, hother⟩ := notFoundOnForeignKey_eq_failed
      "Conversation not found" fault
    rw [hother]
    exact failed_meets fun _ _ => trivial
  · intro row u hstored
    unfold perform execute
    refine Program.Meets.bind (run_meets (fun _ _ => hwrites.2.1)
      (fun _ _ => rfl) ?_ (fun _ _ _ _ => trivial)
      (fun _ _ _ _ _ _ => trivial) ?_)
    · intro v hv
      have hlater := hstored.later hv.history hv.grows
      obtain ⟨row', -, row'', -, hview, -, hconversation, -, hget, hkept⟩ :=
        hlater
      have hid : row.id = row'.id := congrArg MessageView.id hview
      exact ⟨user, huser, row'', hid ▸ hget,
        hkept.conversation.trans hconversation⟩
    · intro v w hv _ hw
      refine done_meets fun x hx => ?_
      have hafter := Later.trans hw.toRely hx
      refine hstored.later ?_ ?_
      · exact (hv.history.trans (List.suffix_cons _ _)).trans hafter.history
      · exact (hv.grows.trans (v.grows_autocommit i _)).trans hafter.grows

/-- The messages that the requests have stored have different ids. -/
def IdsDistinct (m : Market) : Prop :=
  (∀ i at_ row, .wrote i at_ (.insertMessage row) ∈ m.history →
    row.id < m.ids.messages) ∧
  ∀ i j at_ at' row row', .wrote i at_ (.insertMessage row) ∈ m.history →
    .wrote j at' (.insertMessage row') ∈ m.history → row.id = row'.id → i = j

theorem IdsDistinct.mono (h : IdsDistinct m) (hids : m.ids.Le t.ids)
    (hhistory : ∀ i at_ row, .wrote i at_ (.insertMessage row) ∈ t.history →
      .wrote i at_ (.insertMessage row) ∈ m.history) : IdsDistinct t :=
  ⟨fun i at_ row hwrote =>
    (h.1 i at_ row (hhistory i at_ row hwrote)).trans_le hids.messages,
  fun i j at_ at' row row' hwrote hwrote' =>
    h.2 i j at_ at' row row' (hhistory i at_ row hwrote)
      (hhistory j at' row' hwrote')⟩

/-- A message gets the next id. -/
theorem IdsDistinct.wrote {row : MessageRow} (h : IdsDistinct m)
    (hid : row.id = m.ids.messages)
    (hhistory : t.history = .wrote i m.now (.insertMessage row) :: m.history)
    (hids : t.ids.messages = m.ids.messages + 1) : IdsDistinct t := by
  have hold : ∀ j at_ other, .wrote j at_ (.insertMessage other) ∈ t.history →
      (j = i ∧ other = row) ∨
        .wrote j at_ (.insertMessage other) ∈ m.history := by
    intro j at_ other hwrote
    rw [hhistory, List.mem_cons] at hwrote
    refine hwrote.imp_left fun hnew => ?_
    obtain ⟨hactor, -, hchange⟩ := Event.wrote.inj hnew
    exact ⟨hactor, Change.insertMessage.inj hchange⟩
  constructor
  · intro j at_ other hwrote
    rcases hold j at_ other hwrote with ⟨-, rfl⟩ | hwrote
    · omega
    · have hbound := h.1 j at_ other hwrote
      omega
  · intro j k at_ at' other other' hwrote hwrote' hsame
    rcases hold j at_ other hwrote with ⟨rfl, rfl⟩ | hwrote <;>
      rcases hold k at' other' hwrote' with ⟨rfl, rfl⟩ | hwrote'
    · rfl
    · have hbound := h.1 k at' other' hwrote'
      omega
    · have hbound := h.1 j at_ other hwrote
      omega
    · exact h.2 j k at_ at' other other' hwrote hwrote' hsame

theorem Acts.idsDistinct (hacts : Acts rights i m t) (h : IdsDistinct m) :
    IdsDistinct t := by
  rcases hacts with rfl | hstep
  · exact h
  cases hstep with
  | lost change hwrites =>
      exact h.mono (Sequences.Le.refl _) fun _ _ _ hwrote =>
        (List.mem_cons.mp hwrote).resolve_left (by simp)
  | rejected client change violation hwrites hviolation =>
      exact h.mono (Market.le_nextIds change m.ids) fun _ _ _ hwrote =>
        (List.mem_cons.mp hwrote).resolve_left (by simp)
  | wrote actor change huser hwrites halone hunlocked hviolation hoffered =>
      by_cases hmessage : ∃ row, change = .insertMessage row
      · obtain ⟨row, rfl⟩ := hmessage
        exact h.wrote hoffered.1 rfl rfl
      · refine h.mono (Market.le_nextIds change m.ids) fun j at_ row hwrote => ?_
        refine (List.mem_cons.mp hwrote).resolve_left fun hnew => ?_
        exact hmessage ⟨row, (Event.wrote.inj hnew).2.2.symm⟩
  | queued change hwrites htransactional havailable hneeded =>
      exact h.mono (Market.le_nextIds change m.ids) fun _ _ _ => id
  | locked | rolledBack =>
      exact h.mono (Sequences.Le.refl _) fun _ _ _ => id
  | committed actor huser htransaction =>
      refine h.mono (Sequences.Le.refl _) fun j at_ row hwrote => ?_
      simp only [Market.commit, flush_eq, List.mem_append, List.mem_reverse,
        List.mem_map] at hwrote
      refine hwrote.resolve_left ?_
      rintro ⟨change, hchange, hnew⟩
      obtain ⟨-, -, rfl⟩ := Event.wrote.inj hnew
      exact Bool.false_ne_true (htransaction.transactional _ hchange)

theorem Market.idsDistinct_surroundings (event : Surroundings)
    (h : IdsDistinct m) : IdsDistinct (m.surroundings event) := by
  refine h.mono (rely_surroundings event 0 m).ids fun j at_ row hwrote => ?_
  cases event with
  | timePasses amount => exact hwrote
  | userRegisters | userDeleted =>
      exact (List.mem_cons.mp hwrote).resolve_left (by simp)

end Stored

/-! ## Outlines -/

/-- The others go on, announce nothing for this request, and let every socket
stay. -/
structure AnnounceRely (i : ℕ) (g g' : Gateway) : Prop
    extends GatewayRely i g g' where
  effects : effectsOf i (announced g') = effectsOf i (announced g)
  stays : ∀ client, (g.sockets client).isSome = true → g.Stays client g'

theorem AnnounceRely.unannounced {i : ℕ} {g g' : Gateway}
    (h : AnnounceRely i g g') (hg : Unannounced i g) : Unannounced i g' :=
  h.effects.trans hg

theorem Gateway.isSome_of_userOf {client user : ℕ} {g : Gateway}
    (h : g.userOf client = some user) : (g.sockets client).isSome = true := by
  cases hsocket : g.sockets client with
  | none => simp [userOf, hsocket] at h
  | some socket => rfl

section Outlines

variable {app : GatewayDeployment} {i : ℕ} {g : Gateway} {α : Type}
  {fact : Gateway → Prop}

/-- The outline of a program that ends with this. -/
abbrev Announcing (i : ℕ) (program : GatewayOperation α)
    (post : α → Gateway → Prop) (g : Gateway) : Prop :=
  program.Proceeds Gateway.Sound (AnnounceRely i) i (Unannounced i) post g

theorem silent_announcing {program : GatewayOperation α}
    (hkeeps : program.Keeps (Unannounced i)) (h : Unannounced i g) :
    Announcing i program (fun _ => Unannounced i) g :=
  Program.Proceeds.of_keeps hkeeps AnnounceRely.unannounced h

theorem getUser_announcing {client : ℕ} (h : Unannounced i g)
    (hsound : g.Sound) :
    Announcing i (getUser client) (fun user t => Unannounced i t ∧ t.Sound ∧
      t.userOf client = some user) g := by
  have hmeets : (getUser client).Meets
      (emitting [] (.joinConversation client 0)) i
      (fun user t => t.userOf client = some user) (fun _ _ => True) g :=
    getUser_meets fun _ _ _ huser => huser
  exact Program.Proceeds.of_meets hmeets (keeps_getUser client)
    AnnounceRely.toGatewayRely AnnounceRely.unannounced hsound h

theorem onMarket_announcing {rights : Rights} {operation : Operation α}
    {post : α → Market → Prop} (hstable : Stable fact) (hfact : fact g)
    (hmeets : operation.Meets (acting rights) i post (fun _ _ => True)
      g.market) (h : Unannounced i g) (hsound : g.Sound) :
    Announcing i (onMarket operation) (fun value t => Unannounced i t ∧
      t.Sound ∧ post value t.market ∧ fact t) g := by
  have hlifted : (onMarket operation).Meets
      (emitting [] (.joinConversation 0 0)) i
      (fun value t => post value t.market ∧ fact t) (fun _ _ => True) g :=
    onMarket_meets hstable hfact hmeets
  exact Program.Proceeds.of_meets hlifted (silent_onMarket operation)
    AnnounceRely.toGatewayRely AnnounceRely.unannounced hsound h

theorem expand_announcing {payload : α} (hstable : Stable fact)
    (hfact : fact g) (h : Unannounced i g) (hsound : g.Sound) :
    Announcing i (expand payload) (fun value t => Unannounced i t ∧
      t.Sound ∧ value = payload ∧ fact t) g := by
  have hselect : (select none fun _ => payload).Meets (acting ⟨none, []⟩) i
      (fun value _ => value = payload) (fun _ _ => True) g.market :=
    select_meets (fun _ _ => trivial) fun _ _ _ => rfl
  exact onMarket_announcing hstable hfact hselect h hsound

theorem update_announcing {change : ℕ → GatewayDraw → Gateway → Gateway}
    {post : Gateway → Prop} (h : Unannounced i g)
    (hchange : ∀ w t, AnnounceRely i g t → post (change i w t)) :
    Announcing i (update change) (fun _ => post) g := by
  refine ⟨h, fun t ht _ w result u haction => ?_⟩
  obtain ⟨-, rfl⟩ := Prod.mk.inj (Option.some.inj haction)
  exact hchange w t ht

/-- The user's socket is in the room once it has joined. -/
theorem join_announcing {client user conversationId : ℕ}
    (hstable : Stable fact) (hfact : fact g) (h : Unannounced i g)
    (huser : g.userOf client = some user) :
    Announcing i (join client (roomName conversationId))
      (fun _ t => Unannounced i t ∧ t.InRoom client conversationId ∧ fact t)
      g := by
  refine update_announcing h fun _ t ht => ⟨?_, ⟨?_, fun hconnected => ?_⟩, ?_⟩
  · exact (ht.unannounced h).congr Gateway.joinRoom_emissions
  · rw [Gateway.joinRoom_sockets]
    exact Gateway.isSome_of_userOf (ht.users client user huser)
  · rw [Gateway.connected_congr Gateway.joinRoom_sockets] at hconnected
    exact Gateway.mem_rooms_joinRoom_self hconnected
  · exact hstable.kept (t.grows_joinRoom client _)
      (hstable.kept ht.toGatewayRely.grows hfact)

theorem emit_announcing {client conversationId : ℕ} {event : ChatEvent}
    {room : String} {payload : WsPayload} (hstable : Stable fact)
    (hfact : fact g) (h : Unannounced i g)
    (hroom : g.InRoom client conversationId) :
    Announcing i (emit event room payload)
      (fun _ t => effectsOf i (announced t) =
          (if event = .conversationJoined then []
            else [⟨event, room, payload⟩]) ∧
        t.InRoom client conversationId ∧ fact t) g := by
  refine update_announcing h fun _ t ht => ⟨?_, ?_, ?_⟩
  · have hempty : effectsOf i (announced t) = [] := ht.unannounced h
    rw [announced_emit, effectsOf_append, hempty, List.nil_append]
    split <;> simp
  · have hin := hroom.kept (ht.stays client hroom.accepted)
    exact ⟨hin.accepted, hin.joined⟩
  · have hemit : t.Grows (t.emit i event room payload) :=
      .of_eq rfl fun _ => rfl
    exact hstable.kept hemit (hstable.kept ht.toGatewayRely.grows hfact)

/-- A message event is announced to the room that the socket has joined. -/
theorem relay_announcing {client user conversationId : ℕ} {event : ChatEvent}
    {payload : WsPayload} {value : α} (hevent : event ≠ .conversationJoined)
    (hstable : Stable fact) (hfact : fact g) (h : Unannounced i g)
    (huser : g.userOf client = some user) :
    Announcing i
      (do
        join client (roomName conversationId)
        emit event (roomName conversationId) payload
        pure value)
      (fun shown t => shown = value ∧
        effectsOf i (announced t) =
          [⟨event, roomName conversationId, payload⟩] ∧
        t.InRoom client conversationId ∧ fact t) g := by
  refine (join_announcing hstable hfact h huser).bind fun _ t ht => ?_
  obtain ⟨hsilent, hroom, hfact⟩ := ht
  refine (emit_announcing hstable hfact hsilent hroom).bind fun _ u hu => ?_
  rw [if_neg hevent] at hu
  exact ⟨rfl, hu⟩

theorem stable_storedBy (user conversationId : ℕ) (text : String)
    (view : MessageView) :
    Stable fun g => StoredBy i user conversationId text view g.market :=
  ⟨fun hgrows hstored => hstored.later hgrows.history hgrows.data⟩

theorem sendMessageEvent_announcing {client conversationId : ℕ}
    {text : String} (h : Unannounced i g) (hsound : g.Sound) :
    Announcing i (sendMessageEvent client conversationId text)
      (fun view t => effectsOf i (announced t) =
          [⟨.messageReceived, roomName conversationId, .message true view⟩] ∧
        t.InRoom client conversationId ∧
        ∃ user, t.userOf client = some user ∧
          StoredBy i user conversationId text view t.market) g := by
  refine (getUser_announcing h hsound).bind fun user t ht => ?_
  obtain ⟨h, hsound, huser⟩ := ht
  have hsend : (sendMessage user conversationId text).Meets
      (acting (Request.sendMessage user conversationId text).rights) i
      (fun view t => StoredBy i user conversationId text view t)
      (fun _ _ => True) t.market :=
    sendMessage_stores rfl fun _ => id
  refine (onMarket_announcing (stable_userOf client user) huser hsend h
    hsound).bind fun response u hu => ?_
  obtain ⟨h, hsound, hstored, huser⟩ := hu
  have hstable := (stable_userOf client user).and
    (stable_storedBy (i := i) user conversationId text response)
  refine (expand_announcing hstable ⟨huser, hstored⟩ h hsound).bind
    fun wsPayload v hv => ?_
  obtain ⟨h, -, rfl, hfact⟩ := hv
  refine (relay_announcing (by simp) hstable hfact h hfact.1).mono
    (fun _ h => h) fun view w hw => ?_
  obtain ⟨rfl, heffects, hroom, huser, hstored⟩ := hw
  exact ⟨heffects, hroom, user, huser, hstored⟩

theorem markReadEvent_announcing {client messageId : ℕ}
    (h : Unannounced i g) (hsound : g.Sound) :
    Announcing i (markReadEvent client messageId)
      (fun view t => effectsOf i (announced t) =
          [⟨.messageRead, roomName view.conversationId, .message true view⟩] ∧
        t.InRoom client view.conversationId) g := by
  refine (getUser_announcing h hsound).bind fun user t ht => ?_
  obtain ⟨h, hsound, huser⟩ := ht
  have hmark : (markRead user messageId).Meets
      (acting (Request.markRead user messageId).rights) i (fun _ _ => True)
      (fun _ _ => True) t.market :=
    (markRead_meets rfl List.mem_cons_self).mono (fun _ _ _ => trivial)
      fun _ _ _ => trivial
  have hstable := stable_userOf client user
  refine (onMarket_announcing hstable huser hmark h hsound).bind
    fun response u hu => ?_
  obtain ⟨h, hsound, -, huser⟩ := hu
  refine (expand_announcing hstable huser h hsound).bind
    fun wsPayload v hv => ?_
  obtain ⟨h, -, rfl, huser⟩ := hv
  refine (relay_announcing (by simp) hstable huser h huser).mono
    (fun _ h => h) fun view w hw => ?_
  obtain ⟨rfl, heffects, hroom, -⟩ := hw
  exact ⟨heffects, hroom⟩

theorem joinConversation_announcing {client conversationId : ℕ}
    (h : Unannounced i g) (hsound : g.Sound) :
    Announcing i (joinConversation client conversationId)
      (fun _ t => Unannounced i t ∧ t.InRoom client conversationId) g := by
  refine (getUser_announcing h hsound).bind fun user t ht => ?_
  obtain ⟨h, hsound, huser⟩ := ht
  have hstable := stable_userOf client user
  have hassert : Safe ⟨none, []⟩ i t.market
      (assertConversationParticipant conversationId user) :=
    safe_assertConversationParticipant
  refine (onMarket_announcing hstable huser hassert h hsound).bind
    fun _ u hu => ?_
  obtain ⟨h, hsound, -, huser⟩ := hu
  have hget : Safe ⟨none, []⟩ i u.market
      (getConversationById user conversationId) := safe_getConversationById
  refine (onMarket_announcing hstable huser hget h hsound).bind
    fun view v hv => ?_
  obtain ⟨h, hsound, -, huser⟩ := hv
  refine ((expand_announcing hstable huser h hsound).bind
    fun expanded w hw => ?_).bind fun payload w
      (hw : Unannounced i w ∧ w.userOf client = some user) => ?_
  · exact ⟨hw.1, hw.2.2.2⟩
  refine (join_announcing stable_true trivial hw.1 hw.2).bind
    fun _ x hx => ?_
  obtain ⟨h, hroom, -⟩ := hx
  refine (emit_announcing stable_true trivial h hroom).bind fun _ y hy => ?_
  rw [if_pos rfl] at hy
  exact ⟨hy.1, hy.2.1⟩

end Outlines

/-! ## Every request -/

/-- The room that the socket of a request with an answer has joined. -/
def GatewayRequest.enters :
    GatewayRequest → GatewayResponse → Option (ℕ × ℕ)
  | .joinConversation client conversationId, _ => some (client, conversationId)
  | .sendMessage client conversationId _, _ => some (client, conversationId)
  | .markRead client _, .message view => some (client, view.conversationId)
  | _, _ => none

/-- What is true once request `i` has this answer. -/
structure GatewayRequest.Ends (request : GatewayRequest) (i : ℕ)
    (response : GatewayResponse) (g : Gateway) : Prop where
  entered : ∀ client conversationId,
    request.enters response = some (client, conversationId) →
      g.InRoom client conversationId
  stored : ∀ client conversationId text view,
    request = .sendMessage client conversationId text →
      response = .message view → ∃ user, g.userOf client = some user ∧
        StoredBy i user conversationId text view g.market

section Requests

variable {app : GatewayDeployment} {i : ℕ} {g : Gateway}

theorem GatewayRequest.Ends.later {request : GatewayRequest}
    {response : GatewayResponse} {g' : Gateway}
    (h : request.Ends i response g) (hrely : AnnounceRely i g g') :
    request.Ends i response g' := by
  constructor
  · intro client conversationId henters
    have hroom := h.entered client conversationId henters
    exact hroom.kept (hrely.stays client hroom.accepted)
  · intro client conversationId text view hrequest hresponse
    obtain ⟨user, huser, hstored⟩ :=
      h.stored client conversationId text view hrequest hresponse
    exact ⟨user, hrely.users client user huser,
      hstored.later hrely.market.history hrely.market.grows⟩

/-- Every request has announced what it announces by the time it has an
answer, and nothing before. -/
theorem GatewayRequest.handler_announces (request : GatewayRequest)
    (h : Unannounced i g) (hsound : g.Sound) :
    Announcing i (request.handler app)
      (fun response t =>
        effectsOf i (announced t) = (request.announces response).toList ∧
          request.Ends i response t) g := by
  cases request with
  | handleConnection handshake =>
      refine (silent_announcing (silent_handleConnection _ handshake) h).bind
        fun _ _ ht => ⟨ht, ?_⟩
      constructor <;> simp [enters]
  | createConversation user participantId productId =>
      refine (silent_announcing
        (silent_createConversation user participantId productId) h).bind
        fun _ _ ht => ⟨ht, ?_⟩
      constructor <;> simp [enters]
  | http request =>
      refine (silent_announcing (silent_onMarket _) h).bind
        fun _ _ ht => ⟨ht, ?_⟩
      constructor <;> simp [enters]
  | joinConversation client conversationId =>
      refine (joinConversation_announcing h hsound).bind
        fun room t ht => ⟨ht.1, ?_⟩
      constructor
      · rintro _ _ ⟨⟩
        exact ht.2
      · simp
  | sendMessage client conversationId text =>
      refine (sendMessageEvent_announcing h hsound).bind
        fun view t ht => ⟨ht.1, ?_⟩
      constructor
      · rintro _ _ ⟨⟩
        exact ht.2.1
      · rintro _ _ _ _ ⟨⟩ ⟨⟩
        exact ht.2.2
  | markRead client messageId =>
      refine (markReadEvent_announcing h hsound).bind
        fun view t ht => ⟨ht.1, ?_⟩
      constructor
      · rintro _ _ ⟨⟩
        exact ht.2
      · simp

end Requests

/-! ## Runs -/

section Runs

variable {app : GatewayDeployment} {now : ℕ} {pool later : GatewayPool}

theorem announceRely_of_perform
    (hreach : (gateway app).Reaches (fun _ _ => True)
      (GatewayPool.opening now) pool)
    {move : GatewayMove} {next : GatewayPool}
    (hperform : (gateway app).perform move pool = some next) {i : ℕ}
    (hmove : ∀ w, move ≠ .advance i w) :
    AnnounceRely i pool.state next.state := by
  have hcourse := gateway_onCourse hreach
  have hstays : ∀ client, (pool.state.sockets client).isSome = true →
      pool.state.Stays client next.state := fun client hsome =>
    (stays_of_perform hreach hperform hsome).1
  rcases hcourse.perform_cases hperform with
    hsame | ⟨j, w, thread, hj, -, hstep⟩ | ⟨event, -, henvironment⟩
  · rw [hsame]
    exact ⟨GatewayRely.refl i _, rfl, fun _ => .refl⟩
  · have hne : j ≠ i := fun h => hmove w (h ▸ hj)
    exact ⟨hstep.rely hne hcourse.invariant, hstep.effectsOf_eq hne, hstays⟩
  · refine ⟨?_, ?_, hstays⟩
    · exact henvironment ▸ Gateway.rely_surroundings event i _
    · rw [henvironment]
      exact congrArg (effectsOf i)
        (announced_congr (Gateway.emissions_surroundings event _))

theorem gateway_takesEffect : (gateway app).TakesEffect
    (fun pool => (gateway app).Reaches (fun _ _ => True)
      (GatewayPool.opening now) pool)
    Gateway.Sound AnnounceRely announced GatewayRequest.announces
    GatewayRequest.Ends where
  keeps hreach hperform := hreach.step (fun _ _ => trivial) hperform
  invariant_of hreach := (gateway_onCourse hreach).invariant
  others hreach hperform hmove := announceRely_of_perform hreach hperform hmove
  rely_refl i g := ⟨GatewayRely.refl i g, rfl, fun _ => .refl⟩
  rely_trans h h' :=
    ⟨h.toGatewayRely.trans h'.toGatewayRely, h'.effects.trans h.effects,
      fun client hsome => (h.stays client hsome).trans
        (h'.stays client (h.stays client hsome).accepted)⟩
  meantime_kept hrely h := hrely.unannounced h
  post_kept hrely h := ⟨hrely.effects.trans h.1, h.2.later hrely⟩
  handler_proceeds request hreach := by
    have hcourse := gateway_onCourse hreach
    exact request.handler_announces (hcourse.fresh _ le_rfl).unannounced
      hcourse.invariant

theorem idsDistinct_of_reaches
    (hreach : (gateway app).Reaches (fun _ _ => True)
      (GatewayPool.opening now) pool) : IdsDistinct pool.state.market := by
  refine hreach.furtherWithin gateway_sound (gateway_onCourse_opening now)
    (fun g => IdsDistinct g.market) ?_ (fun hstep _ hdistinct => ?_)
    fun event g _ hdistinct => ?_
  · exact ⟨fun _ _ _ h => absurd h List.not_mem_nil,
      fun _ _ _ _ _ _ h => absurd h List.not_mem_nil⟩
  · cases hstep with
    | traded rights m hacts => exact hacts.idsDistinct hdistinct
    | accepted | emitted => exact hdistinct
    | turnedAwayAtOnce | turnedAway => rwa [Gateway.turnAway_market]
    | authenticated => rwa [Gateway.authenticate_market]
    | joined => rwa [Gateway.joinRoom_market]
  · cases event with
    | disconnects client =>
        exact (Gateway.disconnect_market (g := g)).symm ▸ hdistinct
    | elsewhere event => exact Market.idsDistinct_surroundings event hdistinct

/-- The announcements are those of the requests that have an answer. -/
structure AnnouncedOnce (pool : GatewayPool) : Prop where
  once : ((announced pool.state).map Prod.fst).Nodup
  answered : ∀ i announcement, (i, announcement) ∈ announced pool.state ↔
    ∃ request response, pool.threads[i]? = some ⟨request, .done response⟩ ∧
      request.announces response = some announcement
  stored : ∀ i room view,
    (i, ⟨.messageReceived, room, .message true view⟩) ∈ announced pool.state →
      ∃ client conversationId text user,
        pool.threads[i]? = some
          ⟨.sendMessage client conversationId text, .done (.message view)⟩ ∧
        room = roomName conversationId ∧
        pool.state.userOf client = some user ∧
        StoredBy i user conversationId text view pool.state.market
  distinct : ∀ i j room room' view view',
    (i, ⟨.messageReceived, room, .message true view⟩) ∈ announced pool.state →
    (j, ⟨.messageReceived, room', .message true view'⟩) ∈
      announced pool.state → view.id = view'.id → i = j

theorem GatewayRequest.eq_of_announces_received {request : GatewayRequest}
    {response : GatewayResponse} {room : String} {view : MessageView}
    (h : request.announces response =
      some ⟨.messageReceived, room, .message true view⟩) :
    ∃ client conversationId text,
      request = .sendMessage client conversationId text ∧
        response = .message view ∧ room = roomName conversationId := by
  unfold announces at h
  split at h
  · simp only [Option.some.injEq, Announcement.mk.injEq, true_and,
      WsPayload.message.injEq] at h
    obtain ⟨rfl, rfl⟩ := h
    exact ⟨_, _, _, rfl, rfl, rfl⟩
  · simp at h
  · contradiction

/-- A message that is sent or read over a socket is announced once its request
has an answer and only then, a message that is announced as received is stored
as it was sent, and no message is announced so twice. -/
theorem message_announcements
    (hreach : (gateway app).Reaches (fun _ _ => True)
      (GatewayPool.opening now) pool) : AnnouncedOnce pool := by
  obtain ⟨honce, hanswered⟩ := gateway_takesEffect.lists hreach .refl rfl
    fun i hi => ((gateway_onCourse hreach).fresh i hi).unannounced
  have hstored : ∀ i room view,
      (i, ⟨.messageReceived, room, .message true view⟩) ∈
        announced pool.state →
      ∃ client conversationId text user,
        pool.threads[i]? = some
          ⟨.sendMessage client conversationId text, .done (.message view)⟩ ∧
        room = roomName conversationId ∧
        pool.state.userOf client = some user ∧
        StoredBy i user conversationId text view pool.state.market := by
    intro i room view hmem
    obtain ⟨request, response, hthread, hannounces⟩ := (hanswered i _).mp hmem
    obtain ⟨client, conversationId, text, rfl, rfl, hroom⟩ :=
      GatewayRequest.eq_of_announces_received hannounces
    have hends := gateway_takesEffect.ends hreach .refl rfl hthread
    obtain ⟨user, huser, hstored⟩ := hends.stored _ _ _ _ rfl rfl
    exact ⟨client, conversationId, text, user, hthread, hroom, huser, hstored⟩
  refine ⟨honce, hanswered, hstored, ?_⟩
  intro i j room room' view view' hmem hmem' hsame
  obtain ⟨-, -, -, -, -, -, -, row, at_, -, hwrote, hview, -⟩ :=
    hstored i room view hmem
  obtain ⟨-, -, -, -, -, -, -, row', at', -, hwrote', hview', -⟩ :=
    hstored j room' view' hmem'
  rw [hview, hview'] at hsame
  exact (idsDistinct_of_reaches hreach).2 i j at_ at' row row' hwrote hwrote'
    hsame

/-- Socket 1 sends a message to the room that both sockets have joined. -/
def sendsToBoth : List GatewayMove := performs 5 8 (.sendMessage 1 1 "Hello")

theorem message_announcements_sent :
    ∃ pool, (gateway sampleGateway).Reaches (fun _ _ => True)
        (GatewayPool.opening 0) pool ∧
      (announced pool.state).map Prod.fst = [5] ∧ AnnouncedOnce pool := by
  obtain ⟨pool, hreach, hcheck⟩ := System.exists_reaches_of_run
    (show ((gateway sampleGateway).run (joinsBoth ++ sendsToBoth)
      (GatewayPool.opening 0)).any (fun pool =>
        decide ((announced pool.state).map Prod.fst = [5])) = true by
      decide +kernel)
  exact ⟨pool, hreach, of_decide_eq_true hcheck, message_announcements hreach⟩

/-- A socket that has joined a conversation, or has sent or read a message in
it, receives everything that is emitted to the conversation until it goes. -/
theorem joined_sockets_receive
    (hreach : (gateway app).Reaches (fun _ _ => True)
      (GatewayPool.opening now) pool)
    {i client conversationId : ℕ} {request : GatewayRequest}
    {response : GatewayResponse}
    (hthread : pool.threads[i]? = some ⟨request, .done response⟩)
    (henters : request.enters response = some (client, conversationId))
    (hlater : (gateway app).Reaches (fun _ _ => True) pool later)
    (hconnected : later.state.connected client = true) :
    ∃ new, later.state.emissions = new ++ pool.state.emissions ∧
      ∀ emission ∈ new, emission.room = roomName conversationId →
        client ∈ emission.receivers := by
  have hends := gateway_takesEffect.ends hreach .refl rfl hthread
  obtain ⟨-, new, hnew, hreceived⟩ := receives_of_inRoom hreach hlater
    (hends.entered client conversationId henters)
  exact ⟨new, hnew, hreceived hconnected⟩

/-- What socket 1 sends is received by socket 2. -/
theorem joined_sockets_receive_sent :
    ∃ pool later, (gateway sampleGateway).Reaches (fun _ _ => True)
        (GatewayPool.opening 0) pool ∧
      (gateway sampleGateway).Reaches (fun _ _ => True) pool later ∧
      pool.state.emissions.length < later.state.emissions.length ∧
      ∃ new, later.state.emissions = new ++ pool.state.emissions ∧
        ∀ emission ∈ new, emission.room = roomName 1 →
          2 ∈ emission.receivers := by
  obtain ⟨pool, hreach, hcheck⟩ := System.exists_reaches_of_run
    (show ((gateway sampleGateway).run joinsBoth (GatewayPool.opening 0)).any
      (fun pool =>
        (pool.answer 3).any (fun thread =>
          decide (thread.1.enters thread.2 = some (2, 1))) &&
        ((gateway sampleGateway).run sendsToBoth pool).any fun later =>
          later.state.connected 2 &&
            decide (pool.state.emissions.length <
              later.state.emissions.length)) = true by decide +kernel)
  simp only [Bool.and_eq_true, Option.any_eq_true, decide_eq_true_eq] at hcheck
  obtain ⟨⟨⟨request, response⟩, hanswer, henters⟩, later, hrun, hconnected,
    hmore⟩ := hcheck
  have hlater := System.Reaches.refl.run (fun _ _ _ => trivial) hrun
  exact ⟨pool, later, hreach, hlater, hmore, joined_sockets_receive hreach
    (Pool.thread_of_answer hanswer) henters hlater hconnected⟩

end Runs

end MarketPlace.Trade
