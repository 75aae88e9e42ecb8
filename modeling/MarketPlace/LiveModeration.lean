import MarketPlace.AccountHistories
import MarketPlace.GivenRuns

/-!
# Moderation of live sessions

`updateUserStatus` changes the status column and nothing else: the tokens and
the sockets that the user already holds keep working.  What a suspension does
stop is everything that is built after it, from the read of the user's row on.
The moderation therefore holds in the runs that carry nothing over from before
a suspension.
-/

namespace MarketPlace

open EventLog Interleaving

variable {app : Deployment} {history past start : List Event} {event : Event}
  {i j u : ℕ} {row : UserRow} {token : Token}
  {pool : Pool Request Draw World HttpError Response}

/-! ## Suspensions -/

/-- The event is an update of the user's status that finds the user live. -/
def Event.SetsStatus (u : ℕ) (status : UserStatus) (past : List Event)
    (event : Event) : Prop :=
  (∃ i now at_, event = .wrote i now (.updateStatus u status at_)) ∧
    ((stored past).liveUserById u).isSome

/-- The newest event sets the user to paused or banned. -/
def Suspension (u : ℕ) (start : List Event) : Prop :=
  ∃ event past status, start = event :: past ∧
    event.SetsStatus u status past ∧ status ≠ .active

/-- The user was suspended at `start`, and no update has set it back to active
since. -/
structure Suspended (u : ℕ) (start history : List Event) : Prop where
  suspension : Suspension u start
  older : start <:+ history
  lasting : ∀ event past, Happened event past history → start <:+ past →
    ¬ event.SetsStatus u .active past

theorem Suspended.before (h : Suspended u start history)
    (hstart : start <:+ past) (hpast : past <:+ history) :
    Suspended u start past :=
  ⟨h.suspension, hstart, fun event rest hevent hsuffix =>
    h.lasting event rest (hevent.later hpast) hsuffix⟩

/-- No access token of a suspended user is accepted, whether its request then
succeeds or not, and no message of a suspended user is stored. -/
structure ModerationHolds (app : Deployment)
    (pool : Pool Request Draw World HttpError Response) : Prop where
  requests : ∀ i request token response, request.accessToken = some token →
    pool.threads[i]? = some ⟨request, .done response⟩ →
    ∃ row past,
      LookedUp i app.config.jwtAccessSecret token row past
        pool.state.history ∧
      ∀ start, ¬ Suspended token.sub start past
  lookups : ∀ i token row past,
    LookedUp i app.config.jwtAccessSecret token row past pool.state.history →
    ∀ start, ¬ Suspended token.sub start past
  messages : ∀ i now row past,
    Happened (.wrote i now (.insertMessage row)) past pool.state.history →
    ∀ start, ¬ Suspended row.senderId start past

/-! ## What is carried over a suspension -/

/-- The request has read the user's row, or is creating it. -/
def KnewUser (i u : ℕ) (start : List Event) : Prop :=
  (∃ row, .userRead i row ∈ start ∧ row.id = u) ∨
    ∃ row, .queued i (.insertUser row) ∈ start ∧ row.id = u

/-- The event goes on with what the user, or a request that was under way, got
before `start`; or the seed script resets the user's status. -/
def Event.CarriesOver (app : Deployment) (u : ℕ) (start past : List Event) :
    Event → Prop
  | .verified _ _ token =>
      token.sub = u ∧ token.secret = app.config.jwtAccessSecret ∧
        ∃ j, .minted j token ∈ past ∧ KnewUser j u start
  | .userRead i row =>
      row.id = u ∧ ∃ at_ token, .verified i at_ token ∈ start ∧
        token.sub = u ∧ token.secret = app.config.jwtAccessSecret
  | .socketOpened i _ userId =>
      userId = u ∧ ∃ at_ token, .verified i at_ token ∈ start ∧
        token.sub = u ∧ token.secret = app.config.jwtAccessSecret
  | .socketUsed _ socket userId =>
      userId = u ∧ ⟨socket, u⟩ ∈ openSockets start
  | .wrote i _ (.insertMessage row) =>
      row.senderId = u ∧ ∃ socket, .socketUsed i socket u ∈ start
  | .wrote _ _ (.seedAdmin phone _ _) =>
      ∃ row, (stored past).users.get u = some row ∧ row.phone = phone
  | _ => False

/-- While a user is suspended, nothing from before is used. -/
def NothingCarriedOver (app : Deployment) (history : List Event) : Prop :=
  ∀ u start event past, Happened event past history → Suspended u start past →
    ¬ event.CarriesOver app u start past

theorem NothingCarriedOver.before (h : NothingCarriedOver app history)
    (hpast : past <:+ history) : NothingCarriedOver app past :=
  fun u start event rest hevent => h u start event rest (hevent.later hpast)

/-! ## The row of a suspended user -/

/-- Only an update of the status and the seed script make a user active. -/
theorem Write.onUser_status {write : Write}
    (hactive : (write.onUser row).status = .active) :
    row.status = .active ∨
      (∃ at_, write = .updateStatus row.id .active at_ ∧
        row.deletedAt = none) ∨
      ∃ hash at_, write = .seedAdmin row.phone hash at_ := by
  cases write with
  | updateStatus userId status now =>
      simp only [onUser] at hactive
      split at hactive
      · next hhit =>
          rw [Bool.and_eq_true, decide_eq_true_eq, Option.isNone_iff_eq_none]
            at hhit
          obtain ⟨rfl, hlive⟩ := hhit
          subst hactive
          exact .inr (.inl ⟨now, rfl, hlive⟩)
      · exact .inl hactive
  | seedAdmin phone passwordHash now =>
      simp only [onUser] at hactive
      split at hactive
      · next hphone =>
          subst hphone
          exact .inr (.inr ⟨passwordHash, now, rfl⟩)
      · exact .inl hactive
  | _ => simp only [onUser] at hactive; grind

theorem Suspension.inactive (h : Suspension u start)
    (hlawful : LawfulHistory app start) :
    ∃ row, (stored start).users.get u = some row ∧ row.status ≠ .active := by
  obtain ⟨event, past, status, rfl, ⟨⟨i, now, at_, rfl⟩, hlive⟩, hstatus⟩ := h
  obtain ⟨row, hrow⟩ := Option.isSome_iff_exists.mp hlive
  obtain ⟨hget, hid, hdeleted⟩ := Database.get_of_liveUserById hrow
  rw [hid] at hget
  refine ⟨_, (hlawful.justified happened_self).user_step hget, ?_⟩
  have hset : ((Write.updateStatus u status at_).onUser row).status = status := by
    simp [Write.onUser, hid, hdeleted]
  rw [Event.onUser, hset]
  exact hstatus

theorem Suspended.inactive (h : Suspended u start history)
    (hlawful : LawfulHistory app history)
    (hfresh : NothingCarriedOver app history) :
    ∃ row, (stored history).users.get u = some row ∧
      row.status ≠ .active := by
  refine since (fun log => ∃ row, (stored log).users.get u = some row ∧
    row.status ≠ .active) h.older
    (h.suspension.inactive (hlawful.before h.older)) ?_
  rintro event past hevent hstart ⟨row, hget, hstatus⟩
  refine ⟨_, (hlawful.justified hevent).user_step hget, fun hactive => ?_⟩
  have hid : row.id = u := Relational.Table.key_of_get hget
  by_cases hwrote : ∃ i now write, event = .wrote i now write
  · obtain ⟨i, now, write, rfl⟩ := hwrote
    rcases Write.onUser_status hactive with
      hbefore | ⟨at_, rfl, hlive⟩ | ⟨hash, at_, rfl⟩
    · exact hstatus hbefore
    · refine h.lasting _ past hevent hstart ⟨⟨i, now, at_, by rw [hid]⟩, ?_⟩
      simp [Database.liveUserById, hget, hlive]
    · exact hfresh u start _ past hevent (h.before hstart hevent.older)
        ⟨row, hget, rfl⟩
  · have hsame : event.onUser row = row := by
      unfold Event.onUser
      split
      · next i now write => exact absurd ⟨i, now, write, rfl⟩ hwrote
      · rfl
    rw [hsame] at hactive
    exact hstatus hactive

/-! ## Nothing new is built -/

/-- Whoever mints a token for a suspended user knew the user before. -/
theorem Suspended.knewUser (h : Suspended u start history)
    (hlawful : LawfulHistory app history)
    (hfresh : NothingCarriedOver app history)
    (hminted : .minted j token ∈ history) (hsub : token.sub = u) :
    KnewUser j u start := by
  obtain ⟨past, hminted⟩ := exists_happened hminted
  cases hlawful.justified hminted with
  | read first origin hread hid hversion hadmin hlive hactive =>
      have hread' := hread.later hminted.older
      rcases hread'.mem_or_after h.older with hmem | hafter
      · exact .inl ⟨first, hmem, hid.symm.trans hsub⟩
      · obtain ⟨row, hget, hstatus⟩ := (h.before hafter hread'.older).inactive
          (hlawful.before hread'.older) (hfresh.before hread'.older)
        have hfirst : (stored origin).users.get first.id = some first :=
          hlawful.justified hread'
        rw [← hid, hsub, hget, Option.some.injEq] at hfirst
        subst hfirst
        contradiction
  | created first origin hqueued hid hversion hadmin =>
      have hqueued' := hqueued.later hminted.older
      rcases hqueued'.mem_or_after h.older with hmem | hafter
      · exact .inr ⟨first, hmem, hid.symm.trans hsub⟩
      · have hstart := hlawful.before h.older
        obtain ⟨row, hget, -⟩ := h.suspension.inactive hstart
        obtain ⟨other, before, hinserted, hother, -⟩ :=
          hstart.user_inserted hget
        obtain ⟨k, now, hwrote⟩ := hinserted.happened
        have hearlier : .queued k (.insertUser other) ∈ origin :=
          hafter.subset (hwrote.older.subset
            (hstart.queued_of_wrote_user hwrote))
        obtain ⟨-, at_, -, -, -, hgrows⟩ := hlawful.justified hqueued'
        have hlt := hgrows k other hearlier
        omega

theorem Suspended.verified_mem {at_ : ℕ} (h : Suspended u start history)
    (hlawful : LawfulHistory app history)
    (hfresh : NothingCarriedOver app history)
    (hverified : .verified i at_ token ∈ history) (hsub : token.sub = u)
    (hsecret : token.secret = app.config.jwtAccessSecret) :
    .verified i at_ token ∈ start := by
  obtain ⟨past, hverified⟩ := exists_happened hverified
  rcases hverified.mem_or_after h.older with hmem | hafter
  · exact hmem
  · have hthen := h.before hafter hverified.older
    obtain ⟨-, k, hminted⟩ := hlawful.justified hverified
    have hknew := hthen.knewUser (hlawful.before hverified.older)
      (hfresh.before hverified.older) hminted hsub
    exact absurd ⟨hsub, hsecret, k, hminted, hknew⟩
      (hfresh u start _ past hverified hthen)

theorem Suspended.not_socketOpened {socket : ℕ}
    (h : Suspended u start history) (hlawful : LawfulHistory app history)
    (hfresh : NothingCarriedOver app history)
    (hopened : Happened (.socketOpened i socket u) past history) :
    ¬ start <:+ past := by
  intro hafter
  have hthen := h.before hafter hopened.older
  obtain ⟨at_, token, hverified, hsub, hsecret⟩ := hlawful.justified hopened
  have hmem := hthen.verified_mem (hlawful.before hopened.older)
    (hfresh.before hopened.older) hverified hsub hsecret
  exact hfresh u start _ past hopened hthen
    ⟨rfl, at_, token, hmem, hsub, hsecret⟩

theorem Suspended.openSockets {socket : ℕ} (h : Suspended u start history)
    (hlawful : LawfulHistory app history)
    (hfresh : NothingCarriedOver app history)
    (hopen : ⟨socket, u⟩ ∈ openSockets history) :
    ⟨socket, u⟩ ∈ MarketPlace.openSockets start := by
  refine since (fun log => ⟨socket, u⟩ ∈ MarketPlace.openSockets log →
    ⟨socket, u⟩ ∈ MarketPlace.openSockets start) h.older (fun hmem => hmem)
    ?_ hopen
  intro event past hevent hafter hkept hmem
  rw [openSockets_cons] at hmem
  unfold Event.socketEffect at hmem
  split at hmem
  · rcases List.mem_cons.mp hmem with heq | hmem
    · cases heq
      exact absurd hafter (h.not_socketOpened hlawful hfresh hevent)
    · exact hkept hmem
  · exact hkept (List.mem_of_mem_filter hmem)
  · exact hkept hmem

theorem Suspended.socketUsed_mem {socket : ℕ} (h : Suspended u start history)
    (hlawful : LawfulHistory app history)
    (hfresh : NothingCarriedOver app history)
    (hused : .socketUsed i socket u ∈ history) :
    .socketUsed i socket u ∈ start := by
  obtain ⟨past, hused⟩ := exists_happened hused
  rcases hused.mem_or_after h.older with hmem | hafter
  · exact hmem
  · have hthen := h.before hafter hused.older
    have hopen := hthen.openSockets (hlawful.before hused.older)
      (hfresh.before hused.older) (hlawful.justified hused)
    exact absurd ⟨rfl, hopen⟩ (hfresh u start _ past hused hthen)

/-! ## The moderation -/

theorem LawfulHistory.not_suspended_of_lookedUp
    {past : List Event} (hlawful : LawfulHistory app history)
    (hfresh : NothingCarriedOver app history)
    (hlooked : LookedUp i app.config.jwtAccessSecret token row past history) :
    ¬ Suspended token.sub start past := by
  intro hsuspended
  have hpast := hlooked.read.older
  obtain ⟨at_, before, hverified⟩ := hlooked.verified
  have hmem := hsuspended.verified_mem (hlawful.before hpast)
    (hfresh.before hpast) hverified.mem rfl hlooked.signed
  exact hfresh token.sub start _ past hlooked.read hsuspended
    ⟨hlooked.user, at_, token, hmem, rfl, hlooked.signed⟩

theorem LawfulHistory.not_suspended_of_stored {now : ℕ} {row : MessageRow}
    {past : List Event} (hlawful : LawfulHistory app history)
    (hfresh : NothingCarriedOver app history)
    (hwrote : Happened (.wrote i now (.insertMessage row)) past history) :
    ¬ Suspended row.senderId start past := by
  intro hsuspended
  have hpast := hlawful.before hwrote.older
  obtain ⟨-, hgrounded⟩ := hlawful.justified hwrote
  have hnotQueued : .queued i (.insertMessage row) ∉ past := by
    intro hqueued
    obtain ⟨before, hqueued⟩ := exists_happened hqueued
    have htransactional := (hpast.justified hqueued).1
    contradiction
  obtain ⟨socket, hused⟩ := hgrounded hnotQueued
  have hmem := hsuspended.socketUsed_mem hpast
    (hfresh.before hwrote.older) hused
  exact hfresh row.senderId start _ past hwrote hsuspended
    ⟨rfl, socket, hmem⟩

theorem moderation_of_nothingCarriedOver (hreach : Reachable app pool)
    (hfresh : NothingCarriedOver app pool.state.history) :
    ModerationHolds app pool := by
  have hlawful := hreach.traced.lawful
  constructor
  · intro i request token response haccess hdone
    obtain ⟨-, hguard⟩ := hreach.ensures hdone
    obtain ⟨row, past, hlooked⟩ := hguard token haccess
    exact ⟨row, past, hlooked, fun start =>
      hlawful.not_suspended_of_lookedUp hfresh hlooked⟩
  · intro i token row past hlooked start
    exact hlawful.not_suspended_of_lookedUp hfresh hlooked
  · intro i now row past hwrote start
    exact hlawful.not_suspended_of_stored hfresh hwrote

/-! ## A suspension that finds only expired tokens -/

def Event.isStatusUpdate : Event → Bool
  | .wrote _ _ (.updateStatus _ _ _) => true
  | _ => false

/-- After an update of a status there is only the audit log, and a read by a
request that has verified nothing. -/
def startsAfresh (event : Event) (past : List Event) : Bool :=
  !past.any Event.isStatusUpdate ||
    match event with
    | .wrote _ _ (.insertAuditLog _) => true
    | .userRead i _ => past.all fun other =>
        match other with
        | .verified j _ _ => j ≠ i
        | _ => true
    | _ => false

theorem Suspension.any_isStatusUpdate (h : Suspension u start) :
    start.any Event.isStatusUpdate = true := by
  obtain ⟨event, past, status, rfl, ⟨⟨i, now, at_, rfl⟩, -⟩, -⟩ := h
  rfl

theorem nothingCarriedOver_of_startsAfresh
    (hafresh : Lawful (fun event past => startsAfresh event past = true)
      history) :
    NothingCarriedOver app history := by
  intro u start event past hevent hsuspended hcarries
  have hstarts := hafresh event past hevent
  have hupdate : past.any Event.isStatusUpdate = true := by
    obtain ⟨update, hmem, hupdate⟩ :=
      List.any_eq_true.mp hsuspended.suspension.any_isStatusUpdate
    exact List.any_eq_true.mpr ⟨update, hsuspended.older.subset hmem, hupdate⟩
  simp only [startsAfresh, hupdate, Bool.not_true, Bool.false_or] at hstarts
  split at hstarts
  · exact hcarries
  · next i row =>
      obtain ⟨-, at_, token, hverified, -⟩ := hcarries
      have hnew := List.all_eq_true.mp hstarts _
        (hsuspended.older.subset hverified)
      simp at hnew
  · contradiction

/-- The admin logs in when the first token of user 2 has expired, bans user 2,
and neither that token nor the password lets user 2 in. -/
def timelyBanMoves : List (Move Request Draw Surroundings) :=
  alone 0 (Request.seedAdmin "+201" "secret") 6 ++
    alone 1 (Request.seedAdmin "+202" "secret") 6 ++
    alone 2 (Request.login ⟨"+202", "secret"⟩) 4 ++
    Move.environment (Surroundings.timePasses 900000000) ::
    alone 3 (Request.login ⟨"+201", "secret"⟩) 4 ++
    alone 4 (Request.updateUserStatus
      (accessTokenFor (sampleDeployment .console) 1 "+201" true 0 900) 2
      .banned) 5 ++
    alone 5 (Request.authenticate
      (accessTokenFor (sampleDeployment .console) 2 "+202" true 0 0)) 1 ++
    alone 6 (Request.login ⟨"+202", "secret"⟩) 1

theorem moderation_of_timelyBan :
    ∃ pool, Reachable (sampleDeployment .console) pool ∧
      pool.answers 4 (.updateUserStatus
        (accessTokenFor (sampleDeployment .console) 1 "+201" true 0 900) 2
        .banned) = true ∧
      ModerationHolds (sampleDeployment .console) pool := by
  obtain ⟨pool, hreach, hcheck⟩ := exists_reachable_of_run
    (show ((backend (sampleDeployment .console)).run timelyBanMoves
      (Pool.start 0)).any (fun pool =>
        pool.answers 4 (.updateUserStatus
          (accessTokenFor (sampleDeployment .console) 1 "+201" true 0 900) 2
          .banned) &&
        decide (Lawful (fun event past => startsAfresh event past = true)
          pool.state.history)) = true by decide +kernel)
  rw [Bool.and_eq_true, decide_eq_true_eq] at hcheck
  exact ⟨pool, hreach, hcheck.1, moderation_of_nothingCarriedOver hreach
    (nothingCarriedOver_of_startsAfresh hcheck.2)⟩

/-! ## A ban that finds a live token -/

/-- User 2 is banned while its access token lives, and uses the token. -/
def lateBanMoves : List (Move Request Draw Surroundings) :=
  alone 0 (Request.seedAdmin "+201" "secret") 6 ++
    alone 1 (Request.seedAdmin "+202" "secret") 6 ++
    alone 2 (Request.login ⟨"+202", "secret"⟩) 4 ++
    alone 3 (Request.login ⟨"+201", "secret"⟩) 4 ++
    alone 4 (Request.updateUserStatus
      (accessTokenFor (sampleDeployment .console) 1 "+201" true 0 0) 2
      .banned) 5 ++
    alone 5 (Request.authenticate
      (accessTokenFor (sampleDeployment .console) 2 "+202" true 0 0)) 2

/-- The newest events are a ban, its audit log, and a lookup that lets the
banned user in. -/
def letsBannedIn : List Event → Bool
  | .userRead i row :: .verified j _ token ::
      .wrote _ _ (.insertAuditLog _) ::
      .wrote _ _ (.updateStatus u .banned _) :: past =>
      i = j && token.secret = "access-secret" && row.id = token.sub &&
        row.deletedAt = none && row.tokenVersion = token.tokenVersion &&
        u = token.sub && ((stored past).liveUserById u).isSome
  | _ => false

theorem not_moderationHolds_of_letsBannedIn
    (hlets : letsBannedIn pool.state.history = true) :
    ¬ ModerationHolds (sampleDeployment .console) pool := by
  intro hholds
  unfold letsBannedIn at hlets
  split at hlets
  · next i row j at_ token k t audit l t' u now past hhistory =>
      simp only [Bool.and_eq_true, decide_eq_true_eq] at hlets
      obtain ⟨⟨⟨⟨⟨⟨rfl, hsecret⟩, hid⟩, hlive⟩, hversion⟩, rfl⟩, hhit⟩ := hlets
      have hlooked : LookedUp i "access-secret" token row _
          pool.state.history :=
        { read := by rw [hhistory]; exact happened_self
          verified := ⟨at_, _, happened_self⟩
          signed := hsecret
          user := hid
          live := hlive
          version := hversion }
      refine hholds.lookups i token row _ hlooked
        (.wrote l t' (.updateStatus token.sub .banned now) :: past) ?_
      refine ⟨⟨_, past, .banned, rfl, ⟨⟨l, t', now, rfl⟩, hhit⟩, nofun⟩,
        (List.suffix_cons _ _).trans (List.suffix_cons _ _), ?_⟩
      rintro event rest hevent hstart ⟨⟨i, now, at_, rfl⟩, -⟩
      rcases happened_cons.mp hevent with ⟨heq, -⟩ | hevent
      · cases heq
      rcases happened_cons.mp hevent with ⟨heq, -⟩ | hevent
      · cases heq
      · have hlength := (List.IsSuffix.trans hevent hstart).length_le
        rw [List.length_cons] at hlength
        omega
  · contradiction

theorem not_always_moderationHolds :
    ¬ ∀ (app : Deployment) (pool : Pool Request Draw World HttpError Response),
      Reachable app pool → ModerationHolds app pool := by
  intro hholds
  obtain ⟨pool, hreach, hlets⟩ := exists_reachable_of_run
    (show ((backend (sampleDeployment .console)).run lateBanMoves
      (Pool.start 0)).any (fun pool =>
        letsBannedIn pool.state.history) = true by decide +kernel)
  exact not_moderationHolds_of_letsBannedIn hlets (hholds _ pool hreach)

end MarketPlace
