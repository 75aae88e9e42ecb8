import MarketPlace.OwnStatements
import MarketPlace.RedisEntries

/-!
# Looking up a transaction of Akedly

A code that was sent through Akedly is checked against the transaction that was
stored for the phone and purpose.  The transaction is stored in Redis alone.
While Redis answers, and no other request for the pair stores or clears a
transaction, a lookup finds the one that was sent last, within its lifetime.
-/

namespace MarketPlace

open Interleaving

variable {app : Deployment} {i j : ℕ} {phone code : String}
  {purpose : OtpPurpose} {entry : Option RedisEntry} {now : ℕ}
  {front back moves : List (Move Request Draw Surroundings)}
  {pool later next : Pool Request Draw World HttpError Response}
  {request : Request} {body : Handler Response}
  {acts : List (Acted Draw World)}

/-! ## Runs without other requests for the pair -/

/-- The move is an action of a request for the phone and purpose. -/
def concernsPair (phone : String) (purpose : OtpPurpose)
    (pool : Pool Request Draw World HttpError Response) :
    Move Request Draw Surroundings → Bool
  | .advance k _ => (pool.threads[k]?).any fun thread =>
      thread.request.concerns phone purpose
  | _ => false

/-- In this run no request for the phone and purpose stores or clears a
transaction. -/
def pairUndisturbed (app : Deployment) (phone : String) (purpose : OtpPurpose) :
    List (Move Request Draw Surroundings) →
      Pool Request Draw World HttpError Response → Bool
  | [], _ => true
  | move :: rest, pool =>
      match (backend app).perform move pool with
      | none => true
      | some next =>
          (!concernsPair phone purpose pool move ||
            next.state.held (otpTransactionKey phone purpose) =
              pool.state.held (otpTransactionKey phone purpose)) &&
            pairUndisturbed app phone purpose rest next

/-- What a request for another phone or purpose has left to do keeps the
pair's transaction. -/
theorem keepsPair_of_thread
    (hrun : (backend app).run moves (Pool.start now) = some pool)
    (hthread : pool.threads[i]? = some ⟨request, body⟩)
    (hother : request.concerns phone purpose = false) :
    KeepsPair phone purpose entry body :=
  Program.Keeps.takes (Request.keepsPair hother)
    (System.takes_of_submitted hrun (Nat.zero_le i) hthread)

theorem held_of_perform {move : Move Request Draw Surroundings}
    (hrun : (backend app).run moves (Pool.start now) = some pool)
    (hperform : (backend app).perform move pool = some next)
    (hother : concernsPair phone purpose pool move = false) :
    next.state.held (otpTransactionKey phone purpose) =
      pool.state.held (otpTransactionKey phone purpose) := by
  rcases System.perform_cases hperform with
    ⟨request, rfl, rfl⟩ | ⟨k, d, thread, state, rest, rfl, hthread, hadvance, rfl⟩ |
      ⟨event, rfl, rfl⟩
  · rfl
  · rw [concernsPair, hthread, Option.any_some] at hother
    exact (Program.Keeps.advance (keepsPair_of_thread hrun hthread hother)
      hadvance).1 rfl
  · exact World.held_surroundings

theorem held_of_pairUndisturbed
    (hfront : (backend app).run front (Pool.start now) = some pool)
    (hback : (backend app).run back pool = some later)
    (hundisturbed : pairUndisturbed app phone purpose back pool = true) :
    later.state.held (otpTransactionKey phone purpose) =
      pool.state.held (otpTransactionKey phone purpose) := by
  induction back generalizing front pool with
  | nil =>
      simp only [System.run, Option.some.injEq] at hback
      rw [hback]
  | cons move rest ih =>
      simp only [System.run] at hback
      cases hperform : (backend app).perform move pool with
      | none => simp [hperform] at hback
      | some middle =>
          rw [hperform] at hback
          simp only [pairUndisturbed, hperform, Bool.and_eq_true,
            Bool.or_eq_true, Bool.not_eq_true', decide_eq_true_eq]
            at hundisturbed
          have hstep : middle.state.held (otpTransactionKey phone purpose) =
              pool.state.held (otpTransactionKey phone purpose) :=
            hundisturbed.1.elim (held_of_perform hfront hperform) id
          have hmiddle : (backend app).run (front ++ [move]) (Pool.start now) =
              some middle := by
            rw [System.run_append, hfront]
            simp [System.run, hperform]
          rw [ih hmiddle hback hundisturbed.2, hstep]

/-! ## The lookup -/

/-- The next action asks Akedly whether this code is the transaction's. -/
def AsksAkedly (transactionReqID code : String) (body : Handler Response) :
    Prop :=
  ∃ finish, body = akedlyVerify transactionReqID code >>= finish

theorem asksAkedly_unique {transactionReqID other : String}
    (h : AsksAkedly transactionReqID code body)
    (h' : AsksAkedly other code body) : transactionReqID = other := by
  obtain ⟨finish, rfl⟩ := h
  obtain ⟨finish', hsame⟩ := h'
  by_contra hne
  -- Akedly knows the one transaction and not the other
  let known : World :=
    { World.initial 0 with akedly := [⟨transactionReqID, "", code⟩] }
  have hadvance : ∀ {id : String} {rest : CheckVerificationResult → Handler Response},
      ((akedlyVerify id code >>= rest).advance 0 sampleDraw known).map Prod.fst =
        some (if transactionReqID = id then
          known.record (.akedlyVerified 0 id code) else known) := by
    intro id rest
    have hverifies : known.akedlyVerifies id code = decide (transactionReqID = id) := by
      simp [World.akedlyVerifies, known]
    by_cases hid : transactionReqID = id
    · simp [akedlyVerify, attempt, Program.advance, sampleDraw, hverifies, hid]
    · simp [akedlyVerify, attempt, Program.advance, sampleDraw, hverifies, hid]
  have hstates := congrArg
    (fun program => (program.advance 0 sampleDraw known).map Prod.fst) hsame
  simp only [hadvance, if_true, if_neg hne, Option.some.injEq] at hstates
  have hhistory := congrArg (fun w => w.history.length) hstates
  simp [World.record] at hhistory

/-- The request checks this code for the phone and purpose, and names no
transaction itself. -/
def Request.looksUp (phone : String) (purpose : OtpPurpose) (code : String) :
    Request → Prop
  | .verifyRegistrationOtp dto =>
      dto = ⟨phone, code, none⟩ ∧ purpose = .registration
  | .resetPassword dto =>
      dto = ⟨phone, code, none, dto.newPassword, dto.newPassword⟩ ∧
        purpose = .passwordReset
  | _ => False

/-- With its next action request `i` looks up the transaction and comes to ask
Akedly about this one and no other. -/
def FindsTransaction (app : Deployment) (i : ℕ) (d : Draw)
    (pool : Pool Request Draw World HttpError Response) (request : Request)
    (code transactionReqID : String) : Prop :=
  ∃ next body, (backend app).perform (.advance i d) pool = some next ∧
    next.threads[i]? = some ⟨request, body⟩ ∧
    ∀ other, AsksAkedly other code body ↔ other = transactionReqID

/-- The request gets the transaction of its pair and checks the code with it. -/
theorem Request.handler_of_looksUp (hlooks : request.looksUp phone purpose code) :
    ∃ finish, request.handler app =
      getOtpTransactionReqId app phone purpose >>= fun transactionReqID =>
        checkVerification app ⟨phone, code, purpose, transactionReqID⟩ >>=
          finish := by
  cases request with
  | verifyRegistrationOtp dto =>
      obtain ⟨hdto, rfl⟩ := hlooks
      refine ⟨fun result =>
        withTransaction (completeRegistration app dto.phone result), ?_⟩
      rw [hdto]
      rfl
  | resetPassword dto =>
      obtain ⟨hdto, rfl⟩ := hlooks
      refine ⟨fun result => withTransaction (completeReset app dto result), ?_⟩
      rw [hdto]
      simp only [handler, MarketPlace.resetPassword, ne_eq, not_true_eq_false,
        if_false]
      rfl
  | _ => exact hlooks.elim

theorem advance_getOtpTransactionReqId {d : Draw} {w : World}
    {next : Option String → Handler Response} (henabled : app.redisEnabled = true)
    (hanswers : d.redisFails = false) :
    (getOtpTransactionReqId app phone purpose >>= next).advance i d w =
      some (w, next (w.redisGet (otpTransactionKey phone purpose))) := by
  simp [getOtpTransactionReqId, redisGet, redisCommand, henabled, attempt,
    Program.recover, Program.advance, hanswers]

/-- Where Redis holds a transaction for the pair that has not expired, a lookup
that Redis answers finds it. -/
theorem findsTransaction_of_held {d : Draw} {transactionReqID : String}
    {expiresAt : ℕ} (hprovider : app.config.otpProvider = .akedly)
    (henabled : app.redisEnabled = true) (hanswers : d.redisFails = false)
    (hlooks : request.looksUp phone purpose code)
    (hthread : pool.threads[i]? = some ⟨request, request.handler app⟩)
    (hheld : pool.state.held (otpTransactionKey phone purpose) =
      some ⟨otpTransactionKey phone purpose, transactionReqID, expiresAt⟩)
    (hlive : pool.state.now < expiresAt) (hnonempty : transactionReqID ≠ "") :
    FindsTransaction app i d pool request code transactionReqID := by
  obtain ⟨finish, hhandler⟩ := @Request.handler_of_looksUp app _ _ _ _ hlooks
  have hfound : pool.state.redisGet (otpTransactionKey phone purpose) =
      some transactionReqID := World.redisGet_of_held hheld hlive
  have hchecks : checkVerification app
      ⟨phone, code, purpose, some transactionReqID⟩ =
        akedlyVerify transactionReqID code := by
    simp [checkVerification, hprovider, akedlyCheckVerification, hnonempty]
  have hadvance : (request.handler app).advance i d pool.state =
      some (pool.state, akedlyVerify transactionReqID code >>= finish) := by
    rw [hhandler, advance_getOtpTransactionReqId henabled hanswers, hfound,
      hchecks]
  refine ⟨⟨pool.state, pool.threads.set i ⟨request,
      akedlyVerify transactionReqID code >>= finish⟩⟩,
    akedlyVerify transactionReqID code >>= finish, ?_,
    List.getElem?_set_self (List.getElem?_eq_some_iff.mp hthread).1,
    fun other => ⟨fun hother => ?_, fun hother => ⟨finish, hother ▸ rfl⟩⟩⟩
  · simp only [System.perform, hthread, hadvance]
  · exact asksAkedly_unique hother ⟨finish, rfl⟩

/-! ## The actions of a send -/

theorem takes_tryRedisSet {key value : String} {ttlSeconds : ℕ} {result : Unit}
    (henabled : app.redisEnabled = true)
    (h : (tryRedisSet app (redisSet app key value ttlSeconds)).Takes i acts
      (.done result)) :
    ∃ a, acts = [a] ∧ a.after.history = a.before.history ∧
      (a.draw.redisFails = false →
        a.after = a.before.redisSet key value ttlSeconds) := by
  simp only [tryRedisSet, redisSet, redisCommand, henabled, if_true] at h
  obtain ⟨a, rest, outcome, rfl, haction, hrest⟩ := Program.takes_atomic rfl h
  have hrest' : rest = [] := by
    cases outcome with
    | ok value => exact (Program.takes_done.mp hrest).1
    | error error => exact (Program.takes_done.mp hrest).1
  refine ⟨a, by rw [hrest'], ?_, fun hanswers => ?_⟩
  · split at haction
    · obtain ⟨-, hafter⟩ := Prod.mk.inj (Option.some.inj haction)
      rw [hafter]
    · obtain ⟨-, hafter⟩ := Prod.mk.inj (Option.some.inj haction)
      rw [← hafter]
      rfl
  · rw [hanswers, if_neg Bool.false_ne_true] at haction
    exact (Prod.mk.inj (Option.some.inj haction)).2.symm

theorem takes_akedlySend {payload : StartVerificationPayload}
    {result : StartVerificationResult}
    (h : (akedlySend payload).Takes i acts (.done result)) :
    ∃ a, acts = [a] ∧ a.draw.transactionReqID ≠ "" ∧
      result = ⟨none, some a.draw.transactionReqID⟩ ∧
      a.after.history = .akedlySent i payload.phone payload.purpose
        a.draw.transactionReqID :: a.before.history := by
  obtain ⟨a, rfl, haction⟩ := takes_attempt h
  refine ⟨a, rfl, ?_⟩
  split at haction
  · cases (Prod.mk.inj (Option.some.inj haction)).1
  · cases (Prod.mk.inj (Option.some.inj haction)).1
  split at haction
  · cases (Prod.mk.inj (Option.some.inj haction)).1
  next hnonempty =>
  split at haction
  · contradiction
  · obtain ⟨hresult, hafter⟩ := Prod.mk.inj (Option.some.inj haction)
    refine ⟨hnonempty, (Except.ok.inj hresult).symm, ?_⟩
    rw [← hafter]
    rfl

/-- The actions of a send that reports that the code was sent: the check, the
call of Akedly, and the SET of the transaction it answered with. -/
structure SendActions (app : Deployment) (j : ℕ) (dto : AkedlySendOtpDto)
    (checked sent saved : Acted Draw World) : Prop where
  checks : checked.after = checked.before
  sends : sent.after.history = .akedlySent j dto.phoneNumber dto.purpose
    sent.draw.transactionReqID :: sent.before.history
  named : sent.draw.transactionReqID ≠ ""
  saves : saved.after.history = saved.before.history
  stores : saved.draw.redisFails = false →
    saved.after = saved.before.redisSet
      (otpTransactionKey dto.phoneNumber dto.purpose)
      sent.draw.transactionReqID (app.config.otpTtlMinutes * 60)

theorem takes_startAkedlyVerification {dto : AkedlySendOtpDto}
    {response : Response} (hprovider : app.config.otpProvider = .akedly)
    (henabled : app.redisEnabled = true)
    (h : (startAkedlyVerification app dto).Takes j acts (.done response)) :
    ∃ sent saved, acts = [sent, saved] ∧
      ∀ checked, checked.after = checked.before →
        SendActions app j dto checked sent saved := by
  obtain ⟨_, _, result, rfl, hstart, hrest⟩ := Program.takes_bind h
  have hsend : startVerification app
      ⟨dto.phoneNumber, dto.purpose, none, some dto.powSolution⟩ =
        akedlySend ⟨dto.phoneNumber, dto.purpose, none, some dto.powSolution⟩ := by
    simp [startVerification, hprovider, akedlyStartVerification]
  rw [hsend] at hstart
  obtain ⟨sent, rfl, hnamed, rfl, hhistory⟩ := takes_akedlySend hstart
  obtain ⟨_, _, _, rfl, hremember, hdone⟩ := Program.takes_bind hrest
  obtain ⟨rfl, -⟩ := Program.takes_done.mp hdone
  simp only [rememberTransaction, if_neg hnamed, saveOtpTransactionReqId]
    at hremember
  obtain ⟨saved, rfl, hsaves, hstores⟩ := takes_tryRedisSet henabled hremember
  exact ⟨sent, saved, rfl, fun checked hchecks =>
    ⟨hchecks, hhistory, hnamed, hsaves, hstores⟩⟩

theorem takes_sendAkedlyOtp {dto : AkedlySendOtpDto} {otp : Option String}
    (henabled : app.redisEnabled = true)
    (h : (sendAkedlyOtp app dto).Takes j acts (.done (.otpSent otp))) :
    app.config.otpProvider = .akedly ∧ ∃ checked sent saved,
      acts = [checked, sent, saved] ∧
        SendActions app j dto checked sent saved := by
  unfold sendAkedlyOtp at h
  split at h
  · exact absurd h Program.not_takes_failed
  next hprovider =>
  rw [ne_eq, not_not] at hprovider
  refine ⟨hprovider, ?_⟩
  split at h
  · obtain ⟨_, _, pending, rfl, hpending, hrest⟩ := Program.takes_bind h
    obtain ⟨checked, rfl, haction⟩ := takes_statement hpending
    have hchecks := (Prod.mk.inj (Option.some.inj haction)).2.symm
    split at hrest
    · exact absurd hrest Program.not_takes_failed
    · obtain ⟨sent, saved, rfl, hactions⟩ :=
        takes_startAkedlyVerification hprovider henabled hrest
      exact ⟨checked, sent, saved, rfl, hactions checked hchecks⟩
  · obtain ⟨_, _, userQuery, rfl, hquery, hrest⟩ := Program.takes_bind h
    obtain ⟨checked, rfl, -, hchecks⟩ := takes_select hquery
    split at hrest
    · obtain ⟨-, hmessage⟩ := Program.takes_done.mp hrest
      cases Program.done.inj hmessage
    · obtain ⟨sent, saved, rfl, hactions⟩ :=
        takes_startAkedlyVerification hprovider henabled hrest
      exact ⟨checked, sent, saved, rfl, hactions checked hchecks⟩

/-- A sending is recorded by the request that sends. -/
theorem sent_of_perform {transactionReqID : String}
    {move : Move Request Draw Surroundings} (hreach : Reachable app pool)
    (hperform : (backend app).perform move pool = some next)
    (hother : ∀ d, move ≠ .advance j d)
    (hsent : .akedlySent j phone purpose transactionReqID ∈ next.state.history) :
    .akedlySent j phone purpose transactionReqID ∈ pool.state.history := by
  rcases System.perform_cases hperform with
    ⟨request, rfl, rfl⟩ | ⟨k, d, thread, state, rest, rfl, hthread, hadvance, rfl⟩ |
      ⟨event, rfl, rfl⟩
  · exact hsent
  · have haction : Action app anyWrite k pool.state state :=
      ((hreach.sound.meets k thread hthread).advance hreach.traced hadvance).1
    rcases haction.actor hsent with hbefore | hown
    · exact hbefore
    · exact absurd (Option.some.inj hown ▸ rfl) (hother d)
  · exact (World.surroundings_actor hsent).resolve_right (by simp [Event.actor])

/-- The request whose sending for the pair is the newest one, with the
transaction that Akedly answered with. -/
def newestSend (phone : String) (purpose : OtpPurpose) (history : List Event) :
    Option (ℕ × String) :=
  history.findSome? fun event =>
    match event with
    | .akedlySent j phone' purpose' transactionReqID =>
        if phone' = phone ∧ purpose' = purpose then some (j, transactionReqID)
        else none
    | _ => none

theorem sent_of_newestSend {history : List Event} {transactionReqID : String}
    (hnewest : newestSend phone purpose history = some (j, transactionReqID)) :
    .akedlySent j phone purpose transactionReqID ∈ history := by
  obtain ⟨event, hmem, hevent⟩ := List.exists_of_findSome?_eq_some hnewest
  split at hevent
  · next k phone' purpose' other =>
      obtain ⟨⟨rfl, rfl⟩, hsome⟩ := Option.ite_none_right_eq_some.mp hevent
      obtain ⟨rfl, rfl⟩ := Prod.mk.inj (Option.some.inj hsome)
      exact hmem
  · contradiction

section Sends

variable {d d' : Draw} {dto : AkedlySendOtpDto} {otp : Option String}
  {before after : Pool Request Draw World HttpError Response}
  {transactionReqID : String}

/-- With the action that completes a send, the transaction is stored. -/
theorem actionsOf_send (henabled : app.redisEnabled = true)
    (hfront : (backend app).run front (Pool.start now) = some before)
    (hanswers : (backend app).perform (.advance j d) before = some after)
    (hsent : after.threads[j]? = some ⟨.sendAkedlyOtp dto, .done (.otpSent otp)⟩) :
    app.config.otpProvider = .akedly ∧ ∃ checked sent,
      (backend app).actionsOf j (front ++ [.advance j d]) (Pool.start now) =
        [checked, sent, ⟨d, before.state, after.state⟩] ∧
      SendActions app j dto checked sent ⟨d, before.state, after.state⟩ := by
  have hrun : (backend app).run (front ++ [.advance j d]) (Pool.start now) =
      some after := by
    rw [System.run_append, hfront]
    simp [System.run, hanswers]
  obtain ⟨hprovider, checked, sent, saved, hacts, hactions⟩ :=
    takes_sendAkedlyOtp henabled
      (System.takes_of_submitted hrun (Nat.zero_le j) hsent)
  have hlast : saved = ⟨d, before.state, after.state⟩ := by
    rw [System.actionsOf_append hfront] at hacts
    have hends := congrArg List.getLast? hacts
    simp only [System.actionsOf, hanswers, Move.acted, if_true,
      Option.toList_some, List.append_nil, List.getLast?_append,
      List.getLast?_singleton, Option.some_or, List.getLast?_cons_cons,
      Option.some.injEq] at hends
    exact hends.symm
  subst hlast
  exact ⟨hprovider, checked, sent, hacts, hactions⟩

/-- A completed send has recorded one transaction, that of its call. -/
theorem transaction_of_send {checked sent saved : Acted Draw World}
    (hrun : (backend app).run moves (Pool.start now) = some pool)
    (hacts : (backend app).actionsOf j moves (Pool.start now) =
      [checked, sent, saved])
    (hactions : SendActions app j dto checked sent saved)
    (hrecorded : .akedlySent j dto.phoneNumber dto.purpose transactionReqID ∈
      pool.state.history) :
    transactionReqID = sent.draw.transactionReqID := by
  obtain ⟨a, hmem, hbefore, hafter⟩ := System.exists_acted_of_mark (I := Reachable app)
    (fun w => .akedlySent j dto.phoneNumber dto.purpose transactionReqID ∈
      w.history)
    (fun hreach hperform => hreach.perform hperform)
    (fun hreach hperform hother => sent_of_perform hreach hperform hother)
    (reachable_start app now) hrun (by simp [Pool.start, World.initial]) hrecorded
  rw [hacts] at hmem
  simp only [List.mem_cons, List.not_mem_nil, or_false] at hmem
  rcases hmem with rfl | rfl | rfl
  · rw [hactions.checks] at hafter
    exact absurd hafter hbefore
  · rw [hactions.sends] at hafter
    rcases List.mem_cons.mp hafter with hown | hold
    · exact (Event.akedlySent.inj hown).2.2.2
    · exact absurd hold hbefore
  · rw [hactions.saves] at hafter
    exact absurd hafter hbefore

/-- In every run: a send reports that the code was sent, its SET and the GET of
a later lookup are answered by Redis, no other request for the pair stores or
clears a transaction in between, and the lifetime has not passed.  Then the
lookup finds the transaction of this send, if it is the newest one. -/
theorem lookup_finds_newest_send
    (hfront : (backend app).run front (Pool.start now) = some before)
    (hreports : (backend app).perform (.advance j d) before = some after)
    (hsent : after.threads[j]? = some ⟨.sendAkedlyOtp dto, .done (.otpSent otp)⟩)
    (hback : (backend app).run back after = some pool)
    (hnewest : newestSend dto.phoneNumber dto.purpose pool.state.history =
      some (j, transactionReqID))
    (hlifetime : pool.state.now <
      before.state.now + microseconds (app.config.otpTtlMinutes * 60))
    (hlooks : request.looksUp dto.phoneNumber dto.purpose code)
    (hthread : pool.threads[i]? = some ⟨request, request.handler app⟩)
    (henabled : app.redisEnabled = true) (hset : d.redisFails = false)
    (hget : d'.redisFails = false)
    (hundisturbed :
      pairUndisturbed app dto.phoneNumber dto.purpose back after = true) :
    FindsTransaction app i d' pool request code transactionReqID := by
  obtain ⟨hprovider, checked, sent, hacts, hactions⟩ :=
    actionsOf_send henabled hfront hreports hsent
  have hafter : (backend app).run (front ++ [.advance j d]) (Pool.start now) =
      some after := by
    rw [System.run_append, hfront]
    simp [System.run, hreports]
  have hrun : (backend app).run (front ++ [.advance j d] ++ back)
      (Pool.start now) = some pool := by
    rw [System.run_append, hafter]
    exact hback
  -- the send is done, so it has no actions after the SET
  have hall : (backend app).actionsOf j (front ++ [.advance j d] ++ back)
      (Pool.start now) = [checked, sent, ⟨d, before.state, after.state⟩] := by
    obtain ⟨_, -, htakes⟩ := System.takes_of_run hback hsent
    rw [System.actionsOf_append hafter, hacts, (Program.takes_done.mp htakes).1,
      List.append_nil]
  have htransaction := transaction_of_send hrun hall hactions
    (sent_of_newestSend hnewest)
  have hheld : pool.state.held (otpTransactionKey dto.phoneNumber dto.purpose) =
      some ⟨otpTransactionKey dto.phoneNumber dto.purpose, transactionReqID,
        before.state.now + microseconds (app.config.otpTtlMinutes * 60)⟩ := by
    rw [held_of_pairUndisturbed hafter hback hundisturbed, htransaction]
    rw [show after.state = _ from hactions.stores hset]
    exact World.held_redisSet_self
  exact findsTransaction_of_held hprovider henabled hget hlooks hthread hheld
    hlifetime (htransaction ▸ hactions.named)

end Sends

/-! ## A registration with and without Redis -/

def withRedis (app : Deployment) : Deployment :=
  { app with config := { app.config with redisUrl := some "redis://cache" } }

def sampleSend : AkedlySendOtpDto := ⟨"+201", .registration, ⟨"", ""⟩⟩

def sampleVerify : Request := .verifyRegistrationOtp ⟨"+201", "111111", none⟩

/-- A registration is asked for, and a code sent for it up to the send's last
action. -/
def sendsMoves (count : ℕ) : List (Move Request Draw Surroundings) :=
  alone 0 (.requestRegistrationOtp ⟨"Aya", "+201", "secret"⟩) 3 ++
    alone 1 (.sendAkedlyOtp sampleSend) count

/-- Between these pools the send reports that the code was sent, and its
transaction is the newest one. -/
def reportsSent (before after : Pool Request Draw World HttpError Response) :
    Bool :=
  after.answer 1 = some (.sendAkedlyOtp sampleSend, .otpSent none) &&
    newestSend "+201" .registration after.state.history =
      some (1, "transaction") &&
    after.state.now < before.state.now + microseconds (10 * 60)

theorem exists_reported_send {count : ℕ}
    (hrun : ((backend app).run (sendsMoves count) (Pool.start 0)).any
      (fun before => ((backend app).perform (.advance 1 sampleDraw) before).any
        (reportsSent before)) = true) :
    ∃ before after, (backend app).run (sendsMoves count) (Pool.start 0) =
        some before ∧
      (backend app).perform (.advance 1 sampleDraw) before = some after ∧
      after.threads[1]? =
        some ⟨.sendAkedlyOtp sampleSend, .done (.otpSent none)⟩ ∧
      newestSend "+201" .registration after.state.history =
        some (1, "transaction") ∧
      after.state.now < before.state.now + microseconds (10 * 60) := by
  obtain ⟨before, hbefore, hany⟩ := (Option.any_eq_true _ _).mp hrun
  obtain ⟨after, hafter, hreports⟩ := (Option.any_eq_true _ _).mp hany
  simp only [reportsSent, Bool.and_eq_true, decide_eq_true_eq] at hreports
  exact ⟨before, after, hbefore, hafter, Pool.thread_of_answer hreports.1.1,
    hreports.1.2, hreports.2⟩

/-- The pool in which the verification has just been submitted. -/
def verifySubmitted (app : Deployment)
    (after : Pool Request Draw World HttpError Response) :
    Pool Request Draw World HttpError Response :=
  ⟨after.state, after.threads ++ [⟨sampleVerify, sampleVerify.handler app⟩]⟩

theorem lookup_finds_newest_send_registration :
    ∃ after, FindsTransaction (withRedis (sampleDeployment .akedly))
      after.threads.length sampleDraw
      (verifySubmitted (withRedis (sampleDeployment .akedly)) after)
      sampleVerify "111111" "transaction" := by
  obtain ⟨before, after, hbefore, hafter, hsent, hnewest, hlifetime⟩ :=
    @exists_reported_send (withRedis (sampleDeployment .akedly)) 2
      (by decide +kernel)
  have hback : (backend (withRedis (sampleDeployment .akedly))).run
      [.submit sampleVerify] after =
        some (verifySubmitted (withRedis (sampleDeployment .akedly)) after) := rfl
  exact ⟨after, lookup_finds_newest_send hbefore hafter hsent hback hnewest
    hlifetime ⟨rfl, rfl⟩ List.getElem?_concat_length rfl rfl rfl
    (by simp [pairUndisturbed, System.perform, concernsPair])⟩

/-- Without Redis the verification of a code that was sent fails at once. -/
theorem not_lookup_finds_newest_send :
    ¬ ∀ (app : Deployment) (now i j : ℕ) (d d' : Draw) (dto : AkedlySendOtpDto)
      (otp : Option String) (front back : List (Move Request Draw Surroundings))
      (before after pool : Pool Request Draw World HttpError Response)
      (request : Request) (code transactionReqID : String),
      (backend app).run front (Pool.start now) = some before →
      (backend app).perform (.advance j d) before = some after →
      after.threads[j]? =
        some ⟨.sendAkedlyOtp dto, .done (.otpSent otp)⟩ →
      (backend app).run back after = some pool →
      newestSend dto.phoneNumber dto.purpose pool.state.history =
        some (j, transactionReqID) →
      pool.state.now <
        before.state.now + microseconds (app.config.otpTtlMinutes * 60) →
      request.looksUp dto.phoneNumber dto.purpose code →
      pool.threads[i]? = some ⟨request, request.handler app⟩ →
      FindsTransaction app i d' pool request code transactionReqID := by
  intro hclaim
  obtain ⟨before, after, hbefore, hafter, hsent, hnewest, hlifetime⟩ :=
    @exists_reported_send (sampleDeployment .akedly) 1 (by decide +kernel)
  obtain ⟨next, body, hperform, -⟩ := hclaim _ 0 after.threads.length 1 _
    sampleDraw sampleSend none _ [.submit sampleVerify] before after
    (verifySubmitted (sampleDeployment .akedly) after) sampleVerify "111111"
    "transaction" hbefore hafter hsent rfl hnewest hlifetime ⟨rfl, rfl⟩
    List.getElem?_concat_length
  have hthread : (verifySubmitted (sampleDeployment .akedly) after).threads[
      after.threads.length]? =
        some ⟨sampleVerify, sampleVerify.handler (sampleDeployment .akedly)⟩ :=
    List.getElem?_concat_length
  simp only [System.perform, hthread] at hperform
  contradiction

end MarketPlace
