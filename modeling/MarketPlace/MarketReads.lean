import MarketPlace.FreshReads
import MarketPlace.UserTies

/-!
# Reads among blocks, favourites and ratings

Eight requests answer with what one statement selects.  Whatever goes on
meanwhile, such an answer is the one of a single moment after the request came
and before it was answered, and the blocks, favourites and ratings of that
moment are those which the completed requests leave, in their one order.
-/

namespace MarketPlace.Trade

open Interleaving

/-- What a request selects, for the requests that answer with the rows of one
statement; the rank arranges the rows that its ORDER BY leaves tied. -/
def Request.reading (app : Deployment) :
    Request → Option ((ℕ → ℕ) → Database → Option Response)
  | .listMyProducts user dto status => some fun _ db =>
      some (.items (db.listMyProducts app user dto status))
  | .searchProducts dto viewer => some fun _ db =>
      some (.items (db.searchProducts app dto viewer))
  | .getFile _ _ fileId => some fun _ db =>
      (db.files.get fileId).map fun file =>
        .file ⟨file, buildReadUrl app file.objectKey file.mimeType⟩
  | .getMe user => some fun _ db =>
      (db.liveUser user).map fun row => .me (meView app db row)
  | .listFavorites user dto => some fun _ db =>
      some (.items (db.listFavorites user dto))
  | .listConversations user scope limit offset => some fun tieRank db =>
      some (.conversations
        (db.listConversations user scope limit offset tieRank))
  | .getConversationById user conversationId => some fun _ db =>
      ((db.conversations.get conversationId).bind
        (db.conversationView user)).map .conversation
  | .listMessages _ conversationId limit before => some fun tieRank db =>
      some (.messages
        ((db.listMessages conversationId limit before tieRank).map messageView))
  | _ => none

/-- The response is the one that the query has at this moment. -/
def ReadFrom (query : (ℕ → ℕ) → Database → Option Response)
    (response : Response) (m : Market) : Prop :=
  ∃ tieRank, query tieRank m.db = some response

section Statements

variable {β γ : Type} {query : (ℕ → ℕ) → Database → β}
  {next : β → Operation γ} {seen : γ → Market → Prop}

theorem observes_selectOrdered :
    (selectOrdered none query).Observes fun value m =>
      ∃ tieRank, query tieRank m.db = value := by
  intro i d m outcome t haction
  dsimp only at haction
  split at haction
  · obtain ⟨rfl, rfl⟩ := Prod.mk.inj (Option.some.inj haction)
    exact .inl trivial
  · obtain ⟨rfl, rfl⟩ := Prod.mk.inj (Option.some.inj haction)
    exact .inl ⟨d.tieRank, rfl⟩

/-- What follows a statement has its rows to go by. -/
theorem observes_select_bind
    (hnext : ∀ tieRank m,
      (next (query tieRank m.db)).Settled fun value => seen value m) :
    (selectOrdered none query >>= next).Observes seen := by
  refine observes_selectOrdered.bind fun value m hvalue => ?_
  obtain ⟨tieRank, rfl⟩ := hvalue
  exact hnext tieRank m

end Statements

section Handlers

variable {app : Deployment} {request : Request}
  {query : (ℕ → ℕ) → Database → Option Response}

theorem getMe_observes (user : ℕ) :
    (getMe app user).Observes fun view m =>
      (m.db.liveUser user).map (meView app m.db) = some view := by
  refine observes_select_bind fun _ m => ?_
  cases hrow : (m.db.liveUser user).map (meView app m.db) with
  | none => simp [hrow, Program.Settled]
  | some view => simp [hrow, Program.Settled]

theorem getFile_observes (user : ℕ) (isAdmin : Bool) (fileId : ℕ) :
    (getFile app user isAdmin fileId).Observes fun view m =>
      (m.db.files.get fileId).map (fun file =>
        ⟨file, buildReadUrl app file.objectKey file.mimeType⟩) =
        some view := by
  refine observes_select_bind fun _ m => ?_
  cases hrow : m.db.files.get fileId with
  | none => simp [hrow, Program.Settled]
  | some file =>
      by_cases hallowed : isAdmin = false ∧
          toPositiveIntOfNullable (file.uploaderUserId.map BigintText.mk) ≠
            some user
      · simp [hrow, hallowed, Program.Settled]
      · simp [hrow, hallowed, Program.Settled]

theorem getConversationById_observes (user conversationId : ℕ) :
    (getConversationById user conversationId).Observes fun view m =>
      (m.db.conversations.get conversationId).bind
        (m.db.conversationView user) = some view := by
  refine Program.Observes.after fun _ => observes_select_bind fun _ m => ?_
  cases hrow : (m.db.conversations.get conversationId).bind
      (m.db.conversationView user) with
  | none => simp [hrow, Program.Settled]
  | some view => simp [hrow, Program.Settled]

/-- A request that wraps the rows of its statement. -/
theorem observes_wrapped {β : Type} {rows : (ℕ → ℕ) → Database → β}
    {wrap : β → Response} {program : Operation β}
    (h : program.Observes fun value m => ∃ tieRank,
      rows tieRank m.db = value) :
    (program >>= fun value => pure (wrap value)).Observes
      (ReadFrom fun tieRank db => some (wrap (rows tieRank db))) :=
  h.map fun value m hvalue => by
    obtain ⟨tieRank, rfl⟩ := hvalue
    exact ⟨tieRank, rfl⟩

/-- The handler answers with the rows of its statement. -/
theorem Request.handler_observes (hquery : request.reading app = some query) :
    (request.handler app).Observes (ReadFrom query) := by
  cases request with
  | listMyProducts user dto status =>
      obtain rfl := Option.some.inj hquery
      have hread : (Trade.listMyProducts app user dto status).Observes
          fun items m => ∃ _ : ℕ → ℕ,
            m.db.listMyProducts app user dto status = items :=
        Program.Observes.after fun _ => observes_selectOrdered
      exact observes_wrapped hread
  | searchProducts dto viewer =>
      obtain rfl := Option.some.inj hquery
      have hread : (Trade.searchProducts app dto viewer).Observes
          fun items m => ∃ _ : ℕ → ℕ,
            m.db.searchProducts app dto viewer = items :=
        Program.Observes.after fun _ => observes_selectOrdered
      exact observes_wrapped hread
  | getFile user isAdmin fileId =>
      obtain rfl := Option.some.inj hquery
      exact (getFile_observes user isAdmin fileId).map fun view m hview =>
        ⟨id, by simpa using congrArg (Option.map Response.file) hview⟩
  | getMe user =>
      obtain rfl := Option.some.inj hquery
      exact (getMe_observes user).map fun view m hview =>
        ⟨id, by simpa using congrArg (Option.map Response.me) hview⟩
  | listFavorites user dto =>
      obtain rfl := Option.some.inj hquery
      have hread : (Trade.listFavorites user dto).Observes fun items m =>
          ∃ _ : ℕ → ℕ, m.db.listFavorites user dto = items :=
        observes_selectOrdered
      exact observes_wrapped hread
  | listConversations user scope limit offset =>
      obtain rfl := Option.some.inj hquery
      have hread : (Trade.listConversations user scope limit offset).Observes
          fun views m => ∃ tieRank,
            m.db.listConversations user scope limit offset tieRank = views :=
        observes_selectOrdered
      exact observes_wrapped hread
  | getConversationById user conversationId =>
      obtain rfl := Option.some.inj hquery
      exact (getConversationById_observes user conversationId).map
        fun view m hview =>
          ⟨id, congrArg (Option.map Response.conversation) hview⟩
  | listMessages user conversationId limit before =>
      obtain rfl := Option.some.inj hquery
      have hrows : (selectOrdered none
          (Database.listMessages conversationId limit before)).Observes
          fun rows m => ∃ tieRank,
            m.db.listMessages conversationId limit before tieRank = rows :=
        observes_selectOrdered
      have hread : (Trade.listMessages user conversationId limit
          before).Observes (fun views m => ∃ tieRank,
            (m.db.listMessages conversationId limit before tieRank).map
              messageView = views) :=
        Program.Observes.after fun _ => hrows.map fun rows m hrows => by
          obtain ⟨tieRank, rfl⟩ := hrows
          exact ⟨tieRank, rfl⟩
      exact observes_wrapped hread
  | _ => contradiction

end Handlers

section Runs

variable {app : Deployment} {now : ℕ} {request : Request}
  {response : Response} {i : ℕ}
  {query : (ℕ → ℕ) → Database → Option Response}
  {before pool : Pool Request Draw Market Fault Response}

/-- Reads take their place among the writes of blocks, favourites and ratings:
one state between a request and its answer has the answer, and what it holds of
these is what the operations leave that were done by then, among them all that
were done before the request came. -/
theorem reads_linearized
    (hreach : (market app).Reaches (fun _ _ => True) (Pool.opening now) before)
    (hlater : (market app).Reaches (fun _ _ => True) before pool)
    (hquery : request.reading app = some query)
    (hi : before.threads.length ≤ i)
    (hthread : pool.threads[i]? = some ⟨request, .done response⟩) :
    ∃ middle, (market app).Reaches (fun _ _ => True) before middle ∧
      (market app).Reaches (fun _ _ => True) middle pool ∧
      ReadFrom query response middle.state ∧
      LeftBy (tieLog middle.state) middle ∧
      tieLog before.state <+: tieLog middle.state ∧
      tieLog middle.state <+: tieLog pool.state := by
  obtain ⟨middle, hmiddle, hpool, -, hread⟩ :=
    hlater.observed (request.handler_observes hquery) hi hthread
  have hreached := hreach.trans hmiddle
  exact ⟨middle, hmiddle, hpool, hread, leftBy_tieLog hreached,
    tieLog_prefix hreach hmiddle, tieLog_prefix hreached hpool⟩

/-- User 1 has rated user 2. -/
def ratesOnce : List (Move Request Draw Surroundings) :=
  [.environment (.userRegisters "Amina" "+201"),
    .environment (.userRegisters "Basil" "+202"),
    .submit (.rateUser 1 2 5), .advance 0 calmDraw, .advance 0 calmDraw]

/-- User 2 asks for their account, and user 1 rates them anew meanwhile. -/
def ratesAgain : List (Move Request Draw Surroundings) :=
  [.submit (.getMe 2), .submit (.rateUser 1 2 3), .advance 2 calmDraw,
    .advance 2 calmDraw, .advance 1 calmDraw]

/-- Request 1 has told user 2 of this rate. -/
def tellsRate (rate : ℕ) (pool : Pool Request Draw Market Fault Response) :
    Bool :=
  match pool.answer 1 with
  | some (.getMe 2, .me view) => view.rate = rate
  | _ => false

theorem thread_of_tellsRate {rate : ℕ} (h : tellsRate rate pool = true) :
    ∃ view : MeView, view.rate = rate ∧
      pool.threads[1]? = some ⟨.getMe 2, .done (.me view)⟩ := by
  unfold tellsRate at h
  split at h
  case h_1 view hanswer =>
    exact ⟨view, of_decide_eq_true h, Pool.thread_of_answer hanswer⟩
  case h_2 => contradiction

/-- The answer shows the rating that came after the request. -/
theorem reads_linearized_rated :
    ∃ before pool view,
      (market sampleApp).Reaches (fun _ _ => True) (Pool.opening 0) before ∧
      pool.threads[1]? = some ⟨.getMe 2, .done (.me view)⟩ ∧
      view.rate = 300 ∧
      ∃ middle,
        (market sampleApp).Reaches (fun _ _ => True) before middle ∧
        (market sampleApp).Reaches (fun _ _ => True) middle pool ∧
        ReadFrom (fun _ db => (db.liveUser 2).map fun row =>
          .me (meView sampleApp db row)) (.me view) middle.state ∧
        LeftBy (tieLog middle.state) middle ∧
        tieLog before.state <+: tieLog middle.state ∧
        tieLog middle.state <+: tieLog pool.state := by
  obtain ⟨before, hbefore, hcheck⟩ := System.exists_reaches_of_run
    (show ((market sampleApp).run ratesOnce (Pool.opening 0)).any (fun before =>
      before.threads.length = 1 &&
        ((market sampleApp).run ratesAgain before).any (tellsRate 300)) = true
      by decide +kernel)
  simp only [Bool.and_eq_true, decide_eq_true_eq] at hcheck
  have hlength := hcheck.1
  obtain ⟨pool, hpool, hrate⟩ := System.exists_reaches_of_run hcheck.2
  obtain ⟨view, hview, hthread⟩ := thread_of_tellsRate hrate
  exact ⟨before, pool, view, hbefore, hthread, hview,
    reads_linearized hbefore hpool rfl (by omega) hthread⟩

end Runs

end MarketPlace.Trade
