import MarketPlace.ModerationDesk

/-!
# What each request at the desk does

A request writes at most once, and what it audits or fails to audit comes
after its own write.  The tables are what the history leads to.
-/

namespace MarketPlace.Moderation

open EventLog Interleaving Relational

/-! ## Lawful histories -/

/-- What a request has left, the newest first. -/
def own (i : ℕ) (history : List Event) : List Event :=
  history.filter fun event => event.actor = i

def stored (history : List Event) : Tables :=
  replay Event.effect .empty history

/-- The audit entry that follows a write. -/
def Change.entry (now : ℕ) : Change → Option AuditRow
  | .insertReport _ => none
  | .updateReport reportId status admin _ =>
      some ⟨admin, "update_report_status", "report", some reportId,
        [("status", status.text)], now⟩
  | .insertWarning row =>
      some ⟨row.adminId, "create_warning", "user", some row.targetUserId,
        [("message", row.message)], now⟩

def ReportRow.Filed (row : ReportRow) : Prop :=
  row.reporterId ≠ row.reportedUserId ∧ row.status = .open_ ∧
    row.reviewedBy = none ∧ row.reviewedAt = none ∧
    row.updatedAt = row.createdAt

/-- What is known of a write and the tables that it runs on. -/
def Change.Warranted (tables : Tables) : Change → Prop
  | .insertReport row => tables.reports.get row.id = none ∧ row.Filed
  | .updateReport reportId _ _ _ => (tables.reports.get reportId).isSome
  | .insertWarning row => tables.warnings.get row.id = none

/-- The request has written, and has not logged that it failed to audit. -/
def Unlogged (i : ℕ) (change : Change) (history : List Event) : Prop :=
  own i history = [.wrote i change] ∨
    ∃ row, own i history = [.audited i row, .wrote i change]

def Event.Law (event : Event) (past : List Event) : Prop :=
  match event with
  | .wrote i change => own i past = [] ∧ change.Warranted (stored past)
  | .audited i row => ∃ change, own i past = [.wrote i change] ∧
      change.entry row.createdAt = some row
  | .auditFailed i action => ∃ change, Unlogged i change past ∧
      ∃ now row, change.entry now = some row ∧ row.action = action

section Own

variable {i : ℕ} {event : Event} {history : List Event}

@[simp] theorem own_nil : own i [] = [] := rfl

theorem own_cons_self (h : event.actor = i) :
    own i (event :: history) = event :: own i history := by
  simp [own, h]

theorem own_cons_of_ne (h : event.actor ≠ i) :
    own i (event :: history) = own i history := by
  simp [own, h]

theorem mem_own : event ∈ own i history ↔ event ∈ history ∧ event.actor = i := by
  simp [own]

end Own

/-- Every identity value that a row has was given out. -/
structure Desk.Numbered (desk : Desk) : Prop where
  reports : ∀ row ∈ desk.tables.reports.rows, row.id < desk.reportIds
  warnings : ∀ row ∈ desk.tables.warnings.rows, row.id < desk.warningIds

structure Desk.Sound (desk : Desk) : Prop where
  tables : desk.tables = stored desk.history
  lawful : Lawful Event.Law desk.history
  numbered : desk.Numbered

/-- A request leaves the tables as they are, or records one event. -/
inductive Step (i : ℕ) (d d' : Desk) : Prop where
  | rests (htables : d'.tables = d.tables) (hhistory : d'.history = d.history)
      (hnumbered : d.Numbered → d'.Numbered)
  | records (event : Event) (hactor : event.actor = i)
      (hlaw : event.Law d.history) (htables : d'.tables = event.effect d.tables)
      (hhistory : d'.history = event :: d.history)
      (hnumbered : d.Numbered → d'.Numbered)

structure Rely (i : ℕ) (d d' : Desk) : Prop where
  suffix : d.history <:+ d'.history
  own : own i d'.history = own i d.history

theorem Rely.refl (i : ℕ) (d : Desk) : Rely i d d :=
  ⟨List.suffix_rfl, rfl⟩

section Steps

variable {i j : ℕ} {d d' d'' : Desk}

theorem Rely.trans (h : Rely i d d') (h' : Rely i d' d'') : Rely i d d'' :=
  ⟨h.suffix.trans h'.suffix, h'.own.trans h.own⟩

theorem Step.suffix (h : Step i d d') : d.history <:+ d'.history := by
  cases h with
  | rests _ hhistory _ => rw [hhistory]
  | records event _ _ _ hhistory _ =>
      rw [hhistory]
      exact List.suffix_cons event _

theorem Step.rely (hne : i ≠ j) (h : Step i d d') : Rely j d d' := by
  refine ⟨h.suffix, ?_⟩
  cases h with
  | rests _ hhistory _ => rw [hhistory]
  | records event hactor _ _ hhistory _ =>
      rw [hhistory, own_cons_of_ne (hactor ▸ hne)]

theorem Step.sound (h : Step i d d') (hsound : d.Sound) : d'.Sound := by
  cases h with
  | rests htables hhistory hnumbered =>
      refine ⟨?_, ?_, hnumbered hsound.numbered⟩
      · rw [htables, hhistory, hsound.tables]
      · rw [hhistory]
        exact hsound.lawful
  | records event hactor hlaw htables hhistory hnumbered =>
      refine ⟨?_, ?_, hnumbered hsound.numbered⟩
      · rw [htables, hhistory, hsound.tables]
        rfl
      · rw [hhistory]
        exact lawful_cons.mpr ⟨hlaw, hsound.lawful⟩

end Steps

def discipline : Discipline Desk where
  invariant := Desk.Sound
  rely := Rely
  guarantee := Step
  rely_refl := Rely.refl
  rely_trans h h' := h.trans h'
  guarantee_rely hne h := h.rely hne
  guarantee_invariant h hsound := h.sound hsound

/-! ## What requests write -/

/-- The writes that a request asks for. -/
def Request.Writes (request : Request) (change : Change) : Prop :=
  match request, change with
  | .createReport user reportedUserId reason, .insertReport row =>
      row.reporterId = user ∧ row.reportedUserId = reportedUserId ∧
        row.reason = reason
  | .createWarning admin targetUserId message, .insertWarning row =>
      row.adminId = admin ∧ row.targetUserId = targetUserId ∧
        row.message = message
  | .updateReportStatus admin reportId status,
      .updateReport reportId' status' admin' _ =>
      admin' = admin ∧ reportId' = reportId ∧ status' = status
  | _, _ => False

/-- A request makes no write but the one that it asks for. -/
def Request.Rights (request : Request) (i : ℕ) (d d' : Desk) : Prop :=
  ∀ change, d'.history = .wrote i change :: d.history →
    request.Writes change

/-- The response is what a write left of its row. -/
def Response.Shows (tables : Tables) (change : Change) : Response → Prop
  | .created shown => ∃ row, change = .insertReport row ∧
      tables.reports.get row.id = some row ∧ row.created = shown
  | .warning row => change = .insertWarning row ∧
      tables.warnings.get row.id = some row
  | .report row => ∃ reportId status admin now,
      change = .updateReport reportId status admin now ∧
        tables.reports.get reportId = some row
  | _ => False

/-- The request has written, and the response shows what. -/
def Answered (request : Request) (i : ℕ) (response : Response) (d : Desk) :
    Prop :=
  ∃ change past, Happened (.wrote i change) past d.history ∧
    request.Writes change ∧
      response.Shows (stored (.wrote i change :: past)) change

/-- The request has audited its write, or logged that it could not. -/
def Closed (i : ℕ) (d : Desk) : Prop :=
  (∃ row, .audited i row ∈ d.history) ∨
    ∃ action, .auditFailed i action ∈ d.history

def Request.Post (request : Request) (i : ℕ) (response : Response) (d : Desk) :
    Prop :=
  match request with
  | .createReport _ _ _ => Answered request i response d
  | .createWarning _ _ _ | .updateReportStatus _ _ _ =>
      Answered request i response d ∧ Closed i d
  | _ => own i d.history = []

/-- Only a lost connection leaves a failed request's write behind. -/
def Refused (i : ℕ) (fault : Fault) (d : Desk) : Prop :=
  own i d.history = [] ∨ fault = .connectionLost

/-! ## Rules for statements -/

section Rules

variable {request : Request} {i : ℕ} {d t u : Desk} {β : Type}

abbrev Request.discipline (request : Request) : Discipline Desk :=
  Moderation.discipline.within request.Rights

theorem rights_of_history_eq (h : u.history = t.history) :
    request.Rights i t u := by
  intro change hchange
  rw [h] at hchange
  simpa using congrArg List.length hchange

theorem rights_of_not_wrote {event : Event}
    (hhistory : u.history = event :: t.history)
    (hevent : ∀ change, event ≠ .wrote i change) : request.Rights i t u := by
  intro change hchange
  rw [hhistory] at hchange
  exact absurd (List.cons.inj hchange).1 (hevent change)

theorem rights_of_writes {change : Change}
    (hhistory : u.history = .wrote i change :: t.history)
    (hwrites : request.Writes change) : request.Rights i t u := by
  intro other hother
  rw [hhistory] at hother
  obtain rfl := (Event.wrote.inj (List.cons.inj hother).1).2
  exact hwrites

/-- What the execution of a statement does, with a result, an error or a
connection that is lost after it. -/
structure Executes (request : Request) (i : ℕ) (post : β → Desk → Prop)
    (fail : Fault → Desk → Prop) (t : Desk)
    (outcome : Except Fault β × Desk) : Prop where
  step : Step i t outcome.2
  rights : request.Rights i t outcome.2
  ok : ∀ result, outcome.1 = .ok result → post result outcome.2
  error : ∀ fault, outcome.1 = .error fault → fail fault outcome.2
  cut : fail .connectionLost outcome.2

/-- A statement that fails leaves the desk to the others. -/
theorem query_meets {execute : ℕ → Draw → Desk → Except Fault β × Desk}
    {post : β → Desk → Prop} {fail : Fault → Desk → Prop}
    (hpost : ∀ {result t u}, Rely i t u → post result t → post result u)
    (hfail : ∀ {fault t u}, Rely i t u → fail fault t → fail fault u)
    (hfails : ∀ t, Rely i d t → fail .database t)
    (hexecutes : ∀ t draw, Rely i d t → t.Sound →
      Executes request i post fail t (execute i draw t)) :
    (query execute).Meets request.discipline i post fail d := by
  intro t ht hsound draw outcome u haction
  have hdone := hexecutes t draw ht hsound
  dsimp only at haction
  split at haction
  · rw [Option.some.inj haction] at hdone
    refine ⟨⟨hdone.step, hdone.rights⟩, ?_⟩
    cases outcome with
    | ok result => exact fun v hv _ => hpost hv (hdone.ok result rfl)
    | error fault => exact fun v hv _ => hfail hv (hdone.error fault rfl)
  · obtain ⟨rfl, rfl⟩ := Prod.mk.inj (Option.some.inj haction)
    refine ⟨⟨.rests rfl rfl id, rights_of_history_eq rfl⟩, ?_⟩
    exact fun v hv _ => hfail hv (hfails _ ht)
  · obtain ⟨rfl, rfl⟩ := Prod.mk.inj (Option.some.inj haction)
    exact ⟨⟨hdone.step, hdone.rights⟩, fun v hv _ => hfail hv hdone.cut⟩

/-- A request that has left nothing still has not. -/
theorem untouched_later (hrely : Rely i t u) (h : own i t.history = []) :
    own i u.history = [] :=
  hrely.own.trans h

theorem Refused.later {fault : Fault} (hrely : Rely i t u)
    (h : Refused i fault t) : Refused i fault u :=
  h.imp_left (untouched_later hrely)

theorem select_meets {read : Draw → Desk → β} (h : own i d.history = []) :
    (select read).Meets request.discipline i
      (fun _ t => own i t.history = []) (fun fault => Refused i fault) d := by
  refine query_meets untouched_later Refused.later
    (fun t ht => .inl (untouched_later ht h)) fun t draw ht _ => ?_
  have ht' := untouched_later ht h
  exact ⟨.rests rfl rfl id, rights_of_history_eq rfl, fun _ _ => ht',
    fun _ _ => .inl ht', .inl ht'⟩

/-- A statement that changes nothing but the identity values. -/
theorem executes_rests {post : β → Desk → Prop} {fault : Fault}
    (h : own i t.history = []) (htables : u.tables = t.tables)
    (hhistory : u.history = t.history) (hreports : t.reportIds ≤ u.reportIds)
    (hwarnings : t.warningIds ≤ u.warningIds) :
    Executes request i post (fun fault => Refused i fault) t
      (.error fault, u) := by
  have hu : own i u.history = [] := by rw [hhistory, h]
  refine ⟨.rests htables hhistory fun hnumbered => ?_,
    rights_of_history_eq hhistory, by simp, fun _ _ => .inl hu, .inl hu⟩
  constructor
  · intro row hrow
    rw [htables] at hrow
    exact (hnumbered.reports row hrow).trans_le hreports
  · intro row hrow
    rw [htables] at hrow
    exact (hnumbered.warnings row hrow).trans_le hwarnings

theorem Answered.later {response : Response} (hrely : t.history <:+ u.history)
    (h : Answered request i response t) : Answered request i response u := by
  obtain ⟨change, past, hhappened, hrest⟩ := h
  exact ⟨change, past, hhappened.later hrely, hrest⟩

/-- The request has written and done nothing else. -/
def Wrote (request : Request) (i : ℕ) (response : Response) (d : Desk) :
    Prop :=
  (∃ change, own i d.history = [.wrote i change] ∧ request.Writes change) ∧
    Answered request i response d

theorem Wrote.later {response : Response} (hrely : Rely i t u)
    (h : Wrote request i response t) : Wrote request i response u :=
  ⟨h.1.imp fun _ hown => hown.imp_left hrely.own.trans,
    h.2.later hrely.suffix⟩

/-- A statement that writes. -/
theorem executes_wrote {result : β} {post : β → Desk → Prop}
    (response : Response) (change : Change) (hsound : t.Sound) (h : own i t.history = [])
    (hwarranted : change.Warranted t.tables) (hwrites : request.Writes change)
    (htables : u.tables = t.tables) (hhistory : u.history = t.history)
    (hnumbered : t.Numbered → (u.record (.wrote i change)).Numbered)
    (hshows : response.Shows (t.tables.apply change) change)
    (hpost : ∀ {u}, Wrote request i response u → post result u) :
    Executes request i post (fun fault => Refused i fault) t
      (.ok result, u.record (.wrote i change)) := by
  have hlog : (u.record (.wrote i change)).history =
      .wrote i change :: t.history := by
    rw [← hhistory]
    rfl
  have hstored : stored (.wrote i change :: t.history) =
      t.tables.apply change := by
    rw [hsound.tables]
    rfl
  have hlaw : (Event.wrote i change).Law t.history :=
    ⟨h, hsound.tables ▸ hwarranted⟩
  refine ⟨.records (.wrote i change) rfl hlaw ?_ hlog hnumbered,
    rights_of_writes hlog hwrites, ?_, by simp, .inr rfl⟩
  · rw [← htables]
    rfl
  · intro other hother
    obtain rfl := Except.ok.inj hother
    have hown : own i (.wrote i change :: t.history) =
        .wrote i change :: own i t.history := own_cons_self rfl
    refine hpost ⟨⟨change, ?_, hwrites⟩, change, t.history, ?_, hwrites, ?_⟩
    · rw [hlog, hown, h]
    · rw [hlog]
      exact happened_self
    · rw [hstored]
      exact hshows

/-! ### The statements -/

theorem get_eq_none_of_numbered {ρ : Type} {key : ρ → ℕ} {table : Table key}
    {k : ℕ} (h : ∀ row ∈ table.rows, key row < k) : table.get k = none := by
  rw [Table.get_eq_none_iff]
  intro hmem
  obtain ⟨row, hrow, hkey⟩ := List.mem_map.mp hmem
  exact absurd (h row hrow) (by omega)

theorem insertReport_meets {user reportedUserId : ℕ} {reason : String}
    (hwrites : ∀ row : ReportRow, row.reporterId = user →
      row.reportedUserId = reportedUserId → row.reason = reason →
        request.Writes (.insertReport row))
    (h : own i d.history = []) :
    (insertReport user reportedUserId reason).Meets request.discipline i
      (fun row => Wrote request i (.created row.created)) (fun fault => Refused i fault)
      d := by
  refine query_meets Wrote.later Refused.later
    (fun t ht => .inl (untouched_later ht h)) fun t draw ht hsound => ?_
  have ht' := untouched_later ht h
  have hfree : t.tables.reports.get t.reportIds = none :=
    get_eq_none_of_numbered hsound.numbered.reports
  dsimp only
  split
  · exact executes_rests ht' rfl rfl (Nat.le_succ _) le_rfl
  next hne =>
  split
  · exact executes_rests ht' rfl rfl (Nat.le_succ _) le_rfl
  · refine executes_wrote (.created _) (.insertReport _) hsound ht' ⟨hfree, hne, rfl, rfl, rfl, rfl⟩
      (hwrites _ rfl rfl rfl) rfl rfl
      (fun hnumbered => ⟨fun row hrow => ?_, hnumbered.warnings⟩)
      ⟨_, rfl, Table.get_insert_self hfree, rfl⟩ id
    rcases Table.mem_insert hrow with hrow | rfl
    · exact (hnumbered.reports row hrow).trans (Nat.lt_succ_self _)
    · exact Nat.lt_succ_self _

theorem insertWarning_meets {admin targetUserId : ℕ} {message : String}
    (hwrites : ∀ row : WarningRow, row.adminId = admin →
      row.targetUserId = targetUserId → row.message = message →
        request.Writes (.insertWarning row))
    (h : own i d.history = []) :
    (insertWarning admin targetUserId message).Meets request.discipline i
      (fun row => Wrote request i (.warning row)) (fun fault => Refused i fault) d := by
  refine query_meets Wrote.later Refused.later
    (fun t ht => .inl (untouched_later ht h)) fun t draw ht hsound => ?_
  have ht' := untouched_later ht h
  have hfree : t.tables.warnings.get t.warningIds = none :=
    get_eq_none_of_numbered hsound.numbered.warnings
  dsimp only
  split
  · exact executes_rests ht' rfl rfl le_rfl (Nat.le_succ _)
  · refine executes_wrote (.warning _) (.insertWarning _) hsound ht' hfree
      (hwrites _ rfl rfl rfl) rfl rfl
      (fun hnumbered => ⟨hnumbered.reports, fun row hrow => ?_⟩)
      ⟨rfl, Table.get_insert_self hfree⟩ id
    rcases Table.mem_insert hrow with hrow | rfl
    · exact (hnumbered.warnings row hrow).trans (Nat.lt_succ_self _)
    · exact Nat.lt_succ_self _

theorem get_apply_updateReport {tables : Tables} {row : ReportRow}
    {reportId admin now : ℕ} {status : ReportStatus}
    (hrow : tables.reports.get reportId = some row) :
    (tables.apply (.updateReport reportId status admin now)).reports.get
      reportId = some (row.reviewed status admin now) := by
  refine (Table.get_modify _ _ _ (ReportRow.id_reviewed status admin now)
    reportId).trans ?_
  rw [hrow, Option.map_some, if_pos (by simp [Table.key_of_get hrow])]

/-- An update that finds no row has done nothing. -/
theorem updateReport_meets {admin reportId : ℕ} {status : ReportStatus}
    (hwrites : ∀ now,
      request.Writes (.updateReport reportId status admin now))
    (h : own i d.history = []) :
    (updateReport admin reportId status).Meets request.discipline i
      (fun updated t => updated.elim (own i t.history = [])
        fun row => Wrote request i (.report row) t)
      (fun fault => Refused i fault) d := by
  refine query_meets (fun {updated t u} hrely ht => ?_) Refused.later
    (fun t ht => .inl (untouched_later ht h)) fun t draw ht hsound => ?_
  · cases updated with
    | none => exact untouched_later hrely ht
    | some row => exact Wrote.later hrely ht
  have ht' := untouched_later ht h
  split
  · refine ⟨.rests rfl rfl id, rights_of_history_eq rfl, ?_, by simp,
      .inl ht'⟩
    intro result hresult
    obtain rfl := Except.ok.inj hresult
    exact ht'
  next row hrow =>
  split
  · exact executes_rests ht' rfl rfl le_rfl le_rfl
  · refine executes_wrote (.report (row.reviewed status admin t.now))
      (.updateReport reportId status admin t.now) hsound ht' ?_ (hwrites _)
      rfl rfl (fun hnumbered => ⟨fun other hother => ?_, hnumbered.warnings⟩)
      ⟨reportId, status, admin, t.now, rfl, ?_⟩ id
    · simp [Change.Warranted, hrow]
    · obtain ⟨old, hold, rfl⟩ := List.mem_map.mp hother
      have hlt := hnumbered.reports old hold
      split <;> exact hlt
    · exact get_apply_updateReport hrow

/-! ### The audit -/

theorem Closed.later (hrely : Rely i t u) (h : Closed i t) : Closed i u :=
  h.imp (fun ⟨row, hrow⟩ => ⟨row, hrely.suffix.subset hrow⟩)
    fun ⟨action, haction⟩ => ⟨action, hrely.suffix.subset haction⟩

theorem Unlogged.later {change : Change} (hrely : Rely i t u)
    (h : Unlogged i change t.history) : Unlogged i change u.history :=
  h.imp hrely.own.trans fun ⟨row, hown⟩ => ⟨row, hrely.own.trans hown⟩

/-- The audit either succeeds or its failure is logged, and the request goes
on. -/
theorem logAdminAction_meets {actorId : ℕ} {action targetType : String}
    {targetId : Option ℕ} {payload : List (String × String)} {change : Change}
    (hentry : ∀ now, change.entry now =
      some ⟨actorId, action, targetType, targetId, payload, now⟩)
    (h : own i d.history = [.wrote i change]) :
    (logAdminAction actorId action targetType targetId payload).Meets
      request.discipline i (fun _ t => Closed i t) (fun _ _ => False) d := by
  refine Program.Meets.caught (fun _ t => Unlogged i change t.history) ?_
    fun fault t ht => ?_
  · refine query_meets Closed.later Unlogged.later
      (fun t ht => .inl (ht.own.trans h)) fun t draw ht _ => ?_
    have ht' : own i t.history = [.wrote i change] := ht.own.trans h
    split
    · exact ⟨.rests rfl rfl id, rights_of_history_eq rfl, by simp,
        fun _ _ => .inl ht', .inl ht'⟩
    · have hown : ∀ row, own i (.audited i row :: t.history) =
          [.audited i row, .wrote i change] := fun row =>
        (own_cons_self rfl).trans (congrArg _ ht')
      exact ⟨.records (.audited i _) rfl ⟨change, ht', hentry _⟩ rfl rfl
          fun hnumbered => ⟨hnumbered.reports, hnumbered.warnings⟩,
        rights_of_not_wrote rfl (by simp),
        fun _ _ => .inl ⟨_, List.mem_cons_self⟩, by simp, .inr ⟨_, hown _⟩⟩
  · intro u hu hsound draw result v haction
    obtain ⟨-, rfl⟩ := Prod.mk.inj (Option.some.inj haction)
    have hlaw : (Event.auditFailed i action).Law u.history :=
      ⟨change, ht.later hu, 0, _, hentry 0, rfl⟩
    refine ⟨⟨.records (.auditFailed i action) rfl hlaw rfl rfl
      fun hnumbered => ⟨hnumbered.reports, hnumbered.warnings⟩,
      rights_of_not_wrote rfl (by simp)⟩, ?_⟩
    exact fun w hw _ => Closed.later hw (.inr ⟨action, List.mem_cons_self⟩)

/-! ### The handlers -/

theorem assertUserExists_meets {userId : ℕ} {label : String}
    (h : own i d.history = []) :
    (assertUserExists userId label).Meets request.discipline i
      (fun _ t => own i t.history = []) (fun fault => Refused i fault) d := by
  refine .seq _ (select_meets h) fun found t ht => ?_
  split
  · exact .failed fun u hu _ => .inl (untouched_later hu ht)
  · exact .done fun u hu _ => untouched_later hu ht

theorem notFoundOnForeignKey_meets {message : String} {fault : Fault}
    {post : β → Desk → Prop} (h : Refused i fault d) :
    (notFoundOnForeignKey message fault).Meets request.discipline i post
      (fun fault => Refused i fault) d := by
  unfold notFoundOnForeignKey
  split
  next hfault =>
    refine .failed fun t ht _ => .inl (untouched_later ht ?_)
    exact h.resolve_right (by simp [hfault])
  next => exact .failed fun t ht _ => h.later ht

theorem createReport_meets {user reportedUserId : ℕ} {reason : String}
    (hwrites : ∀ row : ReportRow, row.reporterId = user →
      row.reportedUserId = reportedUserId → row.reason = reason →
        request.Writes (.insertReport row))
    (h : own i d.history = []) :
    (createReport user reportedUserId reason).Meets request.discipline i
      (fun report t => Answered request i (.created report) t)
      (fun fault => Refused i fault) d := by
  unfold createReport
  split
  · exact .failed fun t ht _ => .inl (untouched_later ht h)
  refine .seq _ (assertUserExists_meets h) fun _ t ht => ?_
  refine .seq _ (.caught _ (insertReport_meets hwrites ht) fun fault u hu =>
    notFoundOnForeignKey_meets hu) fun row u hu => ?_
  exact .done fun v hv _ => (hu.later hv).2

/-- What a request has written is still so after the audit. -/
theorem audited_meets {actorId : ℕ} {action targetType : String}
    {targetId : Option ℕ} {payload : List (String × String)}
    {response : β → Response} {value : β}
    (hentry : ∀ change now, request.Writes change → change.entry now =
      some ⟨actorId, action, targetType, targetId, payload, now⟩)
    (h : Wrote request i (response value) d) :
    (logAdminAction actorId action targetType targetId payload >>= fun _ =>
      pure value).Meets request.discipline i
      (fun value t => Answered request i (response value) t ∧ Closed i t)
      (fun fault => Refused i fault) d := by
  obtain ⟨⟨change, hown, hwrites⟩, hanswered⟩ := h
  have haudit : (logAdminAction actorId action targetType targetId
      payload).Meets request.discipline i (fun _ t => Closed i t)
        (fun _ _ => False) d :=
    logAdminAction_meets (fun now => hentry change now hwrites) hown
  have hframe := haudit.frame (Answered request i (response value))
    (fun hrely h => Answered.later (Rely.suffix hrely) h)
    (fun hstep h => Answered.later (Step.suffix (And.left hstep)) h) hanswered
  refine .seq _ (hframe.mono (fun _ _ h => h) fun _ _ h => h.1.elim)
    fun _ t ht => ?_
  exact .done fun u hu _ => ⟨ht.2.later hu.suffix, ht.1.later hu⟩

theorem createWarning_meets {admin targetUserId : ℕ} {message : String}
    (h : own i d.history = []) :
    (createWarning admin targetUserId message).Meets
      (Request.createWarning admin targetUserId message).discipline i
      (fun row t => Answered (.createWarning admin targetUserId message) i
        (.warning row) t ∧ Closed i t)
      (fun fault => Refused i fault) d := by
  refine .seq _ (assertUserExists_meets h) fun _ t ht => ?_
  refine .seq _ (.caught _ (insertWarning_meets ?_ ht) fun fault u hu =>
    notFoundOnForeignKey_meets hu) fun row u hu => ?_
  · exact fun row hadmin htarget hmessage => ⟨hadmin, htarget, hmessage⟩
  · refine audited_meets (fun change now hwrites => ?_) hu
    cases change with
    | insertWarning row =>
        obtain ⟨rfl, rfl, rfl⟩ := hwrites
        rfl
    | insertReport | updateReport => exact hwrites.elim

theorem updateReportStatus_meets {admin reportId : ℕ} {status : ReportStatus}
    (h : own i d.history = []) :
    (updateReportStatus admin reportId status).Meets
      (Request.updateReportStatus admin reportId status).discipline i
      (fun row t => Answered (.updateReportStatus admin reportId status) i
        (.report row) t ∧ Closed i t)
      (fun fault => Refused i fault) d := by
  refine .seq _ (updateReport_meets (fun _ => ⟨rfl, rfl, rfl⟩) h)
    fun updated t ht => ?_
  cases updated with
  | none => exact .failed fun u hu _ => .inl (untouched_later hu ht)
  | some row =>
      refine audited_meets (fun change now hwrites => ?_) ht
      cases change with
      | updateReport =>
          obtain ⟨rfl, rfl, rfl⟩ := hwrites
          rfl
      | insertReport | insertWarning => exact hwrites.elim

theorem listUserReports_meets {userId limit offset : ℕ}
    (h : own i d.history = []) :
    (listUserReports userId limit offset).Meets request.discipline i
      (fun _ t => own i t.history = []) (fun fault => Refused i fault) d :=
  .seq _ (assertUserExists_meets h) fun _ _ ht => select_meets ht

end Rules

/-- Every request keeps to what it is for. -/
theorem Request.handler_meets (request : Request) {i : ℕ} {d : Desk}
    (h : own i d.history = []) :
    request.handler.Meets request.discipline i (request.Post i)
      (fun fault => Refused i fault) d := by
  cases request with
  | createReport user reportedUserId reason =>
      refine .seq _ (createReport_meets (fun row hreporter hreported hreason =>
        ⟨hreporter, hreported, hreason⟩) h) fun report t ht => ?_
      exact .done fun u hu _ => ht.later hu.suffix
  | createWarning admin targetUserId message =>
      refine .seq _ (createWarning_meets h) fun row t ht => ?_
      exact .done fun u hu _ => ⟨ht.1.later hu.suffix, ht.2.later hu⟩
  | updateReportStatus admin reportId status =>
      refine .seq _ (updateReportStatus_meets h) fun row t ht => ?_
      exact .done fun u hu _ => ⟨ht.1.later hu.suffix, ht.2.later hu⟩
  | getMyReports | listReports =>
      refine .seq _ (select_meets h) fun rows t ht => ?_
      exact .done fun u hu _ => untouched_later hu ht
  | listUserReports userId limit offset =>
      refine .seq _ (listUserReports_meets h) fun rows t ht => ?_
      exact .done fun u hu _ => untouched_later hu ht

/-! ## The desk -/

theorem Desk.sound_initial (now : ℕ) : (Desk.initial now).Sound :=
  ⟨rfl, lawful_nil, ⟨by simp [initial, Tables.empty, Table.empty],
    by simp [initial, Tables.empty, Table.empty]⟩⟩

@[simp] theorem Desk.history_surroundings (event : Surroundings) (d : Desk) :
    (d.surroundings event).history = d.history := by
  cases event <;> rfl

theorem Desk.sound_surroundings (event : Surroundings) {d : Desk}
    (h : d.Sound) : (d.surroundings event).Sound := by
  cases event with
  | timePasses | userRegisters | userDeleted =>
      exact ⟨h.tables, h.lawful, h.numbered.reports, h.numbered.warnings⟩

theorem desk_sound : desk.SoundWithin discipline Request.Rights
    (fun i d => own i d.history = []) (fun _ _ => True) Request.Post
    (fun _ i fault => Refused i fault) where
  handler_meets request _ _ _ hfresh := request.handler_meets hfresh
  guarantee_fresh hne hstep hfresh := (hstep.rely hne).own.trans hfresh
  environment_fresh event i d hfresh := by rwa [desk, Desk.history_surroundings]
  environment_rely event i d _ := by
    have hhistory : (d.surroundings event).history = d.history :=
      Desk.history_surroundings event d
    exact ⟨hhistory ▸ List.suffix_rfl, by rw [desk, hhistory]⟩
  environment_invariant event _ h := Desk.sound_surroundings event h

theorem onCourse_of_reaches {now : ℕ} {pool : Pool Request Draw Desk Fault Response}
    (hreach : desk.Reaches (fun _ _ => True) (Pool.opening now) pool) :
    System.OnCourseWithin discipline Request.Rights
      (fun i d => own i d.history = []) Request.Post
      (fun _ i fault => Refused i fault) pool :=
  hreach.soundWithin desk_sound
    (.of_empty rfl (Desk.sound_initial now) fun _ => rfl)

end MarketPlace.Moderation
