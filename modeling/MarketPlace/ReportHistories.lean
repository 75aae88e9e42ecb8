import MarketPlace.DeskOutlines
import MarketPlace.FreshReads

/-!
# What the desk's reports tell

A report is the row that was filed, with the status, the reviewer and the time
of its latest review.  Reports stay, whatever else happens, and a request has
written exactly if the desk has its write.
-/

namespace MarketPlace.Moderation

open EventLog Interleaving Relational

/-! ## The reports as they are told -/

structure Review where
  status : ReportStatus
  admin : ℕ
  now : ℕ
  deriving DecidableEq, Repr

/-- The row of an event that files report `reportId`. -/
def Event.filed (reportId : ℕ) : Event → Option ReportRow
  | .wrote _ (.insertReport row) => if row.id = reportId then some row else none
  | _ => none

/-- The review of an event that reviews report `reportId`. -/
def Event.review (reportId : ℕ) : Event → Option Review
  | .wrote _ (.updateReport id status admin now) =>
      if id = reportId then some ⟨status, admin, now⟩ else none
  | _ => none

def filing (reportId : ℕ) (history : List Event) : Option ReportRow :=
  history.findSome? (Event.filed reportId)

def latestReview (reportId : ℕ) (history : List Event) : Option Review :=
  history.findSome? (Event.review reportId)

def ReportRow.under (row : ReportRow) : Option Review → ReportRow
  | none => row
  | some review => row.reviewed review.status review.admin review.now

/-- The report as the history tells it. -/
def told (reportId : ℕ) (history : List Event) : Option ReportRow :=
  (filing reportId history).map fun row =>
    row.under (latestReview reportId history)

section Told

variable {reportId : ℕ} {event : Event} {history : List Event}

theorem filing_cons : filing reportId (event :: history) =
    (event.filed reportId).or (filing reportId history) := by
  cases h : event.filed reportId <;> simp [filing, h]

theorem latestReview_cons : latestReview reportId (event :: history) =
    (event.review reportId).or (latestReview reportId history) := by
  cases h : event.review reportId <;> simp [latestReview, h]

theorem told_eq_none : told reportId history = none ↔
    filing reportId history = none := by
  simp [told]

@[simp] theorem ReportRow.id_under (row : ReportRow) (review : Option Review) :
    (row.under review).id = row.id := by
  cases review <;> rfl

/-- A review replaces an earlier one. -/
theorem ReportRow.reviewed_under (row : ReportRow) (earlier : Option Review)
    (status : ReportStatus) (admin now : ℕ) :
    (row.under earlier).reviewed status admin now =
      row.reviewed status admin now := by
  cases earlier <;> rfl

end Told

/-- A report is as it was filed, under its latest review; none is reviewed
before it is filed. -/
structure Tells (reportId : ℕ) (history : List Event) : Prop where
  get : (stored history).reports.get reportId = told reportId history
  unfiled : filing reportId history = none →
    latestReview reportId history = none

namespace Tells

variable {reportId i : ℕ} {past : List Event}

/-- An event that is not about the report changes nothing. -/
theorem other {event : Event} (h : Tells reportId past)
    (hget : (event.effect (stored past)).reports.get reportId =
      (stored past).reports.get reportId)
    (hfiled : event.filed reportId = none)
    (hreview : event.review reportId = none) :
    Tells reportId (event :: past) := by
  have htold : told reportId (event :: past) = told reportId past := by
    rw [told, filing_cons, latestReview_cons, hfiled, hreview]
    rfl
  refine ⟨htold ▸ hget.trans h.get, ?_⟩
  rw [filing_cons, latestReview_cons, hfiled, hreview]
  exact h.unfiled

theorem insertReport {row : ReportRow} (h : Tells reportId past)
    (hfree : (stored past).reports.get row.id = none) :
    Tells reportId (.wrote i (.insertReport row) :: past) := by
  by_cases hid : row.id = reportId
  · subst hid
    have hnone : filing row.id past = none :=
      told_eq_none.mp (h.get.symm.trans hfree)
    have hget : ((stored past).reports.insert row).get row.id = some row :=
      Table.get_insert_self hfree
    refine ⟨hget.trans ?_, ?_⟩
    · rw [told, filing_cons, latestReview_cons, h.unfiled hnone]
      simp [Event.filed, Event.review, ReportRow.under]
    · simp [filing_cons, Event.filed]
  · exact h.other (Table.get_insert_of_ne hid) (by simp [Event.filed, hid]) rfl

theorem updateReport {id admin now : ℕ} {status : ReportStatus}
    (h : Tells reportId past) (hknown : ((stored past).reports.get id).isSome) :
    Tells reportId (.wrote i (.updateReport id status admin now) :: past) := by
  by_cases hid : id = reportId
  · subst hid
    obtain ⟨old, hold⟩ := Option.isSome_iff_exists.mp hknown
    obtain ⟨row, hrow, hunder⟩ := Option.map_eq_some_iff.mp
      (h.get.symm.trans hold)
    refine ⟨(get_apply_updateReport hold).trans ?_, ?_⟩
    · rw [told, filing_cons, latestReview_cons, ← hunder,
        ReportRow.reviewed_under]
      simp [Event.filed, Event.review, hrow, ReportRow.under]
    · simp [filing_cons, Event.filed, hrow]
  · have hget : ((stored past).reports.modify (fun row => row.id = id)
        (ReportRow.reviewed status admin now)
        (ReportRow.id_reviewed status admin now)).get reportId =
        (stored past).reports.get reportId := by
      refine Table.get_modify_of_untouched fun row hrow => ?_
      simpa [hrow] using Ne.symm hid
    exact h.other hget rfl (by simp [Event.review, hid])

end Tells

theorem tells_of_lawful {history : List Event}
    (hlaw : Lawful Event.Law history) (reportId : ℕ) :
    Tells reportId history := by
  induction history with
  | nil => exact ⟨rfl, fun _ => rfl⟩
  | cons event past ih =>
      obtain ⟨hevent, hpast⟩ := lawful_cons.mp hlaw
      have htells := ih hpast
      cases event with
      | audited | auditFailed => exact htells.other rfl rfl rfl
      | wrote i change =>
          cases change with
          | insertWarning row => exact htells.other rfl rfl rfl
          | insertReport row => exact htells.insertReport hevent.2.1
          | updateReport => exact htells.updateReport hevent.2

/-! ## Reports stay -/

/-- The parts of a report that no review changes. -/
def ReportRow.SameFiling (row row' : ReportRow) : Prop :=
  row'.id = row.id ∧ row'.reporterId = row.reporterId ∧
    row'.reportedUserId = row.reportedUserId ∧ row'.reason = row.reason ∧
    row'.createdAt = row.createdAt

theorem ReportRow.SameFiling.refl (row : ReportRow) : row.SameFiling row :=
  ⟨rfl, rfl, rfl, rfl, rfl⟩

theorem ReportRow.SameFiling.trans {row row' row'' : ReportRow}
    (h : row.SameFiling row') (h' : row'.SameFiling row'') :
    row.SameFiling row'' := by
  obtain ⟨hid, hreporter, hreported, hreason, hcreated⟩ := h
  obtain ⟨hid', hreporter', hreported', hreason', hcreated'⟩ := h'
  exact ⟨hid'.trans hid, hreporter'.trans hreporter,
    hreported'.trans hreported, hreason'.trans hreason,
    hcreated'.trans hcreated⟩

theorem keeps_effect (event : Event) (tables : Tables) :
    tables.reports.Keeps ReportRow.SameFiling (event.effect tables).reports := by
  have hrefl := Table.Keeps.refl ReportRow.SameFiling.refl tables.reports
  cases event with
  | audited | auditFailed => exact hrefl
  | wrote i change =>
      cases change with
      | insertWarning row => exact hrefl
      | insertReport row =>
          exact Table.keeps_insert ReportRow.SameFiling.refl tables.reports row
      | updateReport =>
          exact Table.keeps_modify ReportRow.SameFiling.refl tables.reports
            (ReportRow.id_reviewed _ _ _)
            fun row _ => ReportRow.SameFiling.refl row

theorem keeps_stored {past history : List Event} (h : past <:+ history) :
    (stored past).reports.Keeps ReportRow.SameFiling (stored history).reports :=
  replay_preserves
    (fun tables : Tables => (stored past).reports.Keeps ReportRow.SameFiling
      tables.reports) h
    (.refl ReportRow.SameFiling.refl _) fun event _ _ _ hkeeps =>
      hkeeps.trans (fun h h' => h.trans h') (keeps_effect event _)

/-! ## Runs -/

section Runs

variable {now : ℕ} {pool later : Pool Request Draw Desk Fault Response}

theorem suffix_of_reaches
    (hreach : desk.Reaches (fun _ _ => True) (Pool.opening now) pool)
    (hlater : desk.Reaches (fun _ _ => True) pool later) :
    pool.state.history <:+ later.state.history := by
  induction hlater with
  | refl => exact List.suffix_rfl
  | step hbefore _ hperform ih =>
      refine ih.trans ?_
      have hcourse := onCourse_of_reaches (hreach.trans hbefore)
      rcases System.perform_cases hperform with
        ⟨request, -, rfl⟩ | ⟨i, w, thread, state, body, -, hthread, hadvance, rfl⟩ |
          ⟨event, -, rfl⟩
      · exact List.suffix_rfl
      · exact (hcourse.action hthread hadvance).1.suffix
      · rw [desk, Desk.history_surroundings]

theorem reports_keep
    (hreach : desk.Reaches (fun _ _ => True) (Pool.opening now) pool)
    (hlater : desk.Reaches (fun _ _ => True) pool later) :
    pool.state.tables.reports.Keeps ReportRow.SameFiling
      later.state.tables.reports := by
  have hsound : pool.state.Sound := (onCourse_of_reaches hreach).invariant
  have hsound' : later.state.Sound :=
    (onCourse_of_reaches (hreach.trans hlater)).invariant
  rw [hsound.tables, hsound'.tables]
  exact keeps_stored (suffix_of_reaches hreach hlater)

/-- A write is of a request that asked for it. -/
theorem writes_of_reaches
    (hreach : desk.Reaches (fun _ _ => True) (Pool.opening now) pool)
    {i : ℕ} {change : Change} (hwrote : .wrote i change ∈ pool.state.history) :
    ∃ thread, pool.threads[i]? = some thread ∧
      thread.request.Writes change := by
  induction hreach with
  | refl => exact absurd hwrote List.not_mem_nil
  | @step pool next move hbefore _ hperform ih =>
      have hstays : (∃ thread, pool.threads[i]? = some thread ∧
          thread.request.Writes change) →
          ∃ thread, next.threads[i]? = some thread ∧
            thread.request.Writes change := by
        rintro ⟨thread, hthread, hwrites⟩
        obtain ⟨body, hbody⟩ := System.thread_of_perform hperform hthread
        exact ⟨⟨thread.request, body⟩, hbody, hwrites⟩
      rcases System.perform_cases hperform with
        ⟨request, -, rfl⟩ | ⟨j, w, actor, state, body, -, hactor, hadvance, rfl⟩ |
          ⟨event, -, rfl⟩
      · exact hstays (ih hwrote)
      · obtain ⟨hstep, hrights⟩ :=
          (onCourse_of_reaches hbefore).action hactor hadvance
        cases hstep with
        | rests _ hhistory _ => exact hstays (ih (hhistory ▸ hwrote))
        | records event hactor' _ _ hhistory _ =>
            rcases List.mem_cons.mp (hhistory ▸ hwrote) with rfl | hwrote
            · obtain rfl : i = j := hactor'
              exact hstays ⟨actor, hactor, hrights change hhistory⟩
            · exact hstays (ih hwrote)
      · rw [desk, Desk.history_surroundings] at hwrote
        exact hstays (ih hwrote)

/-- Events that no request leaves a second time after one of its own. -/
theorem nodup_of_own (pick : Event → Option ℕ) {history : List Event}
    (hactor : ∀ event i, pick event = some i → event.actor = i)
    (hlaw : Lawful (fun event past => ∀ i, pick event = some i →
      ∀ earlier ∈ own i past, pick earlier = none) history) :
    (history.filterMap pick).Nodup := by
  induction history with
  | nil => exact List.nodup_nil
  | cons event past ih =>
      obtain ⟨hevent, hpast⟩ := lawful_cons.mp hlaw
      cases hpick : pick event with
      | none => rw [List.filterMap_cons_none hpick]; exact ih hpast
      | some i =>
          rw [List.filterMap_cons_some hpick, List.nodup_cons]
          refine ⟨fun hmem => ?_, ih hpast⟩
          obtain ⟨earlier, hin, hearlier⟩ := List.mem_filterMap.mp hmem
          have hnone := hevent i hpick earlier
            (mem_own.mpr ⟨hin, hactor earlier i hearlier⟩)
          simp [hearlier] at hnone

/-- The request that an event is a write of. -/
def Event.writer : Event → Option ℕ
  | .wrote i _ => some i
  | _ => none

/-- Nobody writes twice. -/
theorem nodup_writers {history : List Event}
    (hlaw : Lawful Event.Law history) :
    (history.filterMap Event.writer).Nodup := by
  refine nodup_of_own Event.writer (fun event i h => ?_)
    fun event past hhappened i h earlier hearlier => ?_
  · cases event with
    | wrote => exact Option.some.inj h
    | audited | auditFailed => contradiction
  · have hevent := hlaw event past hhappened
    cases event with
    | audited | auditFailed => contradiction
    | wrote j change =>
        obtain rfl := Option.some.inj h
        rw [hevent.1] at hearlier
        exact absurd hearlier List.not_mem_nil

theorem filed_of_filing {history : List Event} {reportId : ℕ} {row : ReportRow}
    (hlaw : Lawful Event.Law history)
    (hfiling : filing reportId history = some row) : row.Filed := by
  obtain ⟨event, hevent, hfiled⟩ := List.exists_of_findSome?_eq_some hfiling
  obtain ⟨past, hhappened⟩ := exists_happened hevent
  have hlawful := hlaw event past hhappened
  cases event with
  | audited | auditFailed => contradiction
  | wrote i change =>
      cases change with
      | insertWarning | updateReport => contradiction
      | insertReport other =>
          obtain ⟨-, hrow⟩ := Option.ite_none_right_eq_some.mp hfiled
          obtain rfl := Option.some.inj hrow
          exact hlawful.2.2

/-- The reports are what the history tells, every write in it is of a request
that asked for it, and requests have done what they answer. -/
structure ReportsTold (pool : Pool Request Draw Desk Fault Response) :
    Prop where
  reports : ∀ reportId, pool.state.tables.reports.get reportId =
    told reportId pool.state.history
  filed : ∀ reportId row, filing reportId pool.state.history = some row →
    row.Filed
  written : ∀ i change, .wrote i change ∈ pool.state.history →
    ∃ thread, pool.threads[i]? = some thread ∧ thread.request.Writes change
  once : (pool.state.history.filterMap Event.writer).Nodup
  answered : ∀ (i : ℕ) (request : Request) (response : Response),
    pool.threads[i]? = some ⟨request, .done response⟩ →
      request.Post i response pool.state
  refused : ∀ (i : ℕ) (request : Request) (fault : Fault),
    pool.threads[i]? = some ⟨request, .failed fault⟩ →
      Refused i fault pool.state

/-- However requests interleave and fail, the reports are those that were
filed, each under its latest review, and they stay. -/
theorem reports_told
    (hreach : desk.Reaches (fun _ _ => True) (Pool.opening now) pool) :
    ReportsTold pool ∧
      ∀ later, desk.Reaches (fun _ _ => True) pool later →
        pool.state.tables.reports.Keeps ReportRow.SameFiling
          later.state.tables.reports := by
  have hcourse := onCourse_of_reaches hreach
  have hsound : pool.state.Sound := hcourse.invariant
  refine ⟨⟨fun reportId => ?_, fun _ _ => filed_of_filing hsound.lawful,
    fun _ _ => writes_of_reaches hreach, nodup_writers hsound.lawful,
    fun _ _ _ => hcourse.outcome, fun _ _ _ => hcourse.failure⟩,
    fun later hlater => reports_keep hreach hlater⟩
  rw [hsound.tables]
  exact (tells_of_lawful hsound.lawful reportId).get

/-- Nothing fails, and ties are arranged by id. -/
def calmDraw : Draw := ⟨.works, id⟩

/-- User 1 reports user 2; user 3 takes the report up and then rejects it, but
does not learn of the rejection. -/
def reportsAndReviews : List (Move Request Draw Surroundings) :=
  [.environment .userRegisters, .environment .userRegisters,
    .environment .userRegisters, .submit (.createReport 1 2 "no delivery"),
    .advance 0 calmDraw, .advance 0 calmDraw, .environment (.timePasses 5),
    .submit (.updateReportStatus 3 1 .reviewing),
    .submit (.updateReportStatus 3 1 .rejected), .advance 1 calmDraw,
    .advance 2 ⟨.cut, id⟩, .advance 1 calmDraw]

theorem reports_told_rejected :
    ∃ pool, desk.Reaches (fun _ _ => True) (Pool.opening 0) pool ∧
      told 1 pool.state.history = some
        ⟨1, 1, 2, "no delivery", .rejected, some 3, some 5, 0, 5⟩ ∧
      ReportsTold pool ∧
      ∀ later, desk.Reaches (fun _ _ => True) pool later →
        pool.state.tables.reports.Keeps ReportRow.SameFiling
          later.state.tables.reports := by
  obtain ⟨pool, hreach, hcheck⟩ := System.exists_reaches_of_run
    (show (desk.run reportsAndReviews (Pool.opening 0)).any (fun pool =>
      told 1 pool.state.history = some
        ⟨1, 1, 2, "no delivery", .rejected, some 3, some 5, 0, 5⟩) = true by
      decide +kernel)
  exact ⟨pool, hreach, of_decide_eq_true hcheck, reports_told hreach⟩

end Runs

end MarketPlace.Moderation
