import MarketPlace.ReportHistories

/-!
# Paging through reports by offset

The listings of reports order by creation time and page by offset.  Reports
are filed while a client pages, but none is taken away, so a report only moves
towards later pages.  A client that goes on until a page is empty has seen
every report that there was when it began, though it may have seen some twice.
-/

namespace MarketPlace.Moderation

open Interleaving Relational

/-! ## Listings -/

inductive Listing where
  | mine (user : ℕ)
  | all
  | against (userId : ℕ)
  deriving DecidableEq, Repr

def Listing.request (limit offset : ℕ) : Listing → Request
  | .mine user => .getMyReports user limit offset
  | .all => .listReports limit offset
  | .against userId => .listUserReports userId limit offset

def Listing.selects : Listing → ReportRow → Bool
  | .mine user, row => row.reporterId = user
  | .all, _ => true
  | .against userId, row => row.reportedUserId = userId

/-- The creation time and the id of a report. -/
def ReportRow.stamp (row : ReportRow) : ℕ × ℕ := (row.createdAt, row.id)

def Response.stamps : Response → List (ℕ × ℕ)
  | .reports rows => rows.map ReportRow.stamp
  | .summaries rows => rows.map fun row => (row.createdAt, row.id)
  | _ => []

/-- The stamps of the selected reports, in the order of the listing. -/
def Desk.stamps (d : Desk) (listing : Listing) (tieRank : ℕ → ℕ) :
    List (ℕ × ℕ) :=
  (d.listed listing.selects tieRank).map ReportRow.stamp

/-- No two selected reports were filed at the same time. -/
def Desk.Apart (d : Desk) (listing : Listing) : Prop :=
  ((d.tables.reports.rows.filter listing.selects).map
    ReportRow.createdAt).Nodup

section Listings

variable {d d' : Desk} {listing : Listing} {tieRank tieRank' : ℕ → ℕ}
  {stamp : ℕ × ℕ}

theorem mem_stamps : stamp ∈ d.stamps listing tieRank ↔
    ∃ row ∈ d.tables.reports.rows, listing.selects row = true ∧
      row.stamp = stamp := by
  simp [Desk.stamps, Desk.listed, and_assoc]

instance total_newestFirst : Std.Total (newestFirst tieRank) where
  total row other := by
    unfold newestFirst
    omega

instance trans_newestFirst : IsTrans ReportRow (newestFirst tieRank) where
  trans row other third h h' := by
    unfold newestFirst at h h' ⊢
    omega

/-- The order of a listing is strict where no times are the same. -/
theorem pairwise_stamps (hapart : d.Apart listing) :
    (d.stamps listing tieRank).Pairwise fun stamp other =>
      other.1 < stamp.1 := by
  have hperm := List.perm_insertionSort (newestFirst tieRank)
    (d.tables.reports.rows.filter listing.selects)
  have hsorted := List.pairwise_insertionSort (newestFirst tieRank)
    (d.tables.reports.rows.filter listing.selects)
  have hnodup := (hperm.map ReportRow.createdAt).nodup_iff.mpr hapart
  have hne := List.pairwise_map.mp hnodup
  rw [Desk.stamps, List.pairwise_map]
  refine (hsorted.and hne).imp fun {row other} h => ?_
  exact h.1.resolve_right fun htied => h.2 htied.1.symm

theorem nodup_stamps (hapart : d.Apart listing) :
    (d.stamps listing tieRank).Nodup :=
  (pairwise_stamps hapart).imp fun h heq => by simp [heq] at h

theorem ReportRow.SameFiling.selects_eq {row row' : ReportRow}
    (h : row.SameFiling row') (listing : Listing) :
    listing.selects row' = listing.selects row ∧ row'.stamp = row.stamp := by
  obtain ⟨hid, hreporter, hreported, -, hcreated⟩ := h
  refine ⟨?_, by simp [ReportRow.stamp, hid, hcreated]⟩
  cases listing <;> simp [Listing.selects, hreporter, hreported]

/-- What was listed is listed later on. -/
theorem stamps_subset (tieRank tieRank' : ℕ → ℕ)
    (hkeeps : d.tables.reports.Keeps ReportRow.SameFiling d'.tables.reports) :
    d.stamps listing tieRank ⊆ d'.stamps listing tieRank' := by
  intro stamp hstamp
  obtain ⟨row, hrow, hselects, rfl⟩ := mem_stamps.mp hstamp
  obtain ⟨row', hrow', hsame⟩ := hkeeps _ row (Table.get_of_mem hrow)
  obtain ⟨hselects', hstamp'⟩ := hsame.selects_eq listing
  exact mem_stamps.mpr ⟨row', Table.mem_of_get hrow', hselects'.trans hselects,
    hstamp'⟩

/-- Later a listing has more in between, in the same order. -/
theorem stamps_sublist (tieRank tieRank' : ℕ → ℕ)
    (hkeeps : d.tables.reports.Keeps ReportRow.SameFiling d'.tables.reports)
    (hapart : d.Apart listing) (hapart' : d'.Apart listing) :
    (d.stamps listing tieRank).Sublist (d'.stamps listing tieRank') := by
  have hantisymm : Std.Antisymm fun stamp other : ℕ × ℕ =>
      other.1 < stamp.1 := ⟨fun _ _ h h' => absurd h (by omega)⟩
  exact List.sublist_of_subperm_of_pairwise
    ((nodup_stamps hapart).subperm (stamps_subset _ _ hkeeps))
    (pairwise_stamps hapart) (pairwise_stamps hapart')

/-- Reports that are apart have always been. -/
theorem Desk.Apart.earlier (hkeeps : d.tables.reports.Keeps
      ReportRow.SameFiling d'.tables.reports) (hapart : d'.Apart listing) :
    d.Apart listing := by
  refine List.Nodup.map_on (fun row hrow other hother hcreated => ?_)
    ((List.Nodup.of_map _ d.tables.reports.keys_nodup).filter _)
  rw [List.mem_filter] at hrow hother
  have hget := Table.get_of_mem hrow.1
  have hget' := Table.get_of_mem hother.1
  obtain ⟨row', hrow', hsame⟩ := hkeeps _ row hget
  obtain ⟨other', hother', hsame'⟩ := hkeeps _ other hget'
  have hselects := (hsame.selects_eq listing).1
  have hselects' := (hsame'.selects_eq listing).1
  have heq : row' = other' := by
    refine List.inj_on_of_nodup_map hapart
      (List.mem_filter.mpr ⟨Table.mem_of_get hrow', hselects.trans hrow.2⟩)
      (List.mem_filter.mpr ⟨Table.mem_of_get hother', hselects'.trans hother.2⟩)
      ?_
    exact hsame.2.2.2.2.trans (hcreated.trans hsame'.2.2.2.2.symm)
  have hid : row.id = other.id := by
    rw [← hsame.1, ← hsame'.1, heq]
  rw [hid, hget'] at hget
  exact (Option.some.inj hget).symm

end Listings

/-! ## Walks -/

theorem map_page {β : Type} (f : ReportRow → β) (limit offset : ℕ)
    (rows : List ReportRow) :
    (page limit offset rows).map f = ((rows.map f).drop offset).take limit := by
  simp [page, List.map_take, List.map_drop]

theorem select_observes {β : Type} (read : Draw → Desk → β) :
    (select read).Observes fun value d => ∃ draw, value = read draw d := by
  intro i draw d outcome d' haction
  dsimp only at haction
  split at haction
  · obtain ⟨rfl, -⟩ := Prod.mk.inj (Option.some.inj haction)
    exact .inl ⟨draw, rfl⟩
  · obtain ⟨rfl, -⟩ := Prod.mk.inj (Option.some.inj haction)
    exact .inl trivial
  · obtain ⟨rfl, -⟩ := Prod.mk.inj (Option.some.inj haction)
    exact .inl trivial

/-- What a listing answers is a page of the reports as they were on the way. -/
theorem Listing.request_observes (listing : Listing) (limit offset : ℕ) :
    ((listing.request limit offset).handler).Observes fun response d =>
      ∃ tieRank, response.stamps =
        ((d.stamps listing tieRank).drop offset).take limit := by
  cases listing with
  | mine user =>
      refine (select_observes _).bind fun rows d ⟨draw, hrows⟩ =>
        ⟨draw.tieRank, ?_⟩
      rw [hrows]
      exact map_page _ _ _ _
  | all =>
      refine (select_observes _).bind fun rows d ⟨draw, hrows⟩ =>
        ⟨draw.tieRank, ?_⟩
      rw [hrows]
      exact List.map_map.trans (map_page _ _ _ _)
  | against userId =>
      refine .bind (.after fun _ => select_observes _)
        fun rows d ⟨draw, hrows⟩ => ⟨draw.tieRank, ?_⟩
      rw [hrows]
      exact List.map_map.trans (map_page _ _ _ _)

/-- A client that pages through a listing: after `k` pages it has seen these
stamps.  Every page is asked for after the one before it was answered. -/
inductive Walk (listing : Listing) (limit : ℕ)
    (start : Pool Request Draw Desk Fault Response) :
    ℕ → List (ℕ × ℕ) → Pool Request Draw Desk Fault Response → Prop
  | begin : Walk listing limit start 0 [] start
  | turn {k i : ℕ} {seen : List (ℕ × ℕ)} {response : Response}
      {pool next : Pool Request Draw Desk Fault Response}
      (hwalk : Walk listing limit start k seen pool)
      (hreach : desk.Reaches (fun _ _ => True) pool next)
      (hi : pool.threads.length ≤ i)
      (hanswer : next.threads[i]? =
        some ⟨listing.request limit (k * limit), .done response⟩) :
      Walk listing limit start (k + 1) (seen ++ response.stamps) next

section Walks

variable {now limit k : ℕ} {listing : Listing} {seen : List (ℕ × ℕ)}
  {start pool last : Pool Request Draw Desk Fault Response}

theorem Walk.reaches (hwalk : Walk listing limit start k seen pool) :
    desk.Reaches (fun _ _ => True) start pool := by
  induction hwalk with
  | begin => exact .refl
  | turn _ hreach _ _ ih => exact ih.trans hreach

theorem mem_take_or_drop {α : Type} {x : α} {rows : List α} {offset : ℕ}
    (h : x ∈ rows.drop offset) :
    x ∈ (rows.drop offset).take limit ∨ x ∈ rows.drop (offset + limit) := by
  rw [← List.take_append_drop limit (rows.drop offset), List.mem_append,
    List.drop_drop] at h
  exact h

/-- What a client has not seen after `k` pages is behind them from now on. -/
theorem Walk.covers
    (hreach : desk.Reaches (fun _ _ => True) (Pool.opening now) start)
    (hwalk : Walk listing limit start k seen pool)
    (hapart : pool.state.Apart listing) {stamp : ℕ × ℕ} {tieRank : ℕ → ℕ}
    (hstamp : stamp ∈ start.state.stamps listing tieRank) :
    stamp ∈ seen ∨ ∀ (later : Pool Request Draw Desk Fault Response) tieRank,
      desk.Reaches (fun _ _ => True) pool later →
      later.state.Apart listing →
      stamp ∈ (later.state.stamps listing tieRank).drop (k * limit) := by
  induction hwalk with
  | begin =>
      refine .inr fun later tieRank hlater _ => ?_
      rw [Nat.zero_mul, List.drop_zero]
      exact stamps_subset _ _ (reports_keep hreach hlater) hstamp
  | @turn k i seen response pool next hwalk hnext hi hanswer ih =>
      have hpool := hreach.trans hwalk.reaches
      rcases ih (hapart.earlier (reports_keep hpool hnext)) with
        hseen | hbehind
      · exact .inl (List.mem_append_left _ hseen)
      obtain ⟨middle, hmiddle, hrest, -, tieRank, hpage⟩ := hnext.observed
        (listing.request_observes limit (k * limit)) hi hanswer
      have hapart' := hapart.earlier
        (reports_keep (hpool.trans hmiddle) hrest)
      rcases mem_take_or_drop (hbehind middle tieRank hmiddle hapart') with
        hshown | hstill
      · rw [← hpage] at hshown
        exact .inl (List.mem_append_right _ hshown)
      · refine .inr fun later tieRank' hlater hlast => ?_
        have hkeep := reports_keep (hpool.trans hmiddle) (hrest.trans hlater)
        have hsublist := stamps_sublist tieRank tieRank' hkeep hapart' hlast
        rw [Nat.succ_mul]
        exact (hsublist.drop _).subset hstill

/-- A client sees nothing but selected reports. -/
theorem Walk.exists_row
    (hreach : desk.Reaches (fun _ _ => True) (Pool.opening now) start)
    (hwalk : Walk listing limit start k seen pool) {stamp : ℕ × ℕ}
    (hstamp : stamp ∈ seen) :
    ∃ row ∈ pool.state.tables.reports.rows, listing.selects row = true ∧
      row.stamp = stamp := by
  induction hwalk with
  | begin => exact absurd hstamp List.not_mem_nil
  | @turn k i seen response pool next hwalk hnext hi hanswer ih =>
      have hpool := hreach.trans hwalk.reaches
      rcases List.mem_append.mp hstamp with hseen | hshown
      · have hlisted := stamps_subset id id
          (reports_keep hpool hnext) (mem_stamps.mpr (ih hseen))
        exact mem_stamps.mp hlisted
      · obtain ⟨middle, hmiddle, hrest, -, tieRank, hpage⟩ := hnext.observed
          (listing.request_observes limit (k * limit)) hi hanswer
        rw [hpage] at hshown
        have hlisted := stamps_subset tieRank id
          (reports_keep (hpool.trans hmiddle) hrest)
          (List.mem_of_mem_drop (List.mem_of_mem_take hshown))
        exact mem_stamps.mp hlisted

/-- A client that pages until a page is empty has seen every report that there
was when it began, whatever was filed and reviewed in between. -/
theorem pages_complete
    (hreach : desk.Reaches (fun _ _ => True) (Pool.opening now) start)
    (hlimit : 0 < limit) (hwalk : Walk listing limit start k seen pool)
    (hlast : desk.Reaches (fun _ _ => True) pool last) {i : ℕ}
    (hi : pool.threads.length ≤ i) {response : Response}
    (hanswer : last.threads[i]? =
      some ⟨listing.request limit (k * limit), .done response⟩)
    (hempty : response.stamps = []) (hapart : last.state.Apart listing) :
    (∀ row ∈ start.state.tables.reports.rows, listing.selects row = true →
      row.stamp ∈ seen) ∧
    ∀ stamp ∈ seen, ∃ row ∈ last.state.tables.reports.rows,
      listing.selects row = true ∧ row.stamp = stamp := by
  have hpool := hreach.trans hwalk.reaches
  constructor
  · intro row hrow hselects
    have hstamp : row.stamp ∈ start.state.stamps listing id :=
      mem_stamps.mpr ⟨row, hrow, hselects, rfl⟩
    refine (hwalk.covers hreach
      (hapart.earlier (reports_keep hpool hlast)) hstamp).resolve_right
        fun hbehind => ?_
    obtain ⟨middle, hmiddle, hrest, -, tieRank, hpage⟩ := hlast.observed
      (listing.request_observes limit (k * limit)) hi hanswer
    have hmem := hbehind middle tieRank hmiddle
      (hapart.earlier (reports_keep (hpool.trans hmiddle) hrest))
    rw [hempty] at hpage
    rcases List.take_eq_nil_iff.mp hpage.symm with hzero | hnil
    · omega
    · rw [hnil] at hmem
      exact absurd hmem List.not_mem_nil
  · intro stamp hstamp
    have hlisted := stamps_subset id id
      (reports_keep hpool hlast)
      (mem_stamps.mpr (hwalk.exists_row hreach hstamp))
    exact mem_stamps.mp hlisted

end Walks

/-- The next page of the reports of user 1, one on a page. -/
def nextPage (i k : ℕ) : List (Move Request Draw Surroundings) :=
  [.submit (Listing.request 1 (k * 1) (.mine 1)), .advance i calmDraw]

def answersStamps (i k : ℕ) (stamps : List (ℕ × ℕ))
    (pool : Pool Request Draw Desk Fault Response) : Bool :=
  (pool.answer i).any fun answer =>
    answer.1 = Listing.request 1 (k * 1) (.mine 1) && answer.2.stamps = stamps

theorem thread_of_answersStamps {i k : ℕ} {stamps : List (ℕ × ℕ)}
    {pool : Pool Request Draw Desk Fault Response}
    (h : answersStamps i k stamps pool = true) :
    ∃ response, response.stamps = stamps ∧
      pool.threads[i]? =
        some ⟨Listing.request 1 (k * 1) (.mine 1), .done response⟩ := by
  obtain ⟨⟨request, response⟩, hanswer, hcheck⟩ :=
    (Option.any_eq_true _ _).mp h
  simp only [Bool.and_eq_true, decide_eq_true_eq] at hcheck
  obtain ⟨rfl, hstamps⟩ := hcheck
  exact ⟨response, hstamps, Pool.thread_of_answer hanswer⟩

/-- User 1 has reported user 2. -/
def reportsOnce : List (Move Request Draw Surroundings) :=
  [.environment .userRegisters, .environment .userRegisters,
    .submit (.createReport 1 2 "no delivery"), .advance 0 calmDraw,
    .advance 0 calmDraw]

/-- User 1 files another report before going on to the next page. -/
def reportsMeanwhile : List (Move Request Draw Surroundings) :=
  [.environment (.timePasses 7), .submit (.createReport 1 2 "no refund"),
    .advance 2 calmDraw, .advance 2 calmDraw] ++ nextPage 3 1

/-- The first report is seen on two pages. -/
theorem pages_complete_shifted :
    ∃ start pool last, desk.Reaches (fun _ _ => True) (Pool.opening 0) start ∧
      Walk (.mine 1) 1 start 2 [(0, 1), (0, 1)] pool ∧
      desk.Reaches (fun _ _ => True) pool last ∧
      (∀ row ∈ start.state.tables.reports.rows, row.reporterId = 1 →
        row.stamp ∈ [(0, 1), (0, 1)]) ∧
      ∀ stamp ∈ [(0, 1), (0, 1)], ∃ row ∈ last.state.tables.reports.rows,
        row.reporterId = 1 ∧ row.stamp = stamp := by
  obtain ⟨start, hstart, hcheck⟩ := System.exists_reaches_of_run
    (show (desk.run reportsOnce (Pool.opening 0)).any (fun start =>
      start.threads.length = 1 && (desk.run (nextPage 1 0) start).any fun first =>
        first.threads.length = 2 && answersStamps 1 0 [(0, 1)] first &&
        (desk.run reportsMeanwhile first).any fun pool =>
          pool.threads.length = 4 && answersStamps 3 1 [(0, 1)] pool &&
          (desk.run (nextPage 4 2) pool).any fun last =>
            answersStamps 4 2 [] last &&
            ((last.state.tables.reports.rows.filter
              (Listing.mine 1).selects).map ReportRow.createdAt).Nodup) = true
      by decide +kernel)
  simp only [Bool.and_eq_true, decide_eq_true_eq] at hcheck
  obtain ⟨hlength, hrun⟩ := hcheck
  obtain ⟨first, hfirst, hcheck⟩ := System.exists_reaches_of_run hrun
  simp only [Bool.and_eq_true, decide_eq_true_eq] at hcheck
  obtain ⟨⟨hlength', hpage⟩, hrun⟩ := hcheck
  obtain ⟨pool, hpool, hcheck⟩ := System.exists_reaches_of_run hrun
  simp only [Bool.and_eq_true, decide_eq_true_eq] at hcheck
  obtain ⟨⟨hlength'', hpage'⟩, hrun⟩ := hcheck
  obtain ⟨last, hlast, hcheck⟩ := System.exists_reaches_of_run hrun
  simp only [Bool.and_eq_true, decide_eq_true_eq] at hcheck
  obtain ⟨hpage'', hapart⟩ := hcheck
  obtain ⟨response, hstamps, hthread⟩ := thread_of_answersStamps hpage
  obtain ⟨response', hstamps', hthread'⟩ := thread_of_answersStamps hpage'
  obtain ⟨response'', hempty, hthread''⟩ := thread_of_answersStamps hpage''
  have hwalk := (Walk.begin.turn hfirst (by omega) hthread).turn hpool
    (by omega) hthread'
  rw [hstamps, hstamps'] at hwalk
  have hcomplete := pages_complete hstart (by decide) hwalk hlast
    (by omega) hthread'' hempty hapart
  simp only [Listing.selects, decide_eq_true_eq] at hcomplete
  exact ⟨start, pool, last, hstart, hwalk, hlast, hcomplete⟩

end MarketPlace.Moderation
