import MarketPlace.MigrationScript

/-!
# Migrations are recorded in order

Any number of runs of the script are under way at once, and each may fail or be
killed anywhere.  As long as later directories only add files at the end, the
recorded files are the first ones of the directory at any time, each of them
was executed to its end after all earlier ones had been recorded, and runs that
start later leave them alone.
-/

namespace MarketPlace.Migrations

open Interleaving EventLog

variable {all files : List String} {log past : List Event} {filename : String}
  {run : ℕ}

/-! ## Initial segments -/

section Segments

variable {α : Type} {whole earlier done : List α} {next : α}

theorem prefix_of_subset (hwhole : whole.Nodup) (hearlier : earlier <+: whole)
    (hdone : done <+: whole) (hsubset : earlier ⊆ done) : earlier <+: done := by
  rcases List.prefix_or_prefix_of_prefix hearlier hdone with hshort | hlong
  · exact hshort
  · have hnodup : earlier.Nodup := hwhole.sublist hearlier.sublist
    have hlength : earlier.length ≤ done.length :=
      (List.subperm_of_subset hnodup hsubset).length_le
    rw [hlong.eq_of_length_le hlength]

/-- What comes next comes right behind what is done, if that has everything
before it. -/
theorem eq_of_next (hwhole : whole.Nodup) (hdone : done <+: whole)
    (hnext : earlier ++ [next] <+: whole) (hsubset : earlier ⊆ done)
    (hnew : next ∉ done) : done = earlier := by
  have hmem : next ∈ earlier ++ [next] := by simp
  have hearlier : earlier <+: done :=
    prefix_of_subset hwhole ((List.prefix_append _ _).trans hnext) hdone hsubset
  rcases List.prefix_or_prefix_of_prefix hdone hnext with hshort | hlong
  · rcases List.prefix_concat_iff.mp hshort with rfl | hshort
    · exact absurd hmem hnew
    · exact hshort.eq_of_length_le hearlier.length_le
  · exact absurd (hlong.subset hmem) hnew

end Segments

/-! ## Lawful logs -/

/-- What has happened before an event. -/
def law (all : List String) (event : Event) (past : List Event) : Prop :=
  match event.step with
  | .missed => event.filename ∉ recordedNames past
  | .begun =>
      { event with step := .missed } ∈ past ∧
        ∃ earlier, earlier ++ [event.filename] <+: all ∧
          earlier ⊆ recordedNames past
  | .executed => { event with step := .begun } ∈ past
  | .recorded =>
      { event with step := .executed } ∈ past ∧
        event.filename ∉ recordedNames past

theorem recordedNames_later (hsuffix : past <:+ log) :
    recordedNames past <+: recordedNames log := by
  refine since (fun log => recordedNames past <+: recordedNames log) hsuffix
    (List.prefix_refl _) fun event before _ _ ih => ?_
  rw [recordedNames]
  split
  · exact ih.trans (List.prefix_append _ _)
  · exact ih

/-- What is recorded stays recorded. -/
theorem subset_recordedNames_later (h : files ⊆ recordedNames past)
    (hsuffix : past <:+ log) : files ⊆ recordedNames log :=
  List.Subset.trans h (recordedNames_later hsuffix).subset

/-- Before a file is executed, all earlier ones are recorded. -/
theorem earlier_of_executed (hlaw : Lawful (law all) log)
    (hexecuted : ⟨run, .executed, filename⟩ ∈ log) :
    ∃ earlier, earlier ++ [filename] <+: all ∧
      earlier ⊆ recordedNames log := by
  obtain ⟨past, hpast⟩ := exists_happened hexecuted
  obtain ⟨before, hbefore⟩ := exists_happened (hlaw _ _ hpast)
  obtain ⟨-, earlier, hall, hearlier⟩ := hlaw _ _ (hpast.trans hbefore)
  have hsuffix : before <:+ log := (hpast.trans hbefore).older
  exact ⟨earlier, hall, subset_recordedNames_later hearlier hsuffix⟩

/-- The recorded files are an initial segment of all files. -/
theorem recordedNames_initial (hall : all.Nodup)
    (hlaw : Lawful (law all) log) : recordedNames log <+: all := by
  induction log with
  | nil => exact List.nil_prefix
  | cons event past ih =>
      obtain ⟨hevent, hpast⟩ := lawful_cons.mp hlaw
      have hdone := ih hpast
      obtain ⟨run, step, filename⟩ := event
      cases step with
      | recorded =>
          obtain ⟨hexecuted, hnew⟩ := hevent
          obtain ⟨earlier, hnext, hearlier⟩ :=
            earlier_of_executed hpast hexecuted
          have hsame := eq_of_next hall hdone hnext hearlier hnew
          rw [recordedNames, hsame]
          exact hnext
      | missed => exact hdone
      | begun => exact hdone
      | executed => exact hdone

/-! ## The discipline of the runs -/

/-- The table has what was recorded. -/
structure Store.Sound (all : List String) (s : Store) : Prop where
  table : s.table.getD [] = recordedNames s.log
  lawful : Lawful (law all) s.log

def discipline (all : List String) : Discipline Store where
  invariant := Store.Sound all
  rely _ s t := s.log <:+ t.log
  guarantee _ s t := s.log <:+ t.log ∧ (s.Sound all → t.Sound all)
  rely_refl _ _ := List.suffix_refl _
  rely_trans h h' := h.trans h'
  guarantee_rely _ h := h.1
  guarantee_invariant h := h.2

/-- A run adds events of its own, and a dry run only looks. -/
structure Invocation.Adds (invocation : Invocation) (run : ℕ) (s t : Store) :
    Prop where
  grows : s.log <:+ t.log
  own : ∀ event ∈ t.log, event ∈ s.log ∨
    (event.run = run ∧ (invocation.dryRun = true → event.step = .missed))

theorem Invocation.adds_self (invocation : Invocation) (s : Store) :
    invocation.Adds run s s :=
  ⟨List.suffix_refl _, fun _ h => .inl h⟩

section Commands

variable {β : Type} {invocation : Invocation} {s : Store}
  {post : β → Store → Prop}

/-- The outline of what a run does. -/
abbrev Runs (all : List String) (invocation : Invocation) (run : ℕ)
    (program : Operation β) (post : β → Store → Prop) (s : Store) : Prop :=
  program.Meets ((discipline all).within invocation.Adds) run post
    (fun _ _ => True) s

/-- It is enough to check what a command does that works. -/
theorem psql_runs {action : ℕ → Store → Except Failure β × Store}
    (hstable : ∀ {value t u}, t.log <:+ u.log → post value t → post value u)
    (haction : ∀ t, s.log <:+ t.log → t.Sound all →
      (action run t).2.Sound all ∧ invocation.Adds run t (action run t).2 ∧
        ∀ value, (action run t).1 = .ok value → post value (action run t).2) :
    Runs all invocation run (psql action) post s := by
  intro t ht hsound ending outcome u houtcome
  obtain ⟨hsound', hadds, hpost⟩ := haction t ht hsound
  cases ending with
  | works =>
      have hsame := Option.some.inj houtcome
      rw [hsame] at hsound' hadds hpost
      refine ⟨⟨⟨hadds.grows, fun _ => hsound'⟩, hadds⟩, ?_⟩
      cases outcome with
      | ok value => exact fun v hv _ => hstable hv (hpost value rfl)
      | error failure => exact fun _ _ _ => trivial
  | fails =>
      obtain ⟨rfl, rfl⟩ := Prod.mk.inj (Option.some.inj houtcome)
      exact ⟨⟨⟨List.suffix_refl _, fun h => h⟩, invocation.adds_self _⟩,
        fun _ _ _ => trivial⟩
  | lost =>
      obtain ⟨rfl, rfl⟩ := Prod.mk.inj (Option.some.inj houtcome)
      exact ⟨⟨⟨hadds.grows, fun _ => hsound'⟩, hadds⟩, fun _ _ _ => trivial⟩

theorem Store.Sound.note {step : Step} (hsound : s.Sound all)
    (hstep : step ≠ .recorded) (hlaw : law all ⟨run, step, filename⟩ s.log) :
    (s.note ⟨run, step, filename⟩).Sound all := by
  refine ⟨?_, lawful_cons.mpr ⟨hlaw, hsound.lawful⟩⟩
  have hnames : recordedNames (⟨run, step, filename⟩ :: s.log) =
      recordedNames s.log := by
    cases step <;> first | rfl | contradiction
  exact hsound.table.trans hnames.symm

theorem adds_note {step : Step} (hdry : invocation.dryRun = true →
    step = .missed) :
    invocation.Adds run s (s.note ⟨run, step, filename⟩) := by
  refine ⟨List.suffix_cons _ _, fun event hevent => ?_⟩
  rcases List.mem_cons.mp hevent with rfl | hevent
  · exact .inr ⟨rfl, hdry⟩
  · exact .inl hevent

/-- An event that is only noted. -/
theorem note_runs {step : Step} (hdry : invocation.dryRun = true → step = .missed)
    (hstep : step ≠ .recorded)
    (hlaw : ∀ t : Store, s.log <:+ t.log →
      law all ⟨run, step, filename⟩ t.log) :
    Runs all invocation run
      (psql fun run t => (.ok (), t.note ⟨run, step, filename⟩))
      (fun _ t => s.log <:+ t.log ∧ ⟨run, step, filename⟩ ∈ t.log) s := by
  refine psql_runs (fun hlog ht => ⟨ht.1.trans hlog, hlog.subset ht.2⟩)
    fun t ht hsound => ?_
  refine ⟨hsound.note hstep (hlaw t ht), adds_note hdry,
    fun _ _ => ⟨ht.trans (List.suffix_cons _ _), List.mem_cons_self⟩⟩

theorem createTable_runs :
    Runs all invocation run createTable (fun _ _ => True) s := by
  refine psql_runs (fun _ _ => trivial) fun t _ hsound => ?_
  exact ⟨⟨hsound.table, hsound.lawful⟩, ⟨List.suffix_refl _, fun _ h => .inl h⟩,
    fun _ _ => trivial⟩

theorem selectApplied_runs :
    Runs all invocation run (selectApplied filename)
      (fun applied t => s.log <:+ t.log ∧
        (applied = true → filename ∈ recordedNames t.log) ∧
        (applied = false → ⟨run, .missed, filename⟩ ∈ t.log)) s := by
  refine psql_runs (fun hlog ht => ⟨ht.1.trans hlog, fun happlied => ?_,
    fun happlied => hlog.subset (ht.2.2 happlied)⟩) fun t ht hsound => ?_
  · exact (recordedNames_later hlog).subset (ht.2.1 happlied)
  have hsame : invocation.Adds run t t := invocation.adds_self t
  have htable := hsound.table
  cases hnames : t.table with
  | none => exact ⟨hsound, hsame, by simp⟩
  | some names =>
      rw [hnames, Option.getD_some] at htable
      by_cases hmem : filename ∈ names
      · simp only [if_pos hmem]
        refine ⟨hsound, hsame, fun applied happlied => ?_⟩
        obtain rfl := Except.ok.inj happlied
        exact ⟨ht, fun _ => htable ▸ hmem, by simp⟩
      · simp only [if_neg hmem]
        have hmissing : filename ∉ recordedNames t.log := htable ▸ hmem
        refine ⟨hsound.note (by simp) hmissing,
          adds_note fun _ => rfl, fun applied happlied => ?_⟩
        obtain rfl := Except.ok.inj happlied
        exact ⟨ht.trans (List.suffix_cons _ _), by simp,
          fun _ => List.mem_cons_self⟩

/-- A file is executed only if all earlier ones are recorded. -/
theorem executeFile_runs {earlier : List String}
    (hwet : invocation.dryRun = false)
    (hmissed : ⟨run, .missed, filename⟩ ∈ s.log)
    (hall : earlier ++ [filename] <+: all)
    (hearlier : earlier ⊆ recordedNames s.log) :
    Runs all invocation run (executeFile filename)
      (fun _ t => s.log <:+ t.log ∧ ⟨run, .executed, filename⟩ ∈ t.log) s := by
  have hdry : ∀ step : Step, invocation.dryRun = true → step = .missed := by
    simp [hwet]
  refine .seq _ (note_runs (hdry _) (by simp) fun t ht => ?_) fun _ t ht => ?_
  · exact ⟨ht.subset hmissed, earlier, hall,
      subset_recordedNames_later hearlier ht⟩
  · refine (note_runs (hdry .executed) (by simp) fun u hu =>
      hu.subset ht.2).mono
      (fun _ u hu => ⟨ht.1.trans hu.1, hu.2⟩) fun _ _ h => h

theorem insertApplied_runs (hwet : invocation.dryRun = false)
    (hexecuted : ⟨run, .executed, filename⟩ ∈ s.log) :
    Runs all invocation run (insertApplied filename)
      (fun _ t => s.log <:+ t.log ∧ filename ∈ recordedNames t.log) s := by
  refine psql_runs (fun hlog ht => ⟨ht.1.trans hlog,
    (recordedNames_later hlog).subset ht.2⟩) fun t ht hsound => ?_
  have hsame : invocation.Adds run t t := invocation.adds_self t
  have htable := hsound.table
  cases hnames : t.table with
  | none => exact ⟨hsound, hsame, by simp⟩
  | some names =>
      rw [hnames, Option.getD_some] at htable
      by_cases hmem : filename ∈ names
      · simp only [if_pos hmem]
        exact ⟨hsound, hsame, by simp⟩
      · simp only [if_neg hmem]
        have hlaw : law all ⟨run, .recorded, filename⟩ t.log :=
          ⟨ht.subset hexecuted, htable ▸ hmem⟩
        refine ⟨⟨?_, lawful_cons.mpr ⟨hlaw, hsound.lawful⟩⟩, ?_, fun _ _ => ?_⟩
        · exact congrArg (· ++ [filename]) htable
        · have hadds := @adds_note filename run invocation t .recorded
            (by simp [hwet])
          exact ⟨hadds.grows, hadds.own⟩
        · exact ⟨ht.trans (List.suffix_cons _ _),
            List.mem_append_right _ List.mem_cons_self⟩

end Commands

/-! ## The script -/

section Script

variable {invocation : Invocation} {s : Store}

theorem applyFiles_dry {dryRun : Bool} (hdry : dryRun = true) :
    Runs all invocation run (applyFiles dryRun files) (fun _ _ => True) s := by
  subst hdry
  induction files generalizing s with
  | nil => exact .done fun _ _ _ => trivial
  | cons filename rest ih =>
      refine .seq _ selectApplied_runs fun applied t _ => ?_
      cases applied with
      | true => exact .seq _ ih fun _ _ _ => .done fun _ _ _ => trivial
      | false => exact .seq _ ih fun _ _ _ => .done fun _ _ _ => trivial

/-- The induction is on the files that are left; the earlier ones are
recorded. -/
theorem applyFiles_wet {dryRun : Bool} (hdry : dryRun = false)
    (hwet : invocation.dryRun = false) {earlier : List String}
    (hall : earlier ++ files <+: all)
    (hearlier : earlier ⊆ recordedNames s.log) :
    Runs all invocation run (applyFiles dryRun files)
      (fun _ t => earlier ++ files ⊆ recordedNames t.log) s := by
  subst hdry
  induction files generalizing earlier s with
  | nil =>
      refine .done fun t ht _ => ?_
      rw [List.append_nil]
      exact subset_recordedNames_later hearlier ht
  | cons filename rest ih =>
      have hsplit : earlier ++ filename :: rest =
          (earlier ++ [filename]) ++ rest := by simp
      rw [hsplit] at hall ⊢
      have hnext : earlier ++ [filename] <+: all :=
        (List.prefix_append _ _).trans hall
      have hrest : ∀ t : Store, s.log <:+ t.log →
          filename ∈ recordedNames t.log →
          earlier ++ [filename] ⊆ recordedNames t.log := by
        intro t ht hmem
        have hstill : earlier ⊆ recordedNames t.log :=
          subset_recordedNames_later hearlier ht
        exact List.append_subset.mpr ⟨hstill, by simpa using hmem⟩
      refine .seq _ selectApplied_runs fun applied t ht => ?_
      obtain ⟨ht, hrecorded, hmissed⟩ := ht
      have hstill : earlier ⊆ recordedNames t.log :=
        subset_recordedNames_later hearlier ht
      cases applied with
      | true =>
          refine .seq _ (ih hall (hrest t ht (hrecorded rfl))) fun _ u hu => ?_
          exact .done fun v hv _ => subset_recordedNames_later hu hv
      | false =>
          refine .seq _ (executeFile_runs hwet (hmissed rfl) hnext hstill)
            fun _ u hu => ?_
          refine .seq _ (insertApplied_runs hwet hu.2) fun _ v hv => ?_
          refine .seq _ (ih hall (hrest v (ht.trans (hu.1.trans hv.1)) hv.2))
            fun _ x hx => ?_
          exact .done fun y hy _ =>
            subset_recordedNames_later hx hy

/-- The directories that later files are only added to at the end. -/
def Invocation.Within (all : List String) (invocation : Invocation)
    (_ : Store) : Prop :=
  ∀ directory, invocation.directory = some directory →
    directory.files <+: all

/-- A run that ends without an error has left nothing to do. -/
def Invocation.Completes (invocation : Invocation) (_ : List String)
    (s : Store) : Prop :=
  invocation.dryRun = false → ∀ directory,
    invocation.directory = some directory →
      directory.files ⊆ recordedNames s.log

theorem migrate_runs (hwithin : invocation.Within all s) :
    Runs all invocation run (migrate invocation)
      invocation.Completes s := by
  unfold migrate
  split
  · exact .failed fun _ _ _ => trivial
  split
  · exact .failed fun _ _ _ => trivial
  next directory hdirectory =>
  have hall := hwithin directory hdirectory
  refine .seq _ createTable_runs fun _ t _ => ?_
  split
  next hempty =>
    refine .done fun u _ _ _ other hother => ?_
    obtain rfl := Option.some.inj (hdirectory.symm.trans hother)
    rw [List.isEmpty_iff.mp hempty]
    exact List.nil_subset _
  cases hdry : invocation.dryRun with
  | true =>
      refine (applyFiles_dry rfl).mono (fun _ _ _ hwet => ?_) fun _ _ h => h
      rw [hdry] at hwet
      contradiction
  | false =>
      have hfiles : [] ++ directory.files <+: all := hall
      refine (applyFiles_wet rfl hdry hfiles (List.nil_subset _)).mono
        (fun _ u hu _ other hother => ?_) fun _ _ h => h
      obtain rfl := Option.some.inj (hdirectory.symm.trans hother)
      exact hu

end Script

/-! ## All runs -/

theorem migrations_sound (all : List String) :
    migrations.SoundWithin (discipline all) Invocation.Adds (fun _ _ => True)
      (Invocation.Within all) (fun invocation _ => invocation.Completes)
      fun _ _ _ _ => True where
  handler_meets _ _ _ hwithin _ := migrate_runs hwithin
  guarantee_fresh _ _ _ := trivial
  environment_fresh event := nomatch event
  environment_rely event := nomatch event
  environment_invariant event := nomatch event

abbrev OnSchedule (all : List String)
    (pool : Pool Invocation Ending Store Failure (List String)) : Prop :=
  System.OnCourseWithin (discipline all) Invocation.Adds (fun _ _ => True)
    (fun invocation _ => invocation.Completes) (fun _ _ _ _ => True) pool

variable {middle pool : Pool Invocation Ending Store Failure (List String)}

theorem onSchedule_fresh : OnSchedule all Pool.fresh :=
  .of_empty rfl ⟨rfl, lawful_nil⟩ fun _ => trivial

theorem onSchedule_of_reaches
    (hreach : migrations.Reaches (Invocation.Within all) Pool.fresh pool) :
    OnSchedule all pool :=
  hreach.soundWithin (migrations_sound all) onSchedule_fresh

/-- Every event is one of a run that has been started. -/
def Attributed
    (pool : Pool Invocation Ending Store Failure (List String)) : Prop :=
  ∀ event ∈ pool.state.log, ∃ thread, pool.threads[event.run]? = some thread ∧
    (thread.request.dryRun = true → event.step = .missed)

theorem attributed_of_reaches
    (hreach : migrations.Reaches (Invocation.Within all) Pool.fresh pool) :
    Attributed pool := by
  induction hreach with
  | refl => exact fun _ h => nomatch h
  | step hreach _ hperform ih =>
      have hcourse := onSchedule_of_reaches hreach
      rcases System.perform_cases hperform with
        ⟨request, -, rfl⟩ | ⟨j, w, actor, state, body, -, hactor, hadvance, rfl⟩ |
          ⟨event, -, rfl⟩
      · intro event hevent
        obtain ⟨thread, hthread, hdry⟩ := ih event hevent
        refine ⟨thread, ?_, hdry⟩
        rw [List.getElem?_append_left (List.getElem?_eq_some_iff.mp hthread).1]
        exact hthread
      · intro event hevent
        have hown := (hcourse.action hactor hadvance).2.own event hevent
        by_cases hrun : event.run = j
        · have hj := (List.getElem?_eq_some_iff.mp hactor).1
          refine ⟨⟨actor.request, body⟩, ?_, fun hdry => ?_⟩
          · rw [hrun]
            exact List.getElem?_set_self hj
          · rcases hown with hold | ⟨-, hlooks⟩
            · obtain ⟨thread, hthread, hlooks⟩ := ih event hold
              rw [hrun] at hthread
              obtain rfl := Option.some.inj (hactor.symm.trans hthread)
              exact hlooks hdry
            · exact hlooks hdry
        · have hold := hown.resolve_right fun h => hrun h.1
          obtain ⟨thread, hthread, hlooks⟩ := ih event hold
          exact ⟨thread, (List.getElem?_set_ne (Ne.symm hrun)).trans hthread,
            hlooks⟩
      · exact nomatch event

theorem log_later
    (hreach : migrations.Reaches (Invocation.Within all) Pool.fresh middle)
    (hlater : migrations.Reaches (Invocation.Within all) middle pool) :
    middle.state.log <:+ pool.state.log :=
  hlater.furtherWithin (migrations_sound all) (onSchedule_of_reaches hreach)
    (fun s => middle.state.log <:+ s.log) (List.suffix_refl _)
    (fun hadds _ h => h.trans hadds.grows) fun event => nomatch event

/-- A run that starts after a file was recorded does not find it missing. -/
theorem missed_after
    (hreach : migrations.Reaches (Invocation.Within all) Pool.fresh middle)
    (hlater : migrations.Reaches (Invocation.Within all) middle pool)
    (hnew : middle.threads.length ≤ run)
    (hmissed : ⟨run, .missed, filename⟩ ∈ pool.state.log) :
    filename ∉ recordedNames middle.state.log := by
  have hsound := (onSchedule_of_reaches (hreach.trans hlater)).invariant
  obtain ⟨past, hpast⟩ := exists_happened hmissed
  rcases hpast.mem_or_after (log_later hreach hlater) with hold | hsuffix
  · obtain ⟨thread, hthread, -⟩ := attributed_of_reaches hreach _ hold
    have hlt := (List.getElem?_eq_some_iff.mp hthread).1
    exact absurd hnew (not_le_of_gt hlt)
  · exact fun hrecorded => hsound.lawful _ _ hpast
      ((recordedNames_later hsuffix).subset hrecorded)

/-- At any time the recorded files are the first ones of the directory.  A file
is begun after all earlier ones are recorded, by a run that is no dry run and
did not start when the file was recorded already; it is recorded by a run that
has executed it to its end; and a run that ends without an error leaves every
file of its directory recorded. -/
theorem migrations_in_order (hall : all.Nodup)
    (hreach : migrations.Reaches (Invocation.Within all) Pool.fresh middle)
    (hlater : migrations.Reaches (Invocation.Within all) middle pool) :
    pool.state.table.getD [] = recordedNames pool.state.log ∧
    pool.state.table.getD [] <+: all ∧
    (∀ run filename past,
      Happened ⟨run, .begun, filename⟩ past pool.state.log →
        (∃ earlier, earlier ++ [filename] <+: all ∧
          earlier <+: recordedNames past) ∧
        (∃ thread, pool.threads[run]? = some thread ∧
          thread.request.dryRun = false) ∧
        (middle.threads.length ≤ run →
          filename ∉ middle.state.table.getD [])) ∧
    (∀ run filename past,
      Happened ⟨run, .recorded, filename⟩ past pool.state.log →
        ⟨run, .executed, filename⟩ ∈ past ∧
          recordedNames past ++ [filename] <+: all) ∧
    (∀ (run : ℕ) (invocation : Invocation) (lines : List String)
      (directory : Directory),
      pool.threads[run]? = some ⟨invocation, .done lines⟩ →
        invocation.dryRun = false → invocation.directory = some directory →
          directory.files ⊆ pool.state.table.getD []) := by
  have hcourse := onSchedule_of_reaches (hreach.trans hlater)
  have hlaw := hcourse.invariant.lawful
  have htable := hcourse.invariant.table
  refine ⟨htable, htable ▸ recordedNames_initial hall hlaw, ?_, ?_, ?_⟩
  · intro run filename past hbegun
    obtain ⟨hmissed, earlier, hnext, hearlier⟩ := hlaw _ _ hbegun
    have hinitial : earlier <+: all := (List.prefix_append _ _).trans hnext
    obtain ⟨thread, hthread, hdry⟩ :=
      attributed_of_reaches (hreach.trans hlater) _ hbegun.mem
    refine ⟨⟨earlier, hnext, prefix_of_subset hall hinitial
      (recordedNames_initial hall (hlaw.older hbegun.older)) hearlier⟩,
      ⟨thread, hthread, ?_⟩, fun hnew => ?_⟩
    · rw [Bool.eq_false_iff]
      exact fun h => absurd (hdry h) (by simp)
    · rw [(onSchedule_of_reaches hreach).invariant.table]
      exact missed_after hreach hlater hnew (hbegun.older.subset hmissed)
  · intro run filename past hrecorded
    have hupto : Lawful (law all) (⟨run, .recorded, filename⟩ :: past) :=
      hlaw.older hrecorded
    exact ⟨(hlaw _ _ hrecorded).1, recordedNames_initial hall hupto⟩
  · intro run invocation lines directory hdone hwet hdirectory
    rw [htable]
    exact hcourse.outcome hdone hwet directory hdirectory

/-! ## A deployment that adds a file -/

def deployed : List String :=
  ["0001_init.sql", "0002_products_soft_delete.sql"]

def deployment (files : List String) (distinct : files.Nodup)
    (unquoted : ∀ filename ∈ files, Char.ofNat 39 ∉ filename.toList) :
    Invocation :=
  ⟨none, some "postgres://localhost/market", "db/migrations",
    some ⟨files, distinct, unquoted⟩⟩

/-- What the first run learns last is that its connection is lost. -/
def firstRun : List (Move Invocation Ending Empty) :=
  [Move.submit (deployment ["0001_init.sql"] (by decide) (by decide))] ++
    List.replicate 4 (Move.advance 0 .works) ++
    [Move.advance 0 .lost]

def secondRun : List (Move Invocation Ending Empty) :=
  [.submit (deployment deployed (by decide) (by decide))] ++
    List.replicate 6 (.advance 1 .works)

theorem deployment_within {files : List String} {distinct : files.Nodup}
    {unquoted : ∀ filename ∈ files, Char.ofNat 39 ∉ filename.toList}
    (hfiles : files <+: all) (s : Store) :
    (deployment files distinct unquoted).Within all s := by
  intro directory hdirectory
  obtain rfl := Option.some.inj hdirectory
  exact hfiles

theorem firstRun_within :
    ∀ request ∈ firstRun.filterMap Move.submitted, ∀ s,
      request.Within deployed s := by
  intro request hrequest s
  obtain rfl : request = _ := List.mem_singleton.mp hrequest
  exact deployment_within ⟨_, rfl⟩ s

theorem secondRun_within :
    ∀ request ∈ secondRun.filterMap Move.submitted, ∀ s,
      request.Within deployed s := by
  intro request hrequest s
  obtain rfl : request = _ := List.mem_singleton.mp hrequest
  exact deployment_within (List.prefix_refl _) s

theorem migrations_in_order_sample :
    ∃ pool : Pool Invocation Ending Store Failure (List String),
      migrations.Reaches (Invocation.Within deployed) Pool.fresh pool ∧
        pool.state.table = some deployed ∧
        ∀ past, ¬ Happened ⟨1, .begun, "0001_init.sql"⟩ past pool.state.log := by
  obtain ⟨middle, hreach, hcheck⟩ := System.exists_admitted_of_run
    firstRun_within (show (migrations.run firstRun Pool.fresh).any
      (fun middle => decide (middle.state.table = some ["0001_init.sql"]) &&
        decide (middle.threads.length = 1) &&
          (migrations.run secondRun middle).any fun pool =>
            decide (pool.state.table = some deployed)) = true by
      decide +kernel)
  simp only [Bool.and_eq_true, decide_eq_true_eq, Option.any_eq_true] at hcheck
  obtain ⟨⟨htable, hlength⟩, pool, hrun, hdeployed⟩ := hcheck
  have hlater := System.Reaches.run .refl secondRun_within hrun
  refine ⟨pool, hreach.trans hlater, hdeployed, fun past hbegun => ?_⟩
  have hnew := ((migrations_in_order (by decide) hreach hlater).2.2.1 1 _ past
    hbegun).2.2 hlength.le
  simp [htable] at hnew

end MarketPlace.Migrations
