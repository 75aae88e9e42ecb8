import MarketPlace.LoneRuns

/-!
# Lone runs that do not look

A function on states forgets a part of the state.  A program is blind to that
part if it runs on what is left of a state as it runs on the state itself; its
results are then the same in any two states with the same rest.

Nothing here depends on what the state or the programs are.
-/

namespace Interleaving.Program

variable {ω σ ε α β γ : Type}

/-- Under allowed outcomes and from a state that meets `Pre`, the program has
the same runs after the forgetting as before it, and each ends as `Post`
says. -/
def Blind (i : ℕ) (allowed : ω → Prop) (forget : σ → σ) (Pre : σ → Prop)
    (program : Program ω σ ε α) (Post : Except ε α → σ → Prop) : Prop :=
  ∀ ws s, (∀ w ∈ ws, allowed w) → Pre s →
    (∀ result u, program.Ends i ws (forget s) result u ↔
      ∃ t, program.Ends i ws s result t ∧ u = forget t) ∧
    ∀ result t, program.Ends i ws s result t → Post result t

variable {i : ℕ} {allowed : ω → Prop} {forget : σ → σ} {Pre Pre' : σ → Prop}
  {program : Program ω σ ε α} {Mid Post Post' : Except ε α → σ → Prop}

theorem Blind.weaken (h : Blind i allowed forget Pre program Post)
    (hpre : ∀ s, Pre' s → Pre s)
    (hpost : ∀ result s, Post result s → Post' result s) :
    Blind i allowed forget Pre' program Post' := by
  intro ws s hws hs
  obtain ⟨hruns, hends⟩ := h ws s hws (hpre s hs)
  exact ⟨hruns, fun result t ht => hpost result t (hends result t ht)⟩

/-- A condition that does not mention the state is known in the program. -/
theorem Blind.given {fact : Prop}
    (h : fact → Blind i allowed forget Pre program Post) :
    Blind i allowed forget (fun s => Pre s ∧ fact) program Post :=
  fun ws s hws hs => h hs.2 ws s hws hs.1

theorem blind_done {value : α} (hpost : ∀ s, Pre s → Post (.ok value) s) :
    Blind i allowed forget Pre (.done value : Program ω σ ε α) Post := by
  intro ws s hws hs
  constructor
  · intro result u
    constructor
    · rintro ⟨rfl, rfl, rfl⟩
      exact ⟨s, ⟨rfl, rfl, rfl⟩, rfl⟩
    · rintro ⟨t, ⟨rfl, rfl, rfl⟩, rfl⟩
      exact ⟨rfl, rfl, rfl⟩
  · rintro result t ⟨-, rfl, rfl⟩
    exact hpost t hs

theorem blind_failed {error : ε} (hpost : ∀ s, Pre s → Post (.error error) s) :
    Blind i allowed forget Pre (.failed error : Program ω σ ε α) Post := by
  intro ws s hws hs
  constructor
  · intro result u
    constructor
    · rintro ⟨rfl, rfl, rfl⟩
      exact ⟨s, ⟨rfl, rfl, rfl⟩, rfl⟩
    · rintro ⟨t, ⟨rfl, rfl, rfl⟩, rfl⟩
      exact ⟨rfl, rfl, rfl⟩
  · rintro result t ⟨-, rfl, rfl⟩
    exact hpost t hs

/-- An action is blind if it does on the rest what it does on the state. -/
theorem blind_atomic {action : ℕ → ω → σ → Option (γ × σ)}
    {next : γ → Program ω σ ε α} (After : γ → σ → Prop)
    (haction : ∀ w s, allowed w → Pre s →
      action i w (forget s) =
        (action i w s).map fun done => (done.1, forget done.2))
    (hafter : ∀ w s outcome t, allowed w → Pre s →
      action i w s = some (outcome, t) → After outcome t)
    (hnext : ∀ outcome,
      Blind i allowed forget (After outcome) (next outcome) Post) :
    Blind i allowed forget Pre (.atomic action next) Post := by
  intro ws s hws hs
  constructor
  · intro result u
    constructor
    · rintro ⟨w, rest, outcome, v, rfl, hacts, hrest⟩
      obtain ⟨hw, hallowed⟩ := List.forall_mem_cons.mp hws
      rw [haction w s hw hs] at hacts
      obtain ⟨⟨outcome', v'⟩, hsome, hsame⟩ := Option.map_eq_some_iff.mp hacts
      obtain ⟨rfl, rfl⟩ := Prod.mk.inj hsame
      have hmid := hafter w s outcome' v' hw hs hsome
      obtain ⟨t, ht, rfl⟩ :=
        ((hnext outcome' rest v' hallowed hmid).1 result u).mp hrest
      exact ⟨t, ⟨w, rest, outcome', v', rfl, hsome, ht⟩, rfl⟩
    · rintro ⟨t, ⟨w, rest, outcome, v, rfl, hsome, ht⟩, rfl⟩
      obtain ⟨hw, hallowed⟩ := List.forall_mem_cons.mp hws
      have hmid := hafter w s outcome v hw hs hsome
      refine ⟨w, rest, outcome, forget v, rfl, ?_, ?_⟩
      · rw [haction w s hw hs, hsome]
        rfl
      · exact ((hnext outcome rest v hallowed hmid).1 result _).mpr
          ⟨t, ht, rfl⟩
  · rintro result t ⟨w, rest, outcome, v, rfl, hsome, ht⟩
    obtain ⟨hw, hallowed⟩ := List.forall_mem_cons.mp hws
    have hmid := hafter w s outcome v hw hs hsome
    exact (hnext outcome rest v hallowed hmid).2 result t ht

/-- Sequencing: an error of the first program is an error of both. -/
theorem Blind.bind {next : α → Program ω σ ε β}
    {Last : Except ε β → σ → Prop}
    (h : Blind i allowed forget Pre program Mid)
    (hnext : ∀ value,
      Blind i allowed forget (Mid (.ok value)) (next value) Last)
    (herror : ∀ error s, Mid (.error error) s → Last (.error error) s) :
    Blind i allowed forget Pre (program >>= next) Last := by
  intro ws s hws hs
  constructor
  · intro result u
    constructor
    · intro hends
      rcases ends_bind.mp hends with
        ⟨error, rfl, hfails⟩ | ⟨first, rest, value, v, rfl, hfirst, hrest⟩
      · obtain ⟨t, ht, rfl⟩ := ((h ws s hws hs).1 _ u).mp hfails
        exact ⟨t, ends_bind.mpr (.inl ⟨error, rfl, ht⟩), rfl⟩
      · obtain ⟨hws₁, hws₂⟩ := List.forall_mem_append.mp hws
        obtain ⟨hruns, hmid⟩ := h first s hws₁ hs
        obtain ⟨v', hv', rfl⟩ := (hruns _ v).mp hfirst
        obtain ⟨t, ht, rfl⟩ :=
          ((hnext value rest v' hws₂ (hmid _ _ hv')).1 _ u).mp hrest
        exact ⟨t, ends_bind.mpr (.inr ⟨first, rest, value, v', rfl, hv', ht⟩),
          rfl⟩
    · rintro ⟨t, hends, rfl⟩
      rcases ends_bind.mp hends with
        ⟨error, rfl, hfails⟩ | ⟨first, rest, value, v, rfl, hfirst, hrest⟩
      · have hfails' := ((h ws s hws hs).1 _ _).mpr ⟨t, hfails, rfl⟩
        exact ends_bind.mpr (.inl ⟨error, rfl, hfails'⟩)
      · obtain ⟨hws₁, hws₂⟩ := List.forall_mem_append.mp hws
        obtain ⟨hruns, hmid⟩ := h first s hws₁ hs
        have hfirst' := (hruns _ _).mpr ⟨v, hfirst, rfl⟩
        have hrest' := ((hnext value rest v hws₂ (hmid _ _ hfirst)).1 _ _).mpr
          ⟨t, hrest, rfl⟩
        exact ends_bind.mpr
          (.inr ⟨first, rest, value, forget v, rfl, hfirst', hrest'⟩)
  · intro result t hends
    rcases ends_bind.mp hends with
      ⟨error, rfl, hfails⟩ | ⟨first, rest, value, v, rfl, hfirst, hrest⟩
    · exact herror error t ((h ws s hws hs).2 _ _ hfails)
    · obtain ⟨hws₁, hws₂⟩ := List.forall_mem_append.mp hws
      have hmid := (h first s hws₁ hs).2 _ _ hfirst
      exact (hnext value rest v hws₂ hmid).2 _ _ hrest

/-- Recovery: a value of the program is a value of both. -/
theorem Blind.recover {handler : ε → Program ω σ ε α}
    (h : Blind i allowed forget Pre program Mid)
    (hhandler : ∀ error,
      Blind i allowed forget (Mid (.error error)) (handler error) Post)
    (hvalue : ∀ value s, Mid (.ok value) s → Post (.ok value) s) :
    Blind i allowed forget Pre (program.recover handler) Post := by
  intro ws s hws hs
  constructor
  · intro result u
    constructor
    · intro hends
      rcases ends_recover.mp hends with
        ⟨value, rfl, hok⟩ | ⟨first, rest, error, v, rfl, hfirst, hrest⟩
      · obtain ⟨t, ht, rfl⟩ := ((h ws s hws hs).1 _ u).mp hok
        exact ⟨t, ends_recover.mpr (.inl ⟨value, rfl, ht⟩), rfl⟩
      · obtain ⟨hws₁, hws₂⟩ := List.forall_mem_append.mp hws
        obtain ⟨hruns, hmid⟩ := h first s hws₁ hs
        obtain ⟨v', hv', rfl⟩ := (hruns _ v).mp hfirst
        obtain ⟨t, ht, rfl⟩ :=
          ((hhandler error rest v' hws₂ (hmid _ _ hv')).1 _ u).mp hrest
        exact ⟨t, ends_recover.mpr
          (.inr ⟨first, rest, error, v', rfl, hv', ht⟩), rfl⟩
    · rintro ⟨t, hends, rfl⟩
      rcases ends_recover.mp hends with
        ⟨value, rfl, hok⟩ | ⟨first, rest, error, v, rfl, hfirst, hrest⟩
      · have hok' := ((h ws s hws hs).1 _ _).mpr ⟨t, hok, rfl⟩
        exact ends_recover.mpr (.inl ⟨value, rfl, hok'⟩)
      · obtain ⟨hws₁, hws₂⟩ := List.forall_mem_append.mp hws
        obtain ⟨hruns, hmid⟩ := h first s hws₁ hs
        have hfirst' := (hruns _ _).mpr ⟨v, hfirst, rfl⟩
        have hrest' :=
          ((hhandler error rest v hws₂ (hmid _ _ hfirst)).1 _ _).mpr
            ⟨t, hrest, rfl⟩
        exact ends_recover.mpr
          (.inr ⟨first, rest, error, forget v, rfl, hfirst', hrest'⟩)
  · intro result t hends
    rcases ends_recover.mp hends with
      ⟨value, rfl, hok⟩ | ⟨first, rest, error, v, rfl, hfirst, hrest⟩
    · exact hvalue value t ((h ws s hws hs).2 _ _ hok)
    · obtain ⟨hws₁, hws₂⟩ := List.forall_mem_append.mp hws
      have hmid := (h first s hws₁ hs).2 _ _ hfirst
      exact (hhandler error rest v hws₂ hmid).2 _ _ hrest

/-- The result of a blind program is the same in two states of which the same
is left, and the same is left of the states that it ends in. -/
theorem Blind.ends_of_forget_eq {s s' t : σ} {ws : List ω}
    {result : Except ε α} (h : Blind i allowed forget Pre program Post)
    (hws : ∀ w ∈ ws, allowed w) (hs : Pre s) (hs' : Pre s')
    (hsame : forget s = forget s') (hends : program.Ends i ws s result t) :
    ∃ t', program.Ends i ws s' result t' ∧ forget t = forget t' ∧
      Post result t ∧ Post result t' := by
  obtain ⟨hruns, hpost⟩ := h ws s hws hs
  obtain ⟨hruns', hpost'⟩ := h ws s' hws hs'
  have hleft := (hruns result (forget t)).mpr ⟨t, hends, rfl⟩
  rw [hsame] at hleft
  obtain ⟨t', ht', hforget⟩ := (hruns' result (forget t)).mp hleft
  exact ⟨t', ht', hforget, hpost _ _ hends, hpost' _ _ ht'⟩

/-! ## Keeping an invariant -/

/-- The invariant holds, and a value that is returned is as it should be. -/
def Gives (Inv : σ → Prop) (good : α → Prop) (result : Except ε α) (s : σ) :
    Prop :=
  Inv s ∧ ∀ value, result = .ok value → good value

section Keeping

variable {Inv : σ → Prop} {good : α → Prop} {good' : β → Prop}

theorem blind_value {value : α} (hgood : good value) :
    Blind i allowed forget Inv (.done value : Program ω σ ε α)
      (Gives Inv good) := by
  refine blind_done fun s hs => ⟨hs, fun other hother => ?_⟩
  obtain rfl := Except.ok.inj hother
  exact hgood

theorem blind_error {error : ε} :
    Blind i allowed forget Inv (.failed error : Program ω σ ε α)
      (Gives Inv good) :=
  blind_failed fun _ hs => ⟨hs, fun _ hother => by contradiction⟩

theorem Blind.andThen {next : α → Program ω σ ε β}
    (h : Blind i allowed forget Pre program (Gives Inv good))
    (hnext : ∀ value, good value →
      Blind i allowed forget Inv (next value) (Gives Inv good')) :
    Blind i allowed forget Pre (program >>= next) (Gives Inv good') := by
  refine h.bind (fun value => ?_) fun error s hs =>
    ⟨hs.1, fun _ hother => by contradiction⟩
  exact (Blind.given (hnext value)).weaken
    (fun s hs => ⟨hs.1, hs.2 value rfl⟩) fun _ _ => id

theorem Blind.orElse {handler : ε → Program ω σ ε α}
    (h : Blind i allowed forget Inv program (Gives Inv good))
    (hhandler : ∀ error,
      Blind i allowed forget Inv (handler error) (Gives Inv good)) :
    Blind i allowed forget Inv (program.recover handler) (Gives Inv good) :=
  h.recover (fun error => (hhandler error).weaken (fun _ hs => hs.1)
    fun _ _ => id) fun _ _ => id

theorem Blind.forgetValue {good₂ : α → Prop}
    (h : Blind i allowed forget Inv program (Gives Inv good))
    (hgood : ∀ value, good value → good₂ value) :
    Blind i allowed forget Inv program (Gives Inv good₂) :=
  h.weaken (fun _ => id) fun _ _ hs =>
    ⟨hs.1, fun value hvalue => hgood value (hs.2 value hvalue)⟩

end Keeping

end Interleaving.Program
