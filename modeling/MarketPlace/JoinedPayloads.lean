import MarketPlace.RoomMembership

/-!
# The payload of a joined conversation

The conversation is read once, as the user sees it whose request joins or
creates it, and is then emitted to the whole room.  A receiver gets it as its
own user sees it exactly if it is a socket of this user.
-/

namespace MarketPlace.Trade

open EventLog Interleaving

variable {app : GatewayDeployment} {now : ℕ}

/-- Every receiver got the conversation as its own user saw it at some time
since. -/
def ReceivedAsOwn (since : List Event) (emission : Emission) (g : Gateway) :
    Prop :=
  ∀ socket ∈ emission.receivers, ∃ user view,
    g.userOf socket = some user ∧ emission.payload = .joined true 200 view ∧
      SeenSince since user view g.market

/-- The pool once a request has been submitted. -/
def submitted (app : GatewayDeployment) (request : GatewayRequest)
    (pool : GatewayPool) : GatewayPool :=
  ⟨pool.state, pool.threads ++ [⟨request, request.handler app⟩]⟩

/-! ## What the request has emitted -/

section Relayed

variable {since : List Event} {request : GatewayRequest} {emission : Emission}
  {g g' : Gateway} {i : ℕ}

theorem Relayed.kept (h : Relayed since request emission g)
    (hgrows : g.Grows g') : Relayed since request emission g' := by
  intro hevent
  obtain ⟨view, hpayload, hroom, hshows⟩ := h hevent
  exact ⟨view, hpayload, hroom,
    (stable_shows since request view).kept hgrows hshows⟩

/-- Everything that request `i` has emitted is as it should be. -/
def AllRelayed (since : List Event) (request : GatewayRequest) (i : ℕ)
    (g : Gateway) : Prop :=
  ∀ emission ∈ g.emissions, emission.actor = i →
    Relayed since request emission g

theorem AllRelayed.emits (h : AllRelayed since request i g)
    (hemits : Emits since request i g g') (hsound : g.Sound) :
    AllRelayed since request i g' := by
  intro emission hemission hactor
  have hgrows := hemits.step.grows hsound
  rcases hemits.emissions emission hemission with hold | ⟨-, hrelayed⟩
  · exact (h emission hold hactor).kept hgrows
  · exact hrelayed.kept hgrows

theorem AllRelayed.others (h : AllRelayed since request i g) {j : ℕ}
    (hne : j ≠ i) (hstep : GatewayStep j g g') (hsound : g.Sound) :
    AllRelayed since request i g' := by
  intro emission hemission hactor
  rcases hstep.actor emission hemission with hold | hother
  · exact (h emission hold hactor).kept (hstep.grows hsound)
  · exact absurd (hother.symm.trans hactor) hne

theorem AllRelayed.surroundings (h : AllRelayed since request i g)
    (event : GatewaySurroundings) :
    AllRelayed since request i (g.surroundings event) := by
  intro emission hemission hactor
  rw [Gateway.emissions_surroundings] at hemission
  exact (h emission hemission hactor).kept (g.rely_surroundings event i).grows

end Relayed

section Runs

variable {start later : GatewayPool} {request : GatewayRequest}

theorem reaches_submitted
    (hreach : (gateway app).Reaches (fun _ _ => True)
      (GatewayPool.opening now) start) :
    (gateway app).Reaches (fun _ _ => True) (GatewayPool.opening now)
      (submitted app request start) := by
  have hperform : (gateway app).perform (.submit request) start =
      some (submitted app request start) := rfl
  exact .step hreach (fun _ _ => trivial) hperform

theorem allRelayed_of_reaches
    (hreach : (gateway app).Reaches (fun _ _ => True)
      (GatewayPool.opening now) start)
    (hlater : (gateway app).Reaches (fun _ _ => True)
      (submitted app request start) later) :
    AllRelayed start.state.market.history request start.threads.length
      later.state := by
  have hcourse := gateway_onCourse hreach
  have hfresh := hcourse.fresh _ (Nat.le_refl start.threads.length)
  have hthread : (submitted app request start).threads[start.threads.length]? =
      some ⟨request, request.handler app⟩ := by
    simp [submitted]
  refine (hlater.thread_within gateway_sound
    (gateway_onCourse (reaches_submitted hreach)) hthread
    (request.handler_meets hfresh (List.suffix_refl _))
    (AllRelayed start.state.market.history request start.threads.length)
    ?_ ?_ ?_ ?_).2
  · exact fun emission hemission hactor =>
      absurd hactor (hfresh.emissions emission hemission)
  · exact fun hemits hsound h => h.emits hemits hsound
  · exact fun hne hguarantee _ h => h.others hne hguarantee.2 hguarantee.1
  · exact fun event _ _ h => h.surroundings event

/-- A participant that sees what the acting user saw is the acting user. -/
theorem actsAs_of_receivedAsOwn
    (hreach : (gateway app).Reaches (fun _ _ => True)
      (GatewayPool.opening now) start)
    (hlater : (gateway app).Reaches (fun _ _ => True)
      (submitted app request start) later)
    {emission : Emission} (hemission : emission ∈ later.state.emissions)
    (hactor : emission.actor = start.threads.length)
    (hevent : emission.event = .conversationJoined)
    (hown : ReceivedAsOwn start.state.market.history emission later.state) :
    ∀ socket ∈ emission.receivers,
      later.state.userOf socket = request.actsAs later.state := by
  intro socket hsocket
  obtain ⟨view, hpayload, -, user, hacts, hseen, row, hrow, hin⟩ :=
    allRelayed_of_reaches hreach hlater emission hemission hactor hevent
  obtain ⟨receiver, shown, hreceiver, hshown, hseen'⟩ := hown socket hsocket
  rw [hpayload] at hshown
  obtain rfl := (WsPayload.joined.inj hshown).2.2
  have hsound : later.state.Sound :=
    (gateway_onCourse ((reaches_submitted hreach).trans hlater)).invariant
  obtain ⟨other, hother, row', hrow', hin'⟩ :=
    (hsound.emissions emission hemission).2 socket hsocket
  obtain rfl := Option.some.inj (hreceiver.symm.trans hother)
  rw [hpayload] at hrow'
  obtain rfl := Option.some.inj (hrow.symm.trans hrow')
  obtain ⟨first, hfirst, hpeer⟩ := hseen.peer hsound.market
  obtain ⟨second, hsecond, hpeer'⟩ := hseen'.peer hsound.market
  obtain rfl := Option.some.inj (hrow.symm.trans hfirst)
  obtain rfl := Option.some.inj (hrow.symm.trans hsecond)
  have hsame : user = receiver :=
    eq_of_peerOf_eq hin hin' (hpeer.symm.trans hpeer')
  rw [hreceiver, hacts, hsame]

/-- Every receiver of a joined conversation gets it as its own user sees it if
and only if every receiver is a socket of the user whose request it was. -/
theorem received_as_own_iff
    (hreach : (gateway app).Reaches (fun _ _ => True)
      (GatewayPool.opening now) start)
    (hlater : (gateway app).Reaches (fun _ _ => True)
      (submitted app request start) later)
    {emission : Emission} (hemission : emission ∈ later.state.emissions)
    (hactor : emission.actor = start.threads.length)
    (hevent : emission.event = .conversationJoined) :
    ReceivedAsOwn start.state.market.history emission later.state ↔
      ∀ socket ∈ emission.receivers,
        later.state.userOf socket = request.actsAs later.state := by
  constructor
  · exact actsAs_of_receivedAsOwn hreach hlater hemission hactor hevent
  · intro hsockets socket hsocket
    obtain ⟨view, hpayload, -, user, hacts, hseen, -⟩ :=
      allRelayed_of_reaches hreach hlater emission hemission hactor hevent
    exact ⟨user, view, (hsockets socket hsocket).trans hacts, hpayload, hseen⟩

end Runs

/-! ## Two joins to run -/

/-- The conversation of a join by socket 1 that went to exactly these
sockets. -/
def joinedBy (i : ℕ) (receivers : List ℕ) (emission : Emission) : Bool :=
  emission.actor = i && emission.event = .conversationJoined &&
    emission.receivers = receivers

/-- After these moves socket 1 joins conversation 1, which is emitted to
exactly these sockets. -/
def joinsAfter (moves : List GatewayMove) (receivers : List ℕ) : Bool :=
  ((gateway sampleGateway).run moves (GatewayPool.opening 0)).any fun start =>
    ((gateway sampleGateway).run
      (List.replicate 9 (.advance start.threads.length gatewayDraw))
      (submitted sampleGateway (.joinConversation 1 1) start)).any fun later =>
        decide (later.state.userOf 1 = some 1) &&
          decide (later.state.userOf 2 = some 2) &&
            later.state.emissions.any
              (joinedBy start.threads.length receivers)

theorem exists_joined {moves : List GatewayMove} {receivers : List ℕ}
    (h : joinsAfter moves receivers = true) :
    ∃ (start later : GatewayPool) (emission : Emission), (gateway sampleGateway).Reaches (fun _ _ => True)
        (GatewayPool.opening 0) start ∧
      (gateway sampleGateway).Reaches (fun _ _ => True)
        (submitted sampleGateway (.joinConversation 1 1) start) later ∧
      emission ∈ later.state.emissions ∧
      emission.actor = start.threads.length ∧
      emission.event = .conversationJoined ∧ emission.receivers = receivers ∧
      later.state.userOf 1 = some 1 ∧ later.state.userOf 2 = some 2 := by
  obtain ⟨start, hreach, hstart⟩ := System.exists_reaches_of_run h
  obtain ⟨later, hlater, hcheck⟩ := System.exists_reaches_of_run hstart
  simp only [Bool.and_eq_true, decide_eq_true_eq, List.any_eq_true] at hcheck
  obtain ⟨⟨hone, htwo⟩, emission, hemission, hjoined⟩ := hcheck
  simp only [joinedBy, Bool.and_eq_true, decide_eq_true_eq] at hjoined
  exact ⟨start, later, emission, hreach, hlater, hemission, hjoined.1.1,
    hjoined.1.2, hjoined.2, hone, htwo⟩

theorem received_as_own_iff_alone :
    ∃ (start later : GatewayPool) (emission : Emission), (gateway sampleGateway).Reaches (fun _ _ => True)
        (GatewayPool.opening 0) start ∧
      (gateway sampleGateway).Reaches (fun _ _ => True)
        (submitted sampleGateway (.joinConversation 1 1) start) later ∧
      emission ∈ later.state.emissions ∧ emission.receivers = [1] ∧
      ReceivedAsOwn start.state.market.history emission later.state := by
  obtain ⟨start, later, emission, hreach, hlater, hemission, hactor, hevent,
      hreceivers, -, -⟩ :=
    exists_joined (show joinsAfter connectBoth [1] = true by decide +kernel)
  refine ⟨start, later, emission, hreach, hlater, hemission, hreceivers,
    (received_as_own_iff hreach hlater hemission hactor hevent).mpr ?_⟩
  rw [hreceivers]
  exact List.forall_mem_singleton.mpr rfl

/-- Socket 2 is in the room when socket 1 joins. -/
theorem not_always_received_as_own :
    ¬ ∀ (start later : GatewayPool) (request : GatewayRequest)
      (emission : Emission),
      (gateway sampleGateway).Reaches (fun _ _ => True)
        (GatewayPool.opening 0) start →
      (gateway sampleGateway).Reaches (fun _ _ => True)
        (submitted sampleGateway request start) later →
      emission ∈ later.state.emissions →
      emission.actor = start.threads.length →
      emission.event = .conversationJoined →
      ReceivedAsOwn start.state.market.history emission later.state := by
  intro halways
  obtain ⟨start, later, emission, hreach, hlater, hemission, hactor, hevent,
      hreceivers, hone, htwo⟩ :=
    exists_joined (show joinsAfter
      (connectBoth ++ performs 3 9 (.joinConversation 2 1)) [2, 1] = true by
        decide +kernel)
  have hown := halways start later _ emission hreach hlater hemission hactor
    hevent
  have hsame : later.state.userOf 2 = later.state.userOf 1 :=
    actsAs_of_receivedAsOwn hreach hlater hemission hactor hevent hown 2
      (by simp [hreceivers])
  rw [hone, htwo] at hsame
  contradiction

end MarketPlace.Trade
