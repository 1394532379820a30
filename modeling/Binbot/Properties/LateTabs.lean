import Binbot.Properties.ClientTraffic
import Binbot.Server.TradeRules

/-!
# Late tabs

A tab that connects late is sent the bridge's recent trades, a tab that has been there all
along was told of each trade as it was closed. Both show the same, however many trades there
have been: the bridge's window is longer than a tab's, and the two orders and the two ways of
trimming come to the same list. A trade is told of by a broadcast, though, and a broadcast
comes to an end when the set of clients changes under it.

Strategy:
1. The contracts of the workers say at each suspension what has been recorded and told of.
2. The invariant ties each tab's list to the trades that its connection has been told of,
   with the backfill that is on its way.
3. One lemma for each kind of step, and the rule for runs.
-/
namespace Binbot

open Async Data

theorem RecentInStep.of_same {recovered : List ClosedTrade} {s t : BridgeMemory}
    (inStep : RecentInStep recovered s) (tracker : t.tracker = s.tracker)
    (recent : t.desk.closedTradesRecent = s.desk.closedTradesRecent) :
    RecentInStep recovered t := by
  rw [RecentInStep, recent, tracker]
  exact inStep

namespace Worker

variable {worker : Worker} {recovered : List ClosedTrade} {w : List ClosedTrade}
  {s t : BridgeMemory}

/-- The worker stands under the contract about closed trades. -/
abbrev StandsBy (recovered : List ClosedTrade) (worker : Worker) (w : List ClosedTrade)
    (s : BridgeMemory) (work : Work) : Prop :=
  work.Stands (worker.tradeRules recovered) (worker.TradeEnds recovered) w s

/-- What a worker's segment leaves as it is. -/
structure Retains (worker : Worker) (s t : BridgeMemory) : Prop where
  clients : t.desk.clients = s.desk.clients
  grows : s.tracker.closedTrades <+: t.tracker.closedTrades
  beside : worker ≠ .dispatcher → t.tracker = s.tracker ∧
    t.desk.closedTradesRecent = s.desk.closedTradesRecent

theorem Retains.refl (worker : Worker) (s : BridgeMemory) : worker.Retains s s :=
  ⟨rfl, List.prefix_rfl, fun _ => ⟨rfl, rfl⟩⟩

theorem Retains.trans {u : BridgeMemory} (first : worker.Retains s t)
    (second : worker.Retains t u) : worker.Retains s u :=
  ⟨second.clients.trans first.clients, first.grows.trans second.grows, fun beside =>
    ⟨(second.beside beside).1.trans (first.beside beside).1,
      (second.beside beside).2.trans (first.beside beside).2⟩⟩

theorem retains_of_guar (written : (worker.tradeRules recovered).guar s t) :
    worker.Retains s t := by
  cases worker with
  | dispatcher => exact ⟨written.1, written.2, fun beside => absurd rfl beside⟩
  | background n => exact ⟨written.1, written.2.1 ▸ List.prefix_rfl, fun _ => written.2⟩
  | client id => exact ⟨written.1, written.2.1 ▸ List.prefix_rfl, fun _ => written.2⟩

theorem alone_tradeRules (worker : Worker) : Alone (worker.tradeRules recovered) := by
  constructor
  · intro message w s issue
    cases worker with
    | dispatcher => exact ⟨_, rfl, rfl, rfl⟩
    | background n => exact ⟨w, trivial⟩
    | client id => exact ⟨[], rfl⟩
  · exact fun written => (retains_of_guar written).clients

/-- A segment retains what its writes retain. -/
theorem retains_of_obeys {program : Coro BridgeMemory bridgeSig Unit}
    (obeys : program.Obeys (worker.tradeRules recovered) (worker.TradeEnds recovered) w s) :
    worker.Retains s (Stand.of program s).memory :=
  Stand.memory_of_contract worker.alone_tradeRules worker.Retains (Retains.refl worker)
    Retains.trans retains_of_guar obeys

/-- The other workers care for nothing that the memory holds. -/
theorem StandsBy.beside {work : Work} (beside : worker ≠ .dispatcher)
    (stands : worker.StandsBy recovered w s work) : worker.StandsBy recovered w t work := by
  cases worker with
  | dispatcher => exact absurd rfl beside
  | background n =>
    cases work with
    | idle => exact ⟨.ok (), trivial⟩
    | sweeping sweep next => exact stands
    | waiting q next => exact stands
  | client id =>
    cases work with
    | idle => exact stands
    | sweeping sweep next => exact stands
    | waiting q next => exact stands

/-- The dispatcher cares for the trades. -/
theorem StandsBy.same {work : Work} (tracker : t.tracker = s.tracker)
    (recent : t.desk.closedTradesRecent = s.desk.closedTradesRecent)
    (stands : Worker.dispatcher.StandsBy recovered w s work) :
    Worker.dispatcher.StandsBy recovered w t work := by
  cases work with
  | idle =>
    obtain ⟨r, told, inStep⟩ := stands
    exact ⟨r, by rw [tracker, told], inStep.of_same tracker recent⟩
  | sweeping sweep next =>
    obtain ⟨⟨single, live, closed, inStep⟩, goes⟩ := stands
    refine ⟨⟨single, live, by rw [tracker, closed], inStep.of_same tracker recent⟩, ?_⟩
    rintro r w' s' ⟨tracker', recent', rfl⟩
    exact goes r _ s' ⟨tracker'.trans tracker, recent'.trans recent, by rw [tracker]⟩
  | waiting q next =>
    obtain ⟨elsewhere, ⟨single, live, closed, inStep⟩, goes⟩ := stands
    refine ⟨elsewhere, ⟨single, live, by rw [tracker, closed], inStep.of_same tracker recent⟩, ?_⟩
    rintro r w' s' ⟨tracker', recent', rfl⟩
    exact goes r _ s' ⟨tracker'.trans tracker, recent'.trans recent, by rw [tracker]⟩

/-- At each suspension the recent trades are in step. -/
theorem StandsBy.inStep {work : Work} (stands : Worker.dispatcher.StandsBy recovered w s work) :
    RecentInStep recovered s := by
  cases work with
  | idle =>
    obtain ⟨r, -, inStep⟩ := stands
    exact inStep
  | sweeping sweep next => exact stands.1.2.2.2
  | waiting q next => exact stands.2.1.2.2.2

/-- What the dispatcher has not told of it is telling. -/
theorem StandsBy.closed {work : Work} (stands : Worker.dispatcher.StandsBy recovered w s work)
    {clients : LiveSet ClientId} {client : ClientId}
    (listed : ∀ sweep next, work = .sweeping sweep next →
      client ∈ sweep.client :: clients.remaining sweep.cursor) :
    s.tracker.closedTrades = w ++ work.due clients client := by
  cases work with
  | idle =>
    obtain ⟨r, told, -⟩ := stands
    rw [told]
    simp only [Work.due, List.append_nil]
  | sweeping sweep next =>
    rw [stands.1.2.2.1, Work.due, if_pos (listed sweep next rfl)]
    rfl
  | waiting q next =>
    obtain ⟨elsewhere, ⟨single, -, closed, -⟩, -⟩ := stands
    have none_ : q.trades = [] := by
      cases q with
      | broadcast message => exact absurd rfl (elsewhere message)
      | send client message => exact absurd rfl (single client message)
      | _ => rfl
    rw [closed, none_]
    rfl

/-- A client's worker waits for the send of what its backfill is still to tell. -/
theorem StandsBy.trades {id : ClientId} {work : Work}
    (stands : (Worker.client id).StandsBy recovered w s work) : work.trades = w := by
  cases work with
  | idle =>
    obtain ⟨r, caught⟩ := stands
    exact caught.symm
  | sweeping sweep next =>
    obtain ⟨⟨message, same, -⟩, -⟩ := stands
    cases same
  | waiting q next =>
    obtain ⟨-, ⟨message, rfl, missed, -⟩, -⟩ := stands
    exact missed

theorem StandsBy.trades_eq_nil {id : ClientId} {work : Work}
    (stands : (Worker.client id).StandsBy recovered w s work)
    (through : work.backfilling = none) : work.trades = [] := by
  cases work with
  | idle => rfl
  | sweeping sweep next => rfl
  | waiting q next =>
    obtain ⟨-, ⟨message, rfl, missed, quiet | ⟨rfl, -⟩⟩, -⟩ := stands
    · exact quiet.trades
    · cases through

end Worker

namespace ClientDesk

variable {d : ClientDesk}

/-- A closed trade is being broadcast. -/
def Telling (d : ClientDesk) : Prop :=
  ∃ sweep next, d.work .dispatcher = .sweeping sweep next ∧ sweep.message.trades ≠ []

instance (d : ClientDesk) : Decidable d.Telling :=
  match work : d.work .dispatcher with
  | .sweeping sweep next => decidable_of_iff (sweep.message.trades ≠ [])
    ⟨fun some_ => ⟨sweep, next, work, some_⟩, fun ⟨_, _, same, some_⟩ => by
      cases work.symm.trans same
      exact some_⟩
  | .idle | .waiting _ _ => .isFalse fun ⟨_, _, sweeping, _⟩ => by cases work.symm.trans sweeping

theorem due_eq_nil (silent : ¬ d.Telling) (clients : LiveSet ClientId) (client : ClientId) :
    (d.work .dispatcher).due clients client = [] := by
  cases work : d.work .dispatcher with
  | sweeping sweep next =>
    have none_ : sweep.message.trades = [] := by
      by_contra some_
      exact silent ⟨sweep, next, work, some_⟩
    rw [Work.due, none_, ite_self]
  | _ => rfl

theorem arrives_sent (d : ClientDesk) (worker : Worker) (ok : Bool)
    (layout : Option (List (Option ClientId))) :
    d.arrives (.sent worker ok layout) = if ok then (d.work worker).sending else none := by
  cases ok <;> rfl

end ClientDesk

namespace TabDesk

variable {bridge : ClientBridge} {shown : TabId → List ClosedTrade} {t u : TabDesk}

-- ═══════════════════════════════════════════════════════════════
-- What a tab should show
-- ═══════════════════════════════════════════════════════════════

/-- All closed trades that the bridge knows of, the newest last. -/
def all (t : TabDesk) : List ClosedTrade :=
  t.desk.recovered ++ t.desk.memory.tracker.closedTrades

/-- The tab's connection is among the clients, and no send to it has failed. -/
structure Listening (t : TabDesk) (tab : TabId) (client : ClientId) : Prop where
  connected : t.connection tab = some client
  member : client ∈ t.desk.memory.desk.clients.members
  healthy : client ∉ t.desk.failed

/-- What the tab will show once the backfill of its connection is through. -/
def caughtUp (missed closedTrades : List ClosedTrade) : List ClosedTrade :=
  if missed = [] then closedTrades else setClosedTradesBackfill missed

@[simp] theorem caughtUp_nil (closedTrades : List ClosedTrade) :
    caughtUp [] closedTrades = closedTrades := if_pos rfl

/-- The trades that the connection's backfill is still to tell. -/
def missed (t : TabDesk) (client : ClientId) : List ClosedTrade :=
  (t.desk.work (.client client)).trades

/-- The trade that the connection is still to be told of by the broadcast that is under way. -/
def due (t : TabDesk) (client : ClientId) : List ClosedTrade :=
  (t.desk.work .dispatcher).due t.desk.memory.desk.clients client

-- ═══════════════════════════════════════════════════════════════
-- The invariant
-- ═══════════════════════════════════════════════════════════════

/-- What holds of the tabs and of the workers beside the dispatcher. -/
structure Base (shown : TabId → List ClosedTrade) (t : TabDesk) : Prop where
  others : ∀ worker : Worker, worker ≠ .dispatcher →
    ∃ w, worker.StandsBy t.desk.recovered w t.desk.memory (t.desk.work worker)
  /-- Without a trade, a tab shows what it has always shown. -/
  before : t.all = [] → ∀ tab, t.closedTrades tab = shown tab
  missed : ∀ client, t.missed client ≠ [] → t.all ≠ []
  met : ∀ tab client, t.connection tab = some client → client ∈ t.desk.met

structure Inv (shown : TabId → List ClosedTrade) (t : TabDesk) : Prop extends Base shown t where
  stands : ∃ w,
    Worker.dispatcher.StandsBy t.desk.recovered w t.desk.memory (t.desk.work .dispatcher)
  /-- A closed trade is broadcast to the clients that there were when it began. -/
  walks : ∀ sweep next, t.desk.work .dispatcher = .sweeping sweep next →
    sweep.message.trades ≠ [] → sweep.cursor.used = t.desk.memory.desk.clients.size ∧
      (sweep.client :: t.desk.memory.desk.clients.remaining sweep.cursor).Nodup
  told : ∀ tab client, t.Listening tab client → ∃ told,
    t.desk.memory.tracker.closedTrades = told ++ t.due client ∧
      caughtUp (t.missed client) (t.closedTrades tab) = shownOf (t.desk.recovered ++ told)

/-- All trades have been told of; nothing is said of the dispatcher's work. -/
structure Paused (shown : TabId → List ClosedTrade) (t : TabDesk) : Prop extends
    Base shown t where
  inStep : RecentInStep t.desk.recovered t.desk.memory
  told : ∀ tab client, t.Listening tab client →
    caughtUp (t.missed client) (t.closedTrades tab) = shownOf t.all

theorem Inv.inStep (held : Inv shown t) : RecentInStep t.desk.recovered t.desk.memory := by
  obtain ⟨w, stands⟩ := held.stands
  exact stands.inStep

theorem Inv.paused (held : Inv shown t) (silent : ¬ t.desk.Telling) : Paused shown t := by
  refine ⟨held.toBase, held.inStep, fun tab client listening => ?_⟩
  obtain ⟨told, closed, same⟩ := held.told tab client listening
  rw [due, ClientDesk.due_eq_nil silent, List.append_nil] at closed
  rw [same, all, closed]

/-- What each step leaves as it is: trades are only added, and without one there is nothing to
tell. -/
structure Follows (t u : TabDesk) : Prop where
  recovered : u.desk.recovered = t.desk.recovered
  grows : t.desk.memory.tracker.closedTrades <+: u.desk.memory.tracker.closedTrades
  before : t.all = [] → ∀ tab, u.closedTrades tab = t.closedTrades tab
  missed : ∀ client, u.missed client ≠ [] → t.missed client ≠ [] ∨ t.all ≠ []
  met : ∀ tab client, u.connection tab = some client → client ∈ u.desk.met

theorem Follows.all_eq_nil (follows : Follows t u) (none_ : u.all = []) : t.all = [] := by
  obtain ⟨more, grows⟩ := follows.grows
  rw [all, follows.recovered, ← grows, ← List.append_assoc] at none_
  exact (List.append_eq_nil_iff.mp none_).1

theorem Base.follow (held : Base shown t) (follows : Follows t u)
    (others : ∀ worker : Worker, worker ≠ .dispatcher →
      ∃ w, worker.StandsBy u.desk.recovered w u.desk.memory (u.desk.work worker)) :
    Base shown u := by
  refine ⟨others, fun none_ tab => ?_, fun client some_ none_ => ?_, follows.met⟩
  · have none_ := follows.all_eq_nil none_
    rw [follows.before none_, held.before none_]
  · have none_ := follows.all_eq_nil none_
    rcases follows.missed client some_ with missed | trades
    · exact held.missed client missed none_
    · exact trades none_

/-- The workers beside the dispatcher stand where they stand, whatever is written. -/
theorem Base.standing (held : Base shown t) (s : BridgeMemory) {worker : Worker}
    (beside : worker ≠ .dispatcher) :
    ∃ w, worker.StandsBy t.desk.recovered w s (t.desk.work worker) := by
  obtain ⟨w, stands⟩ := held.others worker beside
  exact ⟨w, stands.beside beside⟩

/-- The dispatcher runs on. Whoever is there when a broadcast begins is due to be told. -/
theorem Paused.resumed (paused : Paused shown t) {program : Coro BridgeMemory bridgeSig Unit}
    (obeys : program.Obeys (Worker.dispatcher.tradeRules t.desk.recovered)
      (Worker.dispatcher.TradeEnds t.desk.recovered) t.desk.memory.tracker.closedTrades
      t.desk.memory) :
    Inv shown { t with desk := t.desk.resume .dispatcher program } := by
  have retains := Worker.retains_of_obeys obeys
  obtain ⟨begins, w, same, stand, -⟩ := Stand.of_contract Worker.dispatcher.alone_tradeRules obeys
  have missed (client : ClientId) :
      TabDesk.missed { t with desk := t.desk.resume .dispatcher program } client =
        t.missed client := by
    rw [TabDesk.missed, TabDesk.missed]
    dsimp only
    rw [t.desk.resume_work_ne (by simp)]
  constructor
  · refine paused.follow ⟨rfl, retains.grows, fun _ _ => rfl, fun client some_ => ?_, paused.met⟩
      fun worker beside => ?_
    · exact .inl (missed client ▸ some_)
    · dsimp only
      rw [t.desk.resume_work_ne beside]
      exact paused.standing _ beside
  · dsimp only
    rw [t.desk.resume_work]
    exact ⟨w, stand⟩
  · intro sweep next sweeping _
    dsimp only at sweeping
    rw [t.desk.resume_work] at sweeping
    obtain ⟨used, members⟩ := LiveSet.members_of_first (begins sweep next sweeping)
    dsimp only
    rw [t.desk.resume_memory, retains.clients]
    exact ⟨used, members ▸ t.desk.memory.desk.clients.members_nodup⟩
  · intro tab client listening
    -- a segment has no suspension, so that the clients are those of before
    obtain ⟨connected, member, healthy⟩ := listening
    dsimp only at member
    rw [t.desk.resume_memory, retains.clients] at member
    have before := paused.told tab client ⟨connected, member, healthy⟩
    -- with a client there, no broadcast was skipped on the way
    obtain rfl := same (.inl (List.ne_nil_of_mem member))
    refine ⟨t.desk.memory.tracker.closedTrades, ?_, ?_⟩
    · rw [due]
      dsimp only
      rw [t.desk.resume_work, t.desk.resume_memory, retains.clients]
      refine Worker.StandsBy.closed stand fun sweep next sweeping => ?_
      obtain ⟨-, members⟩ := LiveSet.members_of_first (begins sweep next sweeping)
      exact members ▸ member
    · rw [missed]
      exact before

-- ═══════════════════════════════════════════════════════════════
-- Steps beside the dispatcher
-- ═══════════════════════════════════════════════════════════════

/-- What a step beside the dispatcher leaves as it is. -/
structure Apart (t u : TabDesk) : Prop where
  dispatcher : u.desk.work .dispatcher = t.desk.work .dispatcher
  tracker : u.desk.memory.tracker = t.desk.memory.tracker
  recent : u.desk.memory.desk.closedTradesRecent = t.desk.memory.desk.closedTradesRecent
  recovered : u.desk.recovered = t.desk.recovered
  clients : t.desk.Telling → u.desk.memory.desk.clients = t.desk.memory.desk.clients

/-- The tab has heard what it had heard before, or else no closed trade is being broadcast and
it hears of all trades. -/
def Hears (t u : TabDesk) (tab : TabId) (client : ClientId) : Prop :=
  (t.Listening tab client ∧ caughtUp (u.missed client) (u.closedTrades tab) =
    caughtUp (t.missed client) (t.closedTrades tab)) ∨
  (¬ t.desk.Telling ∧ caughtUp (u.missed client) (u.closedTrades tab) = shownOf t.all)

theorem Inv.beside (held : Inv shown t) (apart : Apart t u) (follows : Follows t u)
    (others : ∀ worker : Worker, worker ≠ .dispatcher →
      ∃ w, worker.StandsBy u.desk.recovered w u.desk.memory (u.desk.work worker))
    (hears : ∀ tab client, u.Listening tab client → Hears t u tab client) : Inv shown u := by
  refine ⟨held.follow follows others, ?_, ?_, ?_⟩
  · obtain ⟨w, stands⟩ := held.stands
    rw [apart.dispatcher, apart.recovered]
    exact ⟨w, stands.same apart.tracker apart.recent⟩
  · intro sweep next sweeping some_
    rw [apart.dispatcher] at sweeping
    rw [apart.clients ⟨sweep, next, sweeping, some_⟩]
    exact held.walks sweep next sweeping some_
  · intro tab client listening
    rw [apart.tracker, due, apart.dispatcher, apart.recovered]
    rcases hears tab client listening with ⟨before, same⟩ | ⟨silent, same⟩
    · obtain ⟨told, closed, shows⟩ := held.told tab client before
      -- what is due to the client depends on the set only while a trade is being broadcast
      refine ⟨told, ?_, same.trans shows⟩
      by_cases telling : t.desk.Telling
      · rw [apart.clients telling]
        exact closed
      · rw [closed, due, ClientDesk.due_eq_nil telling, ClientDesk.due_eq_nil telling]
    · refine ⟨t.desk.memory.tracker.closedTrades, ?_, same⟩
      rw [ClientDesk.due_eq_nil silent, List.append_nil]

/-- A desk at which clients may have come, gone or been told. -/
structure Near (t : TabDesk) (d : ClientDesk) : Prop where
  work : d.work = t.desk.work
  tracker : d.memory.tracker = t.desk.memory.tracker
  recent : d.memory.desk.closedTradesRecent = t.desk.memory.desk.closedTradesRecent
  recovered : d.recovered = t.desk.recovered

section Ran

variable {d : ClientDesk} {worker : Worker} {program : Coro BridgeMemory bridgeSig Unit}
  {w : List ClosedTrade}

theorem missed_resume_ne (near : Near t d) (desk : u.desk = d.resume worker program)
    {client : ClientId} (other : .client client ≠ worker) : u.missed client = t.missed client := by
  rw [missed, desk, d.resume_work_ne other, near.work, missed]

/-- What a client's worker has begun to send is all that is left to tell. -/
theorem missed_resume {id : ClientId} {recovered : List ClosedTrade}
    (obeys : program.Obeys ((Worker.client id).tradeRules recovered)
      ((Worker.client id).TradeEnds recovered) w d.memory)
    (desk : u.desk = d.resume (.client id) program) : u.missed id = w := by
  obtain ⟨-, w', same, stand, -⟩ := Stand.of_contract (Worker.client id).alone_tradeRules obeys
  rw [missed, desk, d.resume_work, Worker.StandsBy.trades stand]
  refine same (.inr ?_)
  rintro message w s ⟨_, ⟨⟩, -⟩

/-- Another worker than the dispatcher runs on. -/
theorem Inv.ran (held : Inv shown t) (near : Near t d)
    (clients : t.desk.Telling → d.memory.desk.clients = t.desk.memory.desk.clients)
    (beside : worker ≠ .dispatcher)
    (obeys : program.Obeys (worker.tradeRules t.desk.recovered)
      (worker.TradeEnds t.desk.recovered) w d.memory)
    (desk : u.desk = d.resume worker program)
    (before : t.all = [] → ∀ tab, u.closedTrades tab = t.closedTrades tab)
    (own : ∀ client, worker = .client client → w ≠ [] → t.all ≠ [])
    (met : ∀ tab client, u.connection tab = some client → client ∈ d.met)
    (hears : ∀ tab client, u.connection tab = some client →
      client ∈ d.memory.desk.clients.members → client ∉ d.failed → Hears t u tab client) :
    Inv shown u := by
  have retains := Worker.retains_of_obeys obeys
  obtain ⟨tracker, recent⟩ := retains.beside beside
  obtain ⟨-, w', -, stand, -⟩ := Stand.of_contract worker.alone_tradeRules obeys
  have memory : u.desk.memory = (Stand.of program d.memory).memory := by
    rw [desk, d.resume_memory]
  have recovered : u.desk.recovered = t.desk.recovered := by
    rw [desk]
    exact near.recovered
  apply held.beside
  · constructor
    · rw [desk, d.resume_work_ne beside.symm, near.work]
    · rw [memory, tracker, near.tracker]
    · rw [memory, recent, near.recent]
    · exact recovered
    · intro telling
      rw [memory, retains.clients, clients telling]
  · refine ⟨recovered, ?_, before, fun client some_ => ?_, fun tab client connected => ?_⟩
    · simp [memory, tracker, near.tracker]
    · by_cases here : worker = .client client
      · subst here
        rw [missed_resume obeys desk] at some_
        exact .inr (own client rfl some_)
      · rw [missed_resume_ne near desk (Ne.symm here)] at some_
        exact .inl some_
    · rw [desk]
      exact met tab client connected
  · intro other elsewhere
    rw [recovered, memory]
    by_cases same : other = worker
    · subst same
      rw [desk, d.resume_work]
      exact ⟨w', stand⟩
    · rw [desk, d.resume_work_ne same, near.work]
      exact held.standing _ elsewhere
  · rintro tab client ⟨connected, member, healthy⟩
    rw [memory, retains.clients] at member
    rw [desk] at healthy
    exact hears tab client connected member healthy

end Ran

/-! ### What arrives -/

theorem handled_quiet {client : ClientId} {message : ClientMessage}
    (quiet : ∀ closedTrades, message.handle closedTrades = closedTrades) :
    t.handled (some (client, message)) = t.closedTrades := by
  funext tab
  change (if _ then _ else _) = _
  split
  · exact quiet _
  · rfl

theorem handled_same {tab : TabId} {client : ClientId} {message : ClientMessage}
    (connected : t.connection tab = some client) :
    t.handled (some (client, message)) tab = message.handle (t.closedTrades tab) := if_pos connected

theorem handled_other {tab : TabId} {client : ClientId} {message : ClientMessage}
    (elsewhere : t.connection tab ≠ some client) :
    t.handled (some (client, message)) tab = t.closedTrades tab := if_neg elsewhere

/-- A client that no send has failed to has been sent this, or it was sent to another. -/
theorem healthy_told {d : ClientDesk} {client other : ClientId} {message : ClientMessage}
    {ok : Bool} (healthy : other ∉ (d.told client message ok).failed) :
    other ∉ d.failed ∧ (other = client → ok = true) := by
  cases ok with
  | true => exact ⟨healthy, fun _ => rfl⟩
  | false =>
    have failed : other ∉ client :: d.failed := healthy
    rw [List.mem_cons, not_or] at failed
    exact ⟨failed.2, fun same => absurd same failed.1⟩

/-! ### The acts -/

theorem Inv.pushed (held : Inv shown t) (n : ℕ) (job : ClientDesk.Job) :
    Inv shown { t with desk := t.desk.resume (.background n) job.body } := by
  have near : Near t t.desk := ⟨rfl, rfl, rfl, rfl⟩
  have obeys := ClientBridge.job_quiet t.desk.recovered job n [] t.desk.memory
  apply held.ran near (fun _ => rfl) (by simp) obeys rfl
  · exact fun _ _ => rfl
  · simp
  · exact held.met
  · intro tab client connected member healthy
    refine .inl ⟨⟨connected, member, healthy⟩, ?_⟩
    rw [missed_resume_ne near rfl (by simp)]

/-! ### A broadcast, from one send to the next -/

section Swept

variable {sweep : Sweep} {next : Except String Unit → Coro BridgeMemory bridgeSig Unit}
  {ok : Bool} {tab : TabId} {client : ClientId}

/-- A broadcast puts its trade in front of the list of the tab that it has reached. -/
theorem handled_sweep (live : sweep.message.Live) (connected : t.connection tab = some client)
    (reached : client = sweep.client → ok = true) :
    t.handled (if ok then some (sweep.client, sweep.message) else none) tab =
      if client = sweep.client then sweep.message.trades.foldl pushClosedTrade (t.closedTrades tab)
      else t.closedTrades tab := by
  by_cases here : client = sweep.client
  · rw [reached here, if_pos rfl, if_pos here, handled_same (here ▸ connected), live.handle]
  · rw [if_neg here]
    cases ok with
    | true =>
      refine handled_other fun same => here ?_
      exact Option.some.inj (connected.symm.trans same)
    | false => rfl

/-- Without a trade nothing changes. -/
theorem handled_sweep_nil (live : sweep.message.Live) (none_ : sweep.message.trades = [])
    (ok : Bool) :
    t.handled (if ok then some (sweep.client, sweep.message) else none) = t.closedTrades := by
  cases ok with
  | true => exact handled_quiet fun closedTrades => by rw [live.handle, none_, List.foldl_nil]
  | false => rfl

/-- What the client was still to be told of, its tab now shows. -/
theorem Inv.reached (held : Inv shown t) (sweeping : t.desk.work .dispatcher = .sweeping sweep next)
    (through : (t.desk.work (.client sweep.client)).backfilling = none)
    (connected : t.connection tab = some client)
    (member : client ∈ t.desk.memory.desk.clients.members)
    (healthy : client ∉ (t.desk.told sweep.client sweep.message ok).failed) :
    ∃ told, t.desk.memory.tracker.closedTrades = told ++
        (if client ∈ t.desk.memory.desk.clients.remaining sweep.cursor then sweep.message.trades
        else []) ∧
      caughtUp (t.missed client)
        (t.handled (if ok then some (sweep.client, sweep.message) else none) tab) =
        shownOf (t.desk.recovered ++ told) := by
  obtain ⟨before, sent⟩ := healthy_told healthy
  obtain ⟨told, closed, same⟩ := held.told tab client ⟨connected, member, before⟩
  obtain ⟨w, stand⟩ := held.stands
  rw [sweeping] at stand
  have live : sweep.message.Live := stand.1.2.1 _ rfl
  rw [due, sweeping] at closed
  by_cases none_ : sweep.message.trades = []
  · refine ⟨told, ?_, ?_⟩
    · rw [closed, Work.due, none_, ite_self, ite_self]
    · rw [handled_sweep_nil live none_, same]
  · obtain ⟨-, once⟩ := held.walks sweep next sweeping none_
    rw [ClientDesk.due_sweeping client next once] at closed
    rw [handled_sweep live connected sent]
    by_cases here : client = sweep.client
    · -- nothing is left of this tab's backfill, so that the trade goes in front of all others
      obtain ⟨w', stands⟩ := held.others (.client client) (by simp)
      have nothing : t.missed client = [] := by
        rw [missed]
        exact stands.trades_eq_nil (here ▸ through)
      rw [if_pos here] at closed ⊢
      rw [nothing, caughtUp_nil] at same ⊢
      refine ⟨told ++ sweep.message.trades, by rw [closed, List.append_assoc], ?_⟩
      rw [same, ← List.append_assoc, ← shownOf_append]
    · rw [if_neg here] at closed ⊢
      exact ⟨told, closed, same⟩

/-- Before there is a trade, none is broadcast. -/
theorem Inv.unheard (held : Inv shown t) (sweeping : t.desk.work .dispatcher = .sweeping sweep next)
    (none_ : t.all = []) (ok : Bool) :
    t.handled (if ok then some (sweep.client, sweep.message) else none) = t.closedTrades := by
  obtain ⟨w, stand⟩ := held.stands
  rw [sweeping] at stand
  obtain ⟨-, live, closed, -⟩ := stand.1
  refine handled_sweep_nil (live _ rfl) ?_ ok
  rw [(List.append_eq_nil_iff.mp none_).2] at closed
  exact (List.append_eq_nil_iff.mp closed.symm).2

/-- All have been told when a broadcast is over, and when it comes to no trade. -/
theorem Inv.over (held : Inv shown t) (sweeping : t.desk.work .dispatcher = .sweeping sweep next)
    (through : (t.desk.work (.client sweep.client)).backfilling = none) (ok : Bool)
    (none_ : ∀ client, (if client ∈ t.desk.memory.desk.clients.remaining sweep.cursor then
      sweep.message.trades else []) = []) {d : ClientDesk}
    (near : Near t d) (met : d.met = t.desk.met)
    (failed : d.failed = (t.desk.told sweep.client sweep.message ok).failed)
    (members : ∀ client ∈ d.memory.desk.clients.members,
      client ∈ t.desk.memory.desk.clients.members) :
    Paused shown
      { t with
        desk := d
        closedTrades := t.handled (if ok then some (sweep.client, sweep.message) else none) } := by
  constructor
  · refine held.toBase.follow ⟨near.recovered, near.tracker ▸ List.prefix_rfl,
      fun none_ => congrFun (held.unheard sweeping none_ ok), fun client some_ => .inl ?_,
      fun tab client connected => ?_⟩ fun worker beside => ?_
    · rw [missed] at some_ ⊢
      exact near.work ▸ some_
    · dsimp only at connected ⊢
      rw [met]
      exact held.met tab client connected
    · dsimp only
      rw [near.work, near.recovered]
      exact held.standing _ beside
  · dsimp only
    rw [near.recovered]
    exact held.inStep.of_same near.tracker near.recent
  · rintro tab client ⟨connected, member, healthy⟩
    dsimp only at connected member healthy
    rw [failed] at healthy
    obtain ⟨told, closed, same⟩ :=
      held.reached sweeping through connected (members client member) healthy
    rw [none_ client, List.append_nil] at closed
    rw [missed, all]
    dsimp only
    rw [near.work, near.tracker, near.recovered, closed]
    exact same

/-- The broadcast goes on to the next client. -/
theorem Inv.sweptOn (held : Inv shown t) (sweeping : t.desk.work .dispatcher = .sweeping sweep next)
    (through : (t.desk.work (.client sweep.client)).backfilling = none) (ok : Bool)
    {following : ClientId} {cursor : LiveSet.Cursor}
    (found : t.desk.memory.desk.clients.next sweep.cursor = .item following cursor) :
    Inv shown
      { t with
        desk := (t.desk.told sweep.client sweep.message ok).setWork .dispatcher
          (.sweeping ⟨sweep.message, cursor, following, sweep.deadAfter ok⟩ next)
        closedTrades := t.handled (if ok then some (sweep.client, sweep.message) else none) } := by
  obtain ⟨w, stand⟩ := held.stands
  rw [sweeping] at stand
  constructor
  · refine held.toBase.follow ⟨rfl, List.prefix_rfl,
      fun none_ => congrFun (held.unheard sweeping none_ ok), fun _ => .inl, held.met⟩
      fun worker beside => ?_
    dsimp only
    rw [ClientDesk.setWork_ne _ _ beside]
    exact held.others worker beside
  · dsimp only
    rw [ClientDesk.setWork_same]
    exact ⟨w, stand⟩
  · dsimp only
    rw [ClientDesk.setWork_same]
    rintro sweep' next' same some_
    cases same
    obtain ⟨used, once⟩ := held.walks sweep next sweeping some_
    obtain ⟨used', split⟩ := LiveSet.remaining_of_item used found
    rw [split] at once
    exact ⟨used', (List.nodup_cons.mp once).2⟩
  · rintro tab other ⟨connected, member, healthy⟩
    obtain ⟨told, closed, same⟩ := held.reached sweeping through connected member healthy
    refine ⟨told, ?_, same⟩
    rw [due]
    dsimp only
    rw [ClientDesk.setWork_same, Work.due]
    dsimp only
    by_cases none_ : sweep.message.trades = []
    · rw [none_, ite_self] at closed ⊢
      exact closed
    · -- the same clients are left, the next one among them
      obtain ⟨used, -⟩ := held.walks sweep next sweeping none_
      rw [(LiveSet.remaining_of_item used found).2] at closed
      exact closed

/-- One send of a broadcast of the dispatcher has ended. -/
theorem Inv.swept (held : Inv shown t) (sweeping : t.desk.work .dispatcher = .sweeping sweep next)
    (through : (t.desk.work (.client sweep.client)).backfilling = none) (ok : Bool)
    (layout : Option (List (Option ClientId))) :
    Inv shown
      { t with
        desk := t.desk.sweepOn .dispatcher sweep next ok layout
        closedTrades := t.handled (if ok then some (sweep.client, sweep.message) else none) } := by
  obtain ⟨w, stand⟩ := held.stands
  rw [sweeping] at stand
  rw [ClientDesk.sweepOn]
  cases found : t.desk.memory.desk.clients.next sweep.cursor with
  | changed =>
    -- the set is left alone while a closed trade is broadcast
    have none_ : sweep.message.trades = [] := by
      by_contra some_
      obtain ⟨used, -⟩ := held.walks sweep next sweeping some_
      exact LiveSet.next_ne_changed used found
    have paused := held.over sweeping through ok (by simp [none_])
      (d := t.desk.told sweep.client sweep.message ok) ⟨rfl, rfl, rfl, rfl⟩ rfl rfl
      fun _ member => member
    exact paused.resumed (stand.2 _ _ _ ⟨rfl, rfl, rfl⟩)
  | stop =>
    have none_ : ∀ client, (if client ∈ t.desk.memory.desk.clients.remaining sweep.cursor then
        sweep.message.trades else []) = [] := by
      intro client
      by_cases none_ : sweep.message.trades = []
      · rw [none_, ite_self]
      · obtain ⟨used, -⟩ := held.walks sweep next sweeping none_
        rw [LiveSet.remaining_of_stop used found, if_neg List.not_mem_nil]
    have paused := held.over sweeping through ok none_
      (d := (t.desk.told sweep.client sweep.message ok).setClients
        (t.desk.memory.desk.clients.diff (sweep.deadAfter ok) layout)) ⟨rfl, rfl, rfl, rfl⟩ rfl rfl
      fun _ member => (LiveSet.mem_diff.mp member).1
    exact paused.resumed (stand.2 _ _ _ ⟨rfl, rfl, rfl⟩)
  | item following cursor => exact held.sweptOn sweeping through ok found

/-- A send of something else leaves what the tab shows. -/
theorem hears_told (sweep : Sweep)
    (missed : u.missed client = t.missed client) (shows : u.closedTrades = t.closedTrades)
    (connected : t.connection tab = some client)
    (member : client ∈ t.desk.memory.desk.clients.members)
    (healthy : client ∉ (t.desk.told sweep.client sweep.message ok).failed) :
    Hears t u tab client := by
  refine .inl ⟨⟨connected, member, (healthy_told healthy).1⟩, ?_⟩
  rw [missed, shows]

/-- Another task's broadcast goes on to the next client. -/
theorem Inv.sweptBesideOn (held : Inv shown t) {n : ℕ}
    (sweeping : t.desk.work (.background n) = .sweeping sweep next) (ok : Bool)
    (following : ClientId) (cursor : LiveSet.Cursor) :
    Inv shown
      { t with
        desk := (t.desk.told sweep.client sweep.message ok).setWork (.background n)
          (.sweeping ⟨sweep.message, cursor, following, sweep.deadAfter ok⟩ next) } := by
  obtain ⟨w, stand⟩ := held.others (.background n) (by simp)
  rw [sweeping] at stand
  apply held.beside
  · exact ⟨ClientDesk.setWork_ne _ _ (by simp), rfl, rfl, rfl, fun _ => rfl⟩
  · refine ⟨rfl, List.prefix_rfl, fun _ _ => rfl, fun other some_ => .inl ?_, held.met⟩
    rw [missed] at some_ ⊢
    dsimp only at some_
    rwa [ClientDesk.setWork_ne _ _ (by simp)] at some_
  · intro worker beside
    dsimp only
    by_cases here : worker = .background n
    · subst here
      rw [ClientDesk.setWork_same]
      exact ⟨w, stand⟩
    · rw [ClientDesk.setWork_ne _ _ here]
      exact held.others worker beside
  · rintro tab other ⟨connected, member, healthy⟩
    refine hears_told sweep ?_ rfl connected member healthy
    rw [missed]
    dsimp only
    rw [ClientDesk.setWork_ne _ _ (by simp)]
    rfl

/-- One send of another task's broadcast has ended. -/
theorem Inv.sweptBeside (held : Inv shown t) {n : ℕ}
    (sweeping : t.desk.work (.background n) = .sweeping sweep next) (ok : Bool)
    (layout : Option (List (Option ClientId)))
    (leaves : t.desk.Telling → t.desk.memory.desk.clients.next sweep.cursor = .stop →
      layout = none ∧ ∀ client ∈ sweep.deadAfter ok, client ∉ t.desk.memory.desk.clients.members) :
    Inv shown
      { t with
        desk := t.desk.sweepOn (.background n) sweep next ok layout
        closedTrades := t.handled (if ok then some (sweep.client, sweep.message) else none) } := by
  obtain ⟨w, stand⟩ := held.others (.background n) (by simp)
  rw [sweeping] at stand
  obtain ⟨⟨message, same, quiet⟩, goes⟩ := stand
  cases same
  -- nothing about closed trades has arrived
  have unchanged : t.handled (if ok then some (sweep.client, sweep.message) else none) =
      t.closedTrades := by
    cases ok with
    | true => exact handled_quiet quiet.handle
    | false => rfl
  rw [unchanged, ClientDesk.sweepOn]
  cases found : t.desk.memory.desk.clients.next sweep.cursor with
  | changed =>
    have near : Near t (t.desk.told sweep.client sweep.message ok) := ⟨rfl, rfl, rfl, rfl⟩
    apply held.ran near (fun _ => rfl) (by simp) (goes _ [] _ trivial) rfl
    · exact fun _ _ => rfl
    · simp
    · exact held.met
    · exact fun tab client => hears_told sweep (missed_resume_ne near rfl (by simp)) rfl
  | stop =>
    have near : Near t ((t.desk.told sweep.client sweep.message ok).setClients
        (t.desk.memory.desk.clients.diff (sweep.deadAfter ok) layout)) := ⟨rfl, rfl, rfl, rfl⟩
    apply held.ran near ?_ (by simp) (goes _ [] _ trivial) rfl
    · exact fun _ _ => rfl
    · simp
    · exact held.met
    · exact fun tab client connected member => hears_told sweep
        (missed_resume_ne near rfl (by simp)) rfl connected (LiveSet.mem_diff.mp member).1
    · -- the only change of the set, and not while a closed trade is broadcast
      intro telling
      obtain ⟨rfl, absent⟩ := leaves telling found
      exact LiveSet.diff_absent absent
  | item following cursor => exact held.sweptBesideOn sweeping ok following cursor

end Swept

/-! ### Clients that come and go -/

/-- One send of a client's backfill has ended. -/
theorem Inv.backfilled (held : Inv shown t) {id client : ClientId} {message : ClientMessage}
    {next : Answer bridgeSig (.send client message) → Coro BridgeMemory bridgeSig Unit}
    (waiting : t.desk.work (.client id) = .waiting (.send client message) next) (ok : Bool)
    (r : Except String Unit) :
    Inv shown
      { t with
        desk := (t.desk.told client message ok).resume (.client id) (next r)
        closedTrades := t.handled (if ok then some (client, message) else none) } := by
  obtain ⟨w, stand⟩ := held.others (.client id) (by simp)
  have left : t.missed id = w := stand.trades
  rw [waiting] at stand
  obtain ⟨-, ⟨message, same, rfl, kind⟩, goes⟩ := stand
  cases same
  have near : Near t (t.desk.told id message ok) := ⟨rfl, rfl, rfl, rfl⟩
  have obeys := goes r [] (t.desk.told id message ok).memory rfl
  -- what arrives is what was left of the backfill
  have arrived : ∀ closedTrades,
      message.handle closedTrades = caughtUp (t.missed id) closedTrades := by
    intro closedTrades
    rw [left]
    rcases kind with quiet | ⟨backfill, some_⟩
    · rw [quiet.trades, caughtUp_nil, quiet.handle]
    · rw [caughtUp, if_neg some_]
      conv_lhs => rw [backfill]
      rfl
  apply held.ran near (fun _ => rfl) (by simp) obeys rfl
  · intro none_
    -- before there is a trade, no backfill tells of one
    have nothing : t.missed id = [] := by
      by_contra some_
      exact held.missed id some_ none_
    refine congrFun ?_
    cases ok with
    | true => exact handled_quiet fun closedTrades => by rw [arrived, nothing, caughtUp_nil]
    | false => rfl
  · simp
  · exact held.met
  · intro tab other connected member healthy
    obtain ⟨before, sent⟩ := healthy_told healthy
    refine .inl ⟨⟨connected, member, before⟩, ?_⟩
    dsimp only
    -- the tab of this connection has caught up, the others are where they were
    by_cases here : other = id
    · subst here
      rw [missed_resume obeys rfl, caughtUp_nil, sent rfl, if_pos rfl,
        handled_same (t := t) connected, arrived]
    · rw [missed_resume_ne near rfl (by simpa using here)]
      cases ok with
      | true =>
        rw [if_pos rfl, handled_other]
        exact fun same => here (Option.some.inj (connected.symm.trans same))
      | false => rfl

/-- A client connects while no closed trade is being broadcast. If it is a tab's, that tab is
sent all recent trades, or has none to show. -/
theorem Inv.joined (held : Inv shown t) {client : ClientId} (layout : List (Option ClientId))
    (silent : ¬ t.desk.Telling) {connection : TabId → Option ClientId}
    (connected : ∀ tab other, connection tab = some other →
      t.connection tab = some other ∧ other ≠ client ∨
        other = client ∧ (t.desk.memory.desk.closedTradesRecent = [] → shown tab = [])) :
    Inv shown
      { t with
        desk := (t.desk.joined client layout).resume (.client client)
          (ClientBridge.sendBackfill client)
        connection := connection } := by
  have near : Near t (t.desk.joined client layout) := ⟨rfl, rfl, rfl, rfl⟩
  have obeys := ClientBridge.sendBackfill_tells t.desk.recovered client
    (t.desk.joined client layout).memory
  have recent := held.inStep.recent_eq_nil
  apply held.ran near (fun telling => absurd telling silent) (by simp) obeys rfl
  · exact fun _ _ => rfl
  · intro _ _ some_ none_
    exact some_ (recent.mpr none_)
  · intro tab other at_
    rcases connected tab other at_ with ⟨before, -⟩ | ⟨rfl, -⟩
    · exact List.mem_cons_of_mem _ (held.met tab other before)
    · exact List.mem_cons_self
  · intro tab other at_ member healthy
    rcases connected tab other at_ with ⟨before, elsewhere⟩ | ⟨rfl, fresh⟩
    · have was := (LiveSet.mem_insert.mp member).resolve_left elsewhere
      refine .inl ⟨⟨before, was, healthy⟩, ?_⟩
      rw [missed_resume_ne near rfl (by simpa using elsewhere)]
    · refine .inr ⟨silent, ?_⟩
      rw [missed_resume obeys rfl]
      change caughtUp t.desk.memory.desk.closedTradesRecent (t.closedTrades tab) = shownOf t.all
      by_cases none_ : t.desk.memory.desk.closedTradesRecent = []
      · -- there is nothing to catch up with, and the tab shows nothing
        have empty : t.all = [] := recent.mp none_
        rw [none_, caughtUp_nil, empty, held.before empty, fresh none_]
        exact (newest_nil _).symm
      · rw [caughtUp, if_neg none_, setClosedTradesBackfill_eq]
        exact held.inStep

theorem Inv.disconnected (held : Inv shown t) (client : ClientId)
    (absent : t.desk.Telling → client ∉ t.desk.memory.desk.clients.members) :
    Inv shown
      { t with desk := t.desk.setClients (t.desk.memory.desk.clients.discard client) } := by
  apply held.beside
  · refine ⟨rfl, rfl, rfl, rfl, fun telling => LiveSet.diff_absent fun x gone => ?_⟩
    rw [List.mem_singleton] at gone
    exact gone ▸ absent telling
  · exact ⟨rfl, List.prefix_rfl, fun _ _ => rfl, fun _ => .inl, held.met⟩
  · exact fun worker => held.standing _
  · rintro tab other ⟨connected, member, healthy⟩
    exact .inl ⟨⟨connected, (LiveSet.mem_diff.mp member).1, healthy⟩, rfl⟩

theorem Inv.elsewhere (held : Inv shown t) (manager : ManagerState) (reasons : CloseReasons) :
    Inv shown
      { t with desk := { t.desk with memory := { t.desk.memory with manager, reasons } } } := by
  apply held.beside
  · exact ⟨rfl, rfl, rfl, rfl, fun _ => rfl⟩
  · exact ⟨rfl, List.prefix_rfl, fun _ _ => rfl, fun _ => .inl, held.met⟩
  · exact fun worker => held.standing _
  · rintro tab other ⟨connected, member, healthy⟩
    exact .inl ⟨⟨connected, member, healthy⟩, rfl⟩

/-- A tab that has no connection hears nothing. -/
theorem Inv.left (held : Inv shown t) (tab : TabId) :
    Inv shown { t with connection := Function.update t.connection tab none } := by
  have still : ∀ other client, Function.update t.connection tab none other = some client →
      t.connection other = some client := by
    intro other client connected
    by_cases here : other = tab
    · subst here
      rw [Function.update_self] at connected
      cases connected
    · rwa [Function.update_of_ne here] at connected
  apply held.beside
  · exact ⟨rfl, rfl, rfl, rfl, fun _ => rfl⟩
  · exact ⟨rfl, List.prefix_rfl, fun _ _ => rfl, fun _ => .inl, fun other client connected =>
      held.met other client (still other client connected)⟩
  · exact held.others
  · rintro other client ⟨connected, member, healthy⟩
    exact .inl ⟨⟨still other client connected, member, healthy⟩, rfl⟩

-- ═══════════════════════════════════════════════════════════════
-- Runs
-- ═══════════════════════════════════════════════════════════════

/-- While a closed trade is being broadcast nobody connects or is taken out of the set. A tab
that shows trades of an earlier process connects when the bridge has trades to send it. -/
def Steady (shown : TabId → List ClosedTrade) (t : TabDesk) : Act → Prop
  | .bridge (.connect _ _) => ¬ t.desk.Telling
  | .bridge (.disconnect client) =>
    t.desk.Telling → client ∉ t.desk.memory.desk.clients.members
  | .bridge (.sent worker ok layout) => worker ≠ .dispatcher → t.desk.Telling →
    (t.desk.work worker).Leaves t.desk.memory.desk.clients ok layout
  | .connect tab _ _ => ¬ t.desk.Telling ∧
    (t.desk.memory.desk.closedTradesRecent = [] → shown tab = [])
  | _ => True

instance (shown : TabId → List ClosedTrade) (t : TabDesk) :
    (act : Act) → Decidable (Steady shown t act)
  | .bridge (.connect _ _) => inferInstanceAs (Decidable (¬ _))
  | .bridge (.disconnect _) => inferInstanceAs (Decidable (_ → ¬ _))
  | .bridge (.sent _ _ _) => inferInstanceAs (Decidable (¬ _ → _ → _))
  | .connect _ _ _ => inferInstanceAs (Decidable (¬ _ ∧ (_ → _)))
  | .bridge (.dispatch _) | .bridge (.push _ _) | .bridge (.fetched _) | .bridge .notified
  | .bridge (.elsewhere _ _) | .leave _ => .isTrue trivial

theorem silent_of_idle {d : ClientDesk} (idle : d.work .dispatcher = .idle) : ¬ d.Telling := by
  rintro ⟨sweep, next, sweeping, -⟩
  cases idle.symm.trans sweeping

theorem silent_of_waiting {d : ClientDesk} {q : BridgeRequest}
    {next : Answer bridgeSig q → Coro BridgeMemory bridgeSig Unit}
    (waiting : d.work .dispatcher = .waiting q next) : ¬ d.Telling := by
  rintro ⟨sweep, next, sweeping, -⟩
  cases waiting.symm.trans sweeping

theorem Inv.dispatched (held : Inv shown t) (idle : t.desk.work .dispatcher = .idle)
    (event : BusEvent) (fills : List ExecutionEvent) :
    Inv shown
      { t with desk := { t.desk with fills }.resume .dispatcher (bridge.onEvent event) } := by
  have paused := held.paused (silent_of_idle idle)
  have same : Paused shown { t with desk := { t.desk with fills } } :=
    ⟨⟨paused.others, paused.before, paused.missed, paused.met⟩, paused.inStep,
      fun tab client ⟨connected, member, healthy⟩ =>
        paused.told tab client ⟨connected, member, healthy⟩⟩
  exact same.resumed (bridge.onEvent_tells event _ _ ⟨rfl, held.inStep⟩)

/-- A call has ended that is no broadcast. -/
theorem Inv.answered (held : Inv shown t) {q : BridgeRequest} (r : Answer bridgeSig q)
    {next : Answer bridgeSig q → Coro BridgeMemory bridgeSig Unit}
    (waiting : t.desk.work .dispatcher = .waiting q next) :
    Inv shown { t with desk := t.desk.resume .dispatcher (next r) } := by
  obtain ⟨w, stand⟩ := held.stands
  rw [waiting] at stand
  exact (held.paused (silent_of_waiting waiting)).resumed (stand.2.2 r _ _ ⟨rfl, rfl, rfl⟩)

theorem sent_inv (held : Inv shown t) {worker : Worker} {ok : Bool}
    {layout : Option (List (Option ClientId))}
    (steady : Steady shown t (.bridge (.sent worker ok layout)))
    (ordered : t.desk.overtakes (.sent worker ok layout) = false) {desk : ClientDesk}
    (moved : t.desk.step bridge (.sent worker ok layout) = some desk) :
    Inv shown
      { t with desk, closedTrades := t.handled (t.desk.arrives (.sent worker ok layout)) } := by
  rw [ClientDesk.arrives_sent]
  simp only [ClientDesk.step] at moved
  split at moved
  next sweep next sweeping =>
    cases moved
    have through : (t.desk.work (.client sweep.client)).backfilling = none := by
      simpa [ClientDesk.overtakes, sweeping] using ordered
    rw [sweeping, Work.sending]
    cases worker with
    | dispatcher => exact held.swept sweeping through ok layout
    | background n =>
      apply held.sweptBeside sweeping ok layout
      intro telling
      have leaves := steady (by simp) telling
      rwa [sweeping] at leaves
    -- a client's worker sends to its own client and broadcasts nothing
    | client id =>
      obtain ⟨w, stand⟩ := held.others (.client id) (by simp)
      rw [sweeping] at stand
      obtain ⟨⟨message, same, -⟩, -⟩ := stand
      cases same
  next client message next waiting =>
    cases moved
    rw [waiting, Work.sending]
    cases worker with
    -- single sends are the backfill's, so that the worker is the client's
    | dispatcher =>
      obtain ⟨w, stand⟩ := held.stands
      rw [waiting] at stand
      exact absurd rfl (stand.2.1.1 client message)
    | background n =>
      obtain ⟨w, stand⟩ := held.others (.background n) (by simp)
      rw [waiting] at stand
      obtain ⟨-, ⟨message, same, -⟩, -⟩ := stand
      cases same
    | client id => exact held.backfilled waiting ok _
  · cases moved

theorem bridge_inv (held : Inv shown t) {act : ClientDesk.Act}
    (steady : Steady shown t (.bridge act))
    (ordered : t.desk.overtakes act = false) {desk : ClientDesk}
    (moved : t.desk.step bridge act = some desk) :
    Inv shown { t with desk, closedTrades := t.handled (t.desk.arrives act) } := by
  cases act with
  | dispatch event =>
    simp only [ClientDesk.step] at moved
    split at moved
    next idle =>
      cases moved
      exact held.dispatched idle event _
    · cases moved
  | push n job =>
    simp only [ClientDesk.step] at moved
    split at moved
    · cases moved
      exact held.pushed n job
    · cases moved
  | connect client layout =>
    simp only [ClientDesk.step] at moved
    split at moved
    · cases moved
    next unmet =>
      cases moved
      refine held.joined layout steady fun tab other connected => .inl ⟨connected, ?_⟩
      rintro rfl
      exact unmet (held.met tab other connected)
  | disconnect client =>
    simp only [ClientDesk.step] at moved
    split at moved
    · cases moved
      exact held.disconnected client steady
    · cases moved
  | sent worker ok layout => exact sent_inv held steady ordered moved
  | fetched candles =>
    simp only [ClientDesk.step] at moved
    split at moved
    next symbol limit next waiting =>
      cases moved
      exact held.answered _ waiting
    · cases moved
  | notified =>
    simp only [ClientDesk.step] at moved
    split at moved
    next text next waiting =>
      cases moved
      exact held.answered _ waiting
    · cases moved
  | elsewhere manager reasons =>
    cases moved
    exact held.elsewhere manager reasons

theorem step_inv (held : Inv shown t) {act : Act} (steady : Steady shown t act)
    (moved : step bridge t act = some u) : Inv shown u := by
  cases act with
  | bridge act =>
    simp only [step] at moved
    split at moved
    · cases moved
    next ordered =>
      obtain ⟨desk, stepped, rfl⟩ := Option.map_eq_some_iff.mp moved
      exact bridge_inv held steady (by simpa using ordered) stepped
  | connect tab client layout =>
    simp only [step] at moved
    split at moved
    · cases moved
    next free =>
      -- a connection is new, so that it is no other tab's
      obtain ⟨desk, stepped, rfl⟩ := Option.map_eq_some_iff.mp moved
      simp only [ClientDesk.step] at stepped
      split at stepped
      · cases stepped
      next unmet =>
        cases stepped
        refine held.joined layout steady.1 fun other client' connected => ?_
        by_cases here : other = tab
        · subst here
          rw [Function.update_self, Option.some.injEq] at connected
          exact .inr ⟨connected.symm, steady.2⟩
        · rw [Function.update_of_ne here] at connected
          refine .inl ⟨connected, ?_⟩
          rintro rfl
          exact unmet (held.met other client' connected)
  | leave tab =>
    cases moved
    exact held.left tab

theorem started_inv (manager : ManagerState) (recovered : List ClosedTrade)
    (lines : List AuditLine) (shown : TabId → List ClosedTrade) :
    Inv shown (started manager recovered lines shown) := by
  constructor
  · refine ⟨fun worker beside => ⟨[], .ok (), ?_⟩, fun _ _ => rfl, fun client some_ => ?_, ?_⟩
    · cases worker with
      | dispatcher => exact absurd rfl beside
      | background n => trivial
      | client id => rfl
    · exact absurd rfl some_
    · rintro tab client ⟨⟩
  · refine ⟨[], .ok (), rfl, ?_⟩
    rw [RecentInStep]
    exact congrArg _ (List.append_nil recovered).symm
  · rintro sweep next ⟨⟩
  · rintro tab client ⟨⟨⟩, -, -⟩

/-- Once its backfill is through, a tab shows the newest of all trades that its connection has
been told of, and two tabs that wait for the same show the same. -/
structure Agreed (t : TabDesk) : Prop where
  newest : ∀ tab client, t.Listening tab client → t.missed client = [] → ∃ told,
    t.desk.memory.tracker.closedTrades = told ++ t.due client ∧
      t.closedTrades tab = newest maxClosedTrades (t.desk.recovered ++ told)
  same : ∀ tab client tab' client', t.Listening tab client → t.Listening tab' client' →
    t.missed client = [] → t.missed client' = [] → t.due client = t.due client' →
      t.closedTrades tab = t.closedTrades tab'

theorem Inv.agreed (held : Inv shown t) : Agreed t := by
  have newest : ∀ tab client, t.Listening tab client → t.missed client = [] → ∃ told,
      t.desk.memory.tracker.closedTrades = told ++ t.due client ∧
        t.closedTrades tab = Data.newest maxClosedTrades (t.desk.recovered ++ told) := by
    intro tab client listening through
    obtain ⟨told, closed, shows⟩ := held.told tab client listening
    rw [through, caughtUp_nil] at shows
    exact ⟨told, closed, shows⟩
  refine ⟨newest, fun tab client tab' client' listening listening' through through' same => ?_⟩
  -- both wait for the same end of one list, so that they have been told of the same beginning
  obtain ⟨told, closed, shows⟩ := newest tab client listening through
  obtain ⟨told', closed', shows'⟩ := newest tab' client' listening' through'
  rw [closed, same] at closed'
  rw [shows, shows', List.append_cancel_right closed']

/-- In a run that leaves the set of clients alone while a closed trade is broadcast, all tabs
always agree, whenever they have connected. -/
theorem tabs_agree (bridge : ClientBridge) (manager : ManagerState)
    (recovered : List ClosedTrade) (lines : List AuditLine) (shown : TabId → List ClosedTrade)
    (acts : List Act)
    (steady : Machine.Meets (step bridge) (Steady shown) (started manager recovered lines shown)
      acts) :
    Machine.Always (step bridge) Agreed (started manager recovered lines shown) acts :=
  Machine.Meets.always (Inv shown) Agreed (fun _ held => held.agreed)
    (fun _ _ _ held steady moved => step_inv held steady moved) _ acts
    (started_inv manager recovered lines shown) steady

/-! ## A round trip, seen from three tabs -/

open ClientDesk (demoBridge demoOrder dispatched sends)

/-- A round trip is about to be traded. -/
def tabsStart (recovered : List ClosedTrade) (shown : TabId → List ClosedTrade) : TabDesk :=
  started { orders := .ofList [(.hex 0, demoOrder 0 .buy), (.hex 1, demoOrder 1 .sell)] }
    recovered [] shown

def demoTrade : ClosedTrade where
  symbol := "ETHUSDT"
  side := .buy
  entryTs := 0
  exitTs := 0
  quantity := 1
  entryPrice := 10
  exitPrice := 12
  pnl := 2

/-- So many sends of a worker, all through. -/
def allThrough (worker : Worker) (n : ℕ) : List Act := (sends worker n).map .bridge

/-- One tab is there from the start and one comes with the trade half done. The third comes
when it has been closed, and so does the first again, which has lost its connection. -/
def threeTabs : List Act :=
  [.connect 0 0 [some 0]] ++ allThrough (.client 0) 1 ++
    [.bridge (dispatched 0 .buy 100)] ++ allThrough .dispatcher 3 ++
    [.connect 1 1 [some 1, some 0]] ++ allThrough (.client 1) 2 ++
    [.bridge (dispatched 1 .sell 110)] ++ allThrough .dispatcher 10 ++
    [.leave 0, .bridge (.disconnect 0), .connect 2 2 [some 2, none, some 1]] ++
    allThrough (.client 2) 2 ++ [.connect 0 3 [some 2, some 3, some 1]] ++ allThrough (.client 3) 2

/-- A tab leaves while the trade is being broadcast, and comes back. -/
def leavesBroadcast : List Act :=
  [.connect 0 0 [some 0], .connect 1 1 [some 1, some 0], .bridge (dispatched 0 .buy 100)] ++
    allThrough .dispatcher 6 ++ [.bridge (dispatched 1 .sell 110)] ++ allThrough .dispatcher 6 ++
    [.leave 1, .bridge (.disconnect 1), .bridge (.sent .dispatcher false none),
      .connect 1 2 [some 2, some 0]] ++ allThrough (.client 2) 2

/-- A tab that is still open from an earlier process connects, and so does a new one. -/
def staysOpen : List Act := [.connect 0 0 [some 0], .connect 1 1 [some 1, some 0]]

theorem tabs_agree_three : ∃ t,
    Machine.run (step demoBridge) (tabsStart [demoTrade] fun _ => []) threeTabs = some t ∧
      Agreed t ∧ [0, 1, 2].map (fun tab => (t.closedTrades tab).map (·.symbol)) =
        List.replicate 3 ["BTCUSDT", "ETHUSDT"] := by
  have reached : (Machine.run (step demoBridge) (tabsStart [demoTrade] fun _ => []) threeTabs).map
      (fun t => [0, 1, 2].map fun tab => (t.closedTrades tab).map (·.symbol)) =
      some (List.replicate 3 ["BTCUSDT", "ETHUSDT"]) := by decide +kernel
  obtain ⟨t, reached, shows⟩ := Option.map_eq_some_iff.mp reached
  refine ⟨t, reached, ?_, shows⟩
  exact (tabs_agree demoBridge _ [demoTrade] [] (fun _ => []) threeTabs
    (by decide +kernel)).reached reached

/-- Two tabs that wait for nothing show different trades. -/
structure Differing (t : TabDesk) (tab : TabId) (client : ClientId) (tab' : TabId)
    (client' : ClientId) : Prop where
  left : t.Listening tab client
  right : t.Listening tab' client'
  through : t.missed client = [] ∧ t.missed client' = []
  settled : t.due client = [] ∧ t.due client' = []
  differ : t.closedTrades tab ≠ t.closedTrades tab'

theorem Differing.not_agreed {tab tab' : TabId} {client client' : ClientId}
    (differing : t.Differing tab client tab' client') : ¬ Agreed t := fun agreed =>
  differing.differ (agreed.same tab client tab' client' differing.left differing.right
    differing.through.1 differing.through.2
    (differing.settled.1.trans differing.settled.2.symm))

instance (tab : TabId) (client : ClientId) : Decidable (t.Listening tab client) :=
  decidable_of_iff (t.connection tab = some client ∧
      client ∈ t.desk.memory.desk.clients.members ∧ client ∉ t.desk.failed)
    ⟨fun ⟨connected, member, healthy⟩ => ⟨connected, member, healthy⟩,
      fun ⟨connected, member, healthy⟩ => ⟨connected, member, healthy⟩⟩

instance (tab : TabId) (client : ClientId) (tab' : TabId) (client' : ClientId) :
    Decidable (t.Differing tab client tab' client') :=
  decidable_of_iff (t.Listening tab client ∧ t.Listening tab' client' ∧
      (t.missed client = [] ∧ t.missed client' = []) ∧
      (t.due client = [] ∧ t.due client' = []) ∧ t.closedTrades tab ≠ t.closedTrades tab')
    ⟨fun ⟨left, right, through, settled, differ⟩ => ⟨left, right, through, settled, differ⟩,
      fun ⟨left, right, through, settled, differ⟩ => ⟨left, right, through, settled, differ⟩⟩

theorem tabs_agree_counterexample :
    ¬ Machine.Always (step demoBridge) Agreed (tabsStart [] fun _ => []) leavesBroadcast ∧
      ¬ Machine.Always (step demoBridge) Agreed
        (tabsStart [] fun tab => if tab = 0 then [demoTrade] else []) staysOpen := by
  constructor
  · intro always
    have ends : (Machine.run (step demoBridge) (tabsStart [] fun _ => []) leavesBroadcast).map
        (fun t => decide (t.Differing 0 0 1 2)) = some true := by decide +kernel
    obtain ⟨t, reached, differing⟩ := Option.map_eq_some_iff.mp ends
    exact (of_decide_eq_true differing).not_agreed (always.reached reached)
  · intro always
    have ends : (Machine.run (step demoBridge)
        (tabsStart [] fun tab => if tab = 0 then [demoTrade] else []) staysOpen).map
        (fun t => decide (t.Differing 0 0 1 1)) = some true := by decide +kernel
    obtain ⟨t, reached, differing⟩ := Option.map_eq_some_iff.mp ends
    exact (of_decide_eq_true differing).not_agreed (always.reached reached)

end TabDesk

end Binbot
