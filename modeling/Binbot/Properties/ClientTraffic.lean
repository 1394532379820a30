import Binbot.Machine.Run
import Binbot.Server.ClientRules
import Binbot.Server.WorkRules

/-!
# Clients that come and go

A broadcast reaches every client once as long as the set it goes through stays as it is. A
client that connects while no broadcast is under way is told of what it has missed by its
backfill, and of the rest like all the others.
-/
namespace Binbot

open Async Data

/-- The closed trades that a backfill is sending. -/
def Work.trades : Work → List ClosedTrade
  | .waiting q _ => q.trades
  | _ => []

/-- What a client is still to be told of by the broadcast that is under way. -/
def Work.due (clients : LiveSet ClientId) (client : ClientId) : Work → List ClosedTrade
  | .sweeping sweep _ =>
    if client ∈ sweep.client :: clients.remaining sweep.cursor then sweep.message.trades else []
  | _ => []

/-- If a broadcast is over with this send, it leaves the set of clients as it is. -/
def Work.Leaves (clients : LiveSet ClientId) (ok : Bool) (layout : Option (List (Option ClientId))) :
    Work → Prop
  | .sweeping sweep _ => clients.next sweep.cursor = .stop →
    layout = none ∧ ∀ client ∈ sweep.deadAfter ok, client ∉ clients.members
  | _ => True

instance (clients : LiveSet ClientId) (ok : Bool) (layout : Option (List (Option ClientId))) :
    (work : Work) → Decidable (work.Leaves clients ok layout)
  | .sweeping _ _ => inferInstanceAs (Decidable (_ → _ ∧ ∀ client ∈ _, _))
  | .idle | .waiting _ _ => .isTrue trivial

namespace Worker

variable {worker : Worker} {tracker other : TradeTracker} {w : List ClosedTrade}
  {s t : BridgeMemory}

/-- What a worker's segment leaves as it is. -/
def Kept (worker : Worker) (s t : BridgeMemory) : Prop :=
  t.desk.clients = s.desk.clients ∧ (worker ≠ .dispatcher → t.tracker = s.tracker)

theorem Kept.trans {u : BridgeMemory} (first : worker.Kept s t) (second : worker.Kept t u) :
    worker.Kept s u :=
  ⟨second.1.trans first.1, fun beside => (second.2 beside).trans (first.2 beside)⟩

theorem kept_of_guar (written : worker.rules.guar s t) : worker.Kept s t := by
  cases worker with
  | dispatcher => exact ⟨written, fun beside => absurd rfl beside⟩
  | background n => exact ⟨written.1, fun _ => written.2⟩
  | client id => exact ⟨written.1, fun _ => written.2⟩

/-- A program of the worker stands at a suspension, or has ended: what it asked for it may
ask for, and it goes on as it may. -/
def Stands (worker : Worker) (tracker : TradeTracker) (w : List ClosedTrade) (s : BridgeMemory) :
    Work → Prop
  | .idle => ∃ r, worker.Ends tracker r w s
  | .sweeping sweep next => worker.rules.issue (.broadcast sweep.message) w s ∧
      ∀ r w' s', worker.rules.rely (.broadcast sweep.message) r w s w' s' →
        (next r).Obeys worker.rules (worker.Ends tracker) w' s'
  | .waiting q next => (∀ message, q ≠ .broadcast message) ∧ worker.rules.issue q w s ∧
      ∀ r w' s', worker.rules.rely q r w s w' s' →
        (next r).Obeys worker.rules (worker.Ends tracker) w' s'

/-- The other workers care for nothing that the dispatcher writes. -/
theorem Stands.beside {work : Work} (beside : worker ≠ .dispatcher)
    (stands : worker.Stands tracker w s work) : worker.Stands other w t work := by
  cases worker with
  | dispatcher => exact absurd rfl beside
  | background n =>
    cases work with
    | idle => exact ⟨.ok (), trivial⟩
    | sweeping sweep next => exact stands
    | waiting q next => exact stands
  | client id =>
    cases work with
    | idle => exact stands
    | sweeping sweep next => exact stands
    | waiting q next => exact stands

theorem Stands.tracked {work : Work} (same : t.tracker = s.tracker)
    (stands : Worker.dispatcher.Stands tracker w s work) :
    Worker.dispatcher.Stands tracker w t work := by
  cases work with
  | idle =>
    obtain ⟨r, returned, left, told⟩ := stands
    exact ⟨r, returned, same.trans left, told⟩
  | sweeping sweep next =>
    obtain ⟨⟨broadcasts, closed⟩, goes⟩ := stands
    refine ⟨⟨broadcasts, by rw [same, closed]⟩, ?_⟩
    rintro r w' s' ⟨fair, kept, rfl⟩
    exact goes r _ s' ⟨fair, kept.trans same, by rw [same]⟩
  | waiting q next =>
    obtain ⟨elsewhere, ⟨broadcasts, closed⟩, goes⟩ := stands
    refine ⟨elsewhere, ⟨broadcasts, by rw [same, closed]⟩, ?_⟩
    rintro r w' s' ⟨fair, kept, rfl⟩
    exact goes r _ s' ⟨fair, kept.trans same, by rw [same]⟩

/-- A client's worker waits for the send of what the client is still to be told of. -/
theorem Stands.trades {id : ClientId} {work : Work}
    (stands : (Worker.client id).Stands tracker w s work) : work.trades = w := by
  cases work with
  | idle =>
    obtain ⟨r, caught⟩ := stands
    exact caught.symm
  | sweeping sweep next =>
    obtain ⟨⟨message, same, -⟩, -⟩ := stands
    cases same
  | waiting q next =>
    obtain ⟨-, ⟨message, rfl, missed⟩, -⟩ := stands
    exact missed

end Worker

theorem Worker.alone_rules (worker : Worker) : Alone worker.rules := by
  constructor
  · intro message w s issue
    cases worker with
    | dispatcher => exact ⟨_, rfl, rfl, rfl⟩
    | background n => exact ⟨w, trivial⟩
    | client id => exact ⟨[], rfl⟩
  · exact fun written => (Worker.kept_of_guar written).1

/-- A program runs on to a suspension at which it stands. A broadcast that finds no client is
over at once. -/
theorem Stand.of_obeys {worker : Worker} {tracker : TradeTracker}
    {program : Coro BridgeMemory bridgeSig Unit} {w : List ClosedTrade} {s : BridgeMemory}
    (obeys : program.Obeys worker.rules (worker.Ends tracker) w s) :
    worker.Kept s (Stand.of program s).memory ∧
    (∀ sweep next, (Stand.of program s).work = .sweeping sweep next →
      s.desk.clients.next s.desk.clients.iter = .item sweep.client sweep.cursor) ∧
    ∃ w', (s.desk.clients.members ≠ [] → w' = w) ∧
      worker.Stands tracker w' (Stand.of program s).memory (Stand.of program s).work ∧
      ∀ e, (Stand.of program s).raised = some e →
        worker.Ends tracker (.error e) w' (Stand.of program s).memory := by
  have kept := Stand.memory_of_contract worker.alone_rules worker.Kept
    (fun s => ⟨rfl, fun _ => rfl⟩) Worker.Kept.trans Worker.kept_of_guar obeys
  obtain ⟨begins, w', same, stands, raises⟩ := Stand.of_contract worker.alone_rules obeys
  refine ⟨kept, begins, w', fun some_ => same (.inl some_), ?_, raises⟩
  cases standing : (Stand.of program s).work <;> exact standing ▸ stands

namespace ClientDesk

variable {bridge : ClientBridge} {t v : ClientDesk}

/-- The closed trades that a client has been told of. -/
def received (t : ClientDesk) (client : ClientId) : List ClosedTrade :=
  (t.inbox client).flatMap ClientMessage.trades

/-- What the client has been told of and what its backfill is telling it. -/
def heard (t : ClientDesk) (client : ClientId) : List ClosedTrade :=
  t.received client ++ (t.work (.client client)).trades

/-- An event's broadcast is under way. -/
def Broadcasting (t : ClientDesk) : Prop := ∃ sweep next, t.work .dispatcher = .sweeping sweep next

instance (t : ClientDesk) : Decidable t.Broadcasting :=
  match work : t.work .dispatcher with
  | .sweeping sweep next => .isTrue ⟨sweep, next, work⟩
  | .idle | .waiting _ _ => .isFalse fun ⟨_, _, sweeping⟩ => by cases work.symm.trans sweeping

theorem due_nil (none_ : ¬ t.Broadcasting) (clients : LiveSet ClientId) (client : ClientId) :
    (t.work .dispatcher).due clients client = [] := by
  cases work : t.work .dispatcher with
  | sweeping sweep next => exact absurd ⟨sweep, next, work⟩ none_
  | _ => rfl

/-- Every client that no send has failed to has heard of the trades found on disk and of
these. -/
def Told (t : ClientDesk) (told : List ClosedTrade) : Prop :=
  ∀ client ∈ t.memory.desk.clients.members, client ∉ t.failed →
    (t.heard client).Perm (t.recovered ++ told)

structure Inv (bridge : ClientBridge) (t : ClientDesk) : Prop where
  stands : ∀ worker : Worker, ∃ w,
    worker.Stands (bridge.after {} t.fills) w t.memory (t.work worker)
  /-- An event's broadcast goes through the set as it was when it began. -/
  walks : ∀ sweep next, t.work .dispatcher = .sweeping sweep next →
    sweep.cursor.used = t.memory.desk.clients.size ∧
      (sweep.client :: t.memory.desk.clients.remaining sweep.cursor).Nodup
  told : ∀ client ∈ t.memory.desk.clients.members, client ∉ t.failed →
    (t.heard client ++ (t.work .dispatcher).due t.memory.desk.clients client).Perm
      (t.recovered ++ t.memory.tracker.closedTrades)
  silent : t.logged = []

/-- Whatever becomes of the memory, the other workers stand. -/
theorem Inv.others (held : Inv bridge t) (tracker : TradeTracker) (s : BridgeMemory)
    (worker : Worker) (beside : worker ≠ .dispatcher) :
    ∃ w, worker.Stands tracker w s (t.work worker) := by
  obtain ⟨w, before⟩ := held.stands worker
  exact ⟨w, before.beside beside⟩

/-- What a step beside the dispatcher leaves as it is. -/
structure Apart (t v : ClientDesk) : Prop where
  dispatcher : v.work .dispatcher = t.work .dispatcher
  tracker : v.memory.tracker = t.memory.tracker
  fills : v.fills = t.fills
  logged : v.logged = t.logged
  recovered : v.recovered = t.recovered
  clients : t.Broadcasting → v.memory.desk.clients = t.memory.desk.clients

/-- The client has heard what it had heard before, or else no event's broadcast is under way
and it hears of everything. -/
def Hears (t v : ClientDesk) (client : ClientId) : Prop :=
  (client ∈ t.memory.desk.clients.members ∧ client ∉ t.failed ∧ v.heard client = t.heard client) ∨
    (¬ t.Broadcasting ∧ (v.heard client).Perm (t.recovered ++ t.memory.tracker.closedTrades))

theorem Inv.beside (held : Inv bridge t) (apart : Apart t v)
    (stands : ∀ worker : Worker, worker ≠ .dispatcher → ∃ w,
      worker.Stands (bridge.after {} t.fills) w v.memory (v.work worker))
    (heard : ∀ client ∈ v.memory.desk.clients.members, client ∉ v.failed → Hears t v client) :
    Inv bridge v := by
  refine ⟨fun worker => ?_, ?_, ?_, apart.logged.trans held.silent⟩
  · rw [apart.fills]
    by_cases same : worker = .dispatcher
    · subst same
      obtain ⟨w, before⟩ := held.stands .dispatcher
      rw [apart.dispatcher]
      exact ⟨w, before.tracked apart.tracker⟩
    · exact stands worker same
  · intro sweep next sweeping
    rw [apart.dispatcher] at sweeping
    rw [apart.clients ⟨sweep, next, sweeping⟩]
    exact held.walks sweep next sweeping
  · intro client member healthy
    rw [apart.dispatcher, apart.tracker, apart.recovered]
    rcases heard client member healthy with ⟨before, sound, same⟩ | ⟨none_, all⟩
    · rw [same]
      have told := held.told client before sound
      by_cases under : t.Broadcasting
      · rwa [apart.clients under]
      · rw [due_nil under, List.append_nil] at told ⊢
        exact told
    · rwa [due_nil none_, List.append_nil]

theorem heard_congr {client : ClientId} (inbox : v.inbox client = t.inbox client)
    (work : v.work (.client client) = t.work (.client client)) : v.heard client = t.heard client := by
  rw [heard, heard, received, received, inbox, work]

theorem setWork_heard {worker : Worker} {client : ClientId} (other : .client client ≠ worker)
    (work : Work) : (t.setWork worker work).heard client = t.heard client :=
  heard_congr rfl (t.setWork_ne work other)

theorem resume_heard {worker : Worker} {client : ClientId} (other : .client client ≠ worker)
    (program : Coro BridgeMemory bridgeSig Unit) :
    (t.resume worker program).heard client = t.heard client :=
  heard_congr rfl (t.resume_work_ne other program)

/-- The dispatcher runs on. Whoever is there when a broadcast begins is due to be told. -/
theorem Inv.resumed (told : List ClosedTrade) {program : Coro BridgeMemory bridgeSig Unit}
    (stands : ∀ worker : Worker, worker ≠ .dispatcher → ∃ w,
      worker.Stands (bridge.after {} t.fills) w t.memory (t.work worker))
    (heard : t.Told told) (silent : t.logged = [])
    (obeys : program.Obeys Worker.dispatcher.rules
      (Worker.dispatcher.Ends (bridge.after {} t.fills)) told t.memory) :
    Inv bridge (t.resume .dispatcher program) := by
  obtain ⟨kept, begins, w, same, stand, raises⟩ := Stand.of_obeys obeys
  refine ⟨fun worker => ?_, ?_, ?_, ?_⟩
  · by_cases here : worker = .dispatcher
    · subst here
      rw [resume_work]
      exact ⟨w, stand⟩
    · obtain ⟨w, before⟩ := stands worker here
      rw [t.resume_work_ne here]
      exact ⟨w, before.beside here⟩
  · intro sweep next sweeping
    rw [resume_work] at sweeping
    obtain ⟨used, members⟩ := LiveSet.members_of_first (begins sweep next sweeping)
    rw [resume_memory, kept.1]
    exact ⟨used, members ▸ t.memory.desk.clients.members_nodup⟩
  · intro client member healthy
    rw [resume_memory, kept.1] at member
    rw [resume_heard (by simp), resume_work, resume_memory, kept.1]
    -- with a client there, no broadcast was skipped on the way
    obtain rfl := same (List.ne_nil_of_mem member)
    have before := heard client member healthy
    cases standing : (Stand.of program t.memory).work with
    | idle =>
      rw [standing] at stand
      obtain ⟨r, -, left, told⟩ := stand
      rw [left, ← told]
      simp only [Work.due, List.append_nil]
      exact before
    | sweeping sweep next =>
      rw [standing] at stand
      obtain ⟨-, members⟩ := LiveSet.members_of_first (begins sweep next standing)
      rw [stand.1.2, Work.due, if_pos (members ▸ member), ← List.append_assoc]
      exact before.append_right _
    | waiting q next =>
      rw [standing] at stand
      obtain ⟨elsewhere, ⟨broadcasts, closed⟩, -⟩ := stand
      have none_ : q.trades = [] := by
        cases q with
        | broadcast message => exact absurd rfl (elsewhere message)
        | send client message => exact absurd rfl (broadcasts client message)
        | _ => rfl
      rw [closed, none_]
      simp only [Work.due, List.append_nil]
      exact before
  · change (if Worker.dispatcher = .dispatcher then t.logged ++
      (Stand.of program t.memory).raised.toList else t.logged) = []
    rw [if_pos rfl, silent, List.nil_append]
    cases raised : (Stand.of program t.memory).raised with
    | none => rfl
    | some e => cases (raises e raised).1

/-- A client that no send has failed to has received what was sent. -/
theorem received_told {client other : ClientId} {message : ClientMessage} {ok : Bool}
    (healthy : other ∉ (t.told client message ok).failed) :
    other ∉ t.failed ∧ (t.told client message ok).received other =
      t.received other ++ if other = client then message.trades else [] := by
  cases ok with
  | true =>
    refine ⟨healthy, ?_⟩
    change (Function.update t.inbox client (t.inbox client ++ [message]) other).flatMap _ = _
    by_cases here : other = client
    · subst here
      rw [Function.update_self, if_pos rfl, List.flatMap_append, List.flatMap_singleton]
      rfl
    · rw [Function.update_of_ne here, if_neg here, List.append_nil]
      rfl
  | false =>
    have failed : other ∉ client :: t.failed := healthy
    rw [List.mem_cons, not_or] at failed
    refine ⟨failed.2, ?_⟩
    rw [if_neg failed.1, List.append_nil]
    rfl

/-- The client whose send is under way, and the ones after it. -/
theorem due_sweeping {clients : LiveSet ClientId} {sweep : Sweep} (client : ClientId)
    (next : Except String Unit → Coro BridgeMemory bridgeSig Unit)
    (once : (sweep.client :: clients.remaining sweep.cursor).Nodup) :
    (Work.sweeping sweep next).due clients client =
      (if client = sweep.client then sweep.message.trades else []) ++
        if client ∈ clients.remaining sweep.cursor then sweep.message.trades else [] := by
  rw [Work.due]
  by_cases here : client = sweep.client
  · subst here
    rw [if_pos List.mem_cons_self, if_pos rfl, if_neg (List.nodup_cons.mp once).1,
      List.append_nil]
  · rw [if_neg here, List.nil_append]
    simp only [List.mem_cons, here, false_or]

/-- One send of an event's broadcast has ended. -/
theorem Inv.swept (held : Inv bridge t) {sweep : Sweep}
    {next : Except String Unit → Coro BridgeMemory bridgeSig Unit}
    (sweeping : t.work .dispatcher = .sweeping sweep next) (ok : Bool)
    (layout : Option (List (Option ClientId))) :
    Inv bridge (t.sweepOn .dispatcher sweep next ok layout) := by
  obtain ⟨used, once⟩ := held.walks sweep next sweeping
  obtain ⟨w, stand⟩ := held.stands .dispatcher
  rw [sweeping] at stand
  -- what this client was still to be told of it has now received
  have moved : ∀ client ∈ t.memory.desk.clients.members,
      client ∉ (t.told sweep.client sweep.message ok).failed →
      ((t.told sweep.client sweep.message ok).heard client ++
        if client ∈ t.memory.desk.clients.remaining sweep.cursor then sweep.message.trades
        else []).Perm (t.recovered ++ t.memory.tracker.closedTrades) := by
    intro client member healthy
    obtain ⟨before, received⟩ := received_told healthy
    have told := held.told client member before
    -- the send under way is the first part of what is due
    rw [sweeping, due_sweeping client next once] at told
    rw [heard, received]
    refine List.Perm.trans ?_ told
    change (_ ++ (t.work (.client client)).trades ++ _).Perm _
    rw [heard, List.append_assoc, List.append_assoc, List.append_assoc]
    refine List.Perm.append_left _ ?_
    rw [← List.append_assoc, ← List.append_assoc]
    exact List.perm_append_comm.append_right _
  rw [sweepOn]
  rcases LiveSet.next_cases used with ⟨stop, empty⟩ | ⟨client, cursor, item, used', split⟩
  · rw [stop]
    apply Inv.resumed t.memory.tracker.closedTrades
    · exact held.others _ _
    · intro client member healthy
      have kept := (LiveSet.mem_diff.mp member).1
      have told := moved client kept healthy
      rw [empty, if_neg List.not_mem_nil, List.append_nil] at told
      exact told
    · exact held.silent
    · exact stand.2 (.ok ()) _ _ ⟨rfl, rfl, rfl⟩
  · rw [item]
    rw [split] at once moved
    refine ⟨fun worker => ?_, ?_, ?_, held.silent⟩
    · dsimp only
      by_cases here : worker = .dispatcher
      · subst here
        rw [setWork_same]
        exact ⟨w, stand⟩
      · rw [setWork_ne _ _ here]
        exact held.others _ _ worker here
    · dsimp only
      rw [setWork_same]
      rintro sweep' next' same
      cases same
      exact ⟨used', (List.nodup_cons.mp once).2⟩
    · dsimp only
      intro other member healthy
      rw [setWork_same, setWork_heard (by simp)]
      exact moved other member healthy

section Beside

variable {u : ClientDesk} {worker : Worker} {program : Coro BridgeMemory bridgeSig Unit}
  {w : List ClosedTrade}

/-- Another worker than the dispatcher runs on. -/
theorem Inv.ran (held : Inv bridge t) (apart : Apart t u) (work : u.work = t.work)
    (beside : worker ≠ .dispatcher)
    (obeys : program.Obeys worker.rules (worker.Ends (bridge.after {} t.fills)) w u.memory)
    (heard : ∀ client ∈ u.memory.desk.clients.members, client ∉ u.failed →
      Hears t (u.resume worker program) client) : Inv bridge (u.resume worker program) := by
  obtain ⟨kept, -, w', -, stand, -⟩ := Stand.of_obeys obeys
  refine held.beside ⟨?_, (kept.2 beside).trans apart.tracker, apart.fills, ?_, apart.recovered,
    fun under => kept.1.trans (apart.clients under)⟩ (fun other elsewhere => ?_) ?_
  · rw [u.resume_work_ne beside.symm]
    exact apart.dispatcher
  · rw [resume, if_neg beside]
    exact apart.logged
  · by_cases same : other = worker
    · subst same
      rw [resume_work]
      exact ⟨w', stand⟩
    · rw [u.resume_work_ne same, work]
      exact held.others _ _ other elsewhere
  · rw [resume_memory, kept.1]
    exact heard

/-- A client that is there hears of what its backfill has begun to send. -/
theorem resume_heard_self {id : ClientId} {tracker : TradeTracker}
    (obeys : program.Obeys (Worker.client id).rules ((Worker.client id).Ends tracker) w u.memory)
    (member : id ∈ u.memory.desk.clients.members) :
    (u.resume (.client id) program).heard id = u.received id ++ w := by
  obtain ⟨-, -, w', same, stand, -⟩ := Stand.of_obeys obeys
  rw [heard, resume_work, stand.trades, same (List.ne_nil_of_mem member)]
  rfl

/-- Nothing about closed trades has been sent. -/
theorem told_heard {client other : ClientId} {message : ClientMessage} {ok : Bool}
    (none_ : message.trades = []) (healthy : other ∉ (t.told client message ok).failed) :
    other ∉ t.failed ∧ (t.told client message ok).heard other = t.heard other := by
  obtain ⟨before, received⟩ := received_told healthy
  refine ⟨before, ?_⟩
  rw [heard, received, none_, ite_self, List.append_nil]
  rfl

theorem Inv.pushed (held : Inv bridge t) (n : ℕ) (job : Job) :
    Inv bridge (t.resume (.background n) job.body) := by
  apply held.ran (u := t) ⟨rfl, rfl, rfl, rfl, rfl, fun _ => rfl⟩ rfl (by simp)
    (ClientBridge.job_obeys job _ n [] _)
  intro client member healthy
  exact .inl ⟨member, healthy, resume_heard (by simp) _⟩

/-- One send of another task's broadcast has ended. -/
theorem Inv.sweptBeside (held : Inv bridge t) {n : ℕ} {sweep : Sweep}
    {next : Except String Unit → Coro BridgeMemory bridgeSig Unit}
    (sweeping : t.work (.background n) = .sweeping sweep next) (ok : Bool)
    (layout : Option (List (Option ClientId)))
    (leaves : t.Broadcasting → t.memory.desk.clients.next sweep.cursor = .stop →
      layout = none ∧ ∀ client ∈ sweep.deadAfter ok, client ∉ t.memory.desk.clients.members) :
    Inv bridge (t.sweepOn (.background n) sweep next ok layout) := by
  obtain ⟨w, stand⟩ := held.stands (.background n)
  rw [sweeping] at stand
  obtain ⟨message, same, none_⟩ := stand.1
  cases same
  rw [sweepOn]
  cases found : t.memory.desk.clients.next sweep.cursor with
  | changed =>
    apply held.ran (u := t.told sweep.client sweep.message ok) ⟨rfl, rfl, rfl, rfl, rfl, fun _ => rfl⟩
      rfl (by simp) (stand.2 _ [] _ trivial)
    intro client member healthy
    obtain ⟨before, same⟩ := told_heard none_ healthy
    exact .inl ⟨member, before, (resume_heard (by simp) _).trans same⟩
  | stop =>
    -- the only change of the set, and not while an event is broadcast
    have clients : t.Broadcasting →
        t.memory.desk.clients.diff (sweep.deadAfter ok) layout = t.memory.desk.clients := by
      intro under
      obtain ⟨rfl, absent⟩ := leaves under found
      exact LiveSet.diff_absent absent
    apply held.ran
      (u := (t.told sweep.client sweep.message ok).setClients
        (t.memory.desk.clients.diff (sweep.deadAfter ok) layout))
      ⟨rfl, rfl, rfl, rfl, rfl, clients⟩ rfl (by simp) (stand.2 _ [] _ trivial)
    intro client member healthy
    obtain ⟨before, same⟩ := told_heard none_ healthy
    exact .inl ⟨(LiveSet.mem_diff.mp member).1, before, (resume_heard (by simp) _).trans same⟩
  | item client cursor =>
    dsimp only
    refine held.beside ⟨setWork_ne _ _ (by simp), rfl, rfl, rfl, rfl, fun _ => rfl⟩
      (fun worker beside => ?_) fun other member healthy => ?_
    · by_cases here : worker = .background n
      · subst here
        rw [setWork_same]
        exact ⟨w, stand⟩
      · rw [setWork_ne _ _ here]
        exact held.others _ _ worker beside
    · obtain ⟨before, same⟩ := told_heard none_ healthy
      exact .inl ⟨member, before, (setWork_heard (by simp) _).trans same⟩

/-- One send of a client's backfill has ended. -/
theorem Inv.backfilled (held : Inv bridge t) {id client : ClientId} {message : ClientMessage}
    {next : Answer bridgeSig (.send client message) → Coro BridgeMemory bridgeSig Unit}
    (waiting : t.work (.client id) = .waiting (.send client message) next) (ok : Bool)
    (r : Except String Unit) : Inv bridge ((t.told client message ok).resume (.client id) (next r)) := by
  obtain ⟨w, stand⟩ := held.stands (.client id)
  rw [waiting] at stand
  obtain ⟨-, ⟨message, same, -⟩, goes⟩ := stand
  cases same
  have obeys := goes r [] (t.told id message ok).memory rfl
  apply held.ran (u := t.told id message ok) ⟨rfl, rfl, rfl, rfl, rfl, fun _ => rfl⟩ rfl (by simp) obeys
  intro other member healthy
  obtain ⟨before, received⟩ := received_told healthy
  refine .inl ⟨member, before, ?_⟩
  -- what the backfill was sending has arrived
  by_cases here : other = id
  · subst here
    rw [resume_heard_self obeys member, received, if_pos rfl, List.append_nil, heard, waiting]
    rfl
  · rw [resume_heard (by simpa using here), heard, received, if_neg here, List.append_nil]
    rfl

/-- A client connects when the bridge remembers every trade. -/
theorem Inv.connected (held : Inv bridge t) (client : ClientId) (layout : List (Option ClientId))
    (none_ : ¬ t.Broadcasting)
    (all : t.memory.desk.closedTradesRecent = t.recovered ++ t.memory.tracker.closedTrades) :
    Inv bridge ((t.joined client layout).resume (.client client)
      (ClientBridge.sendBackfill client)) := by
  have obeys := ClientBridge.sendBackfill_obeys client (bridge.after {} t.fills)
    (t.joined client layout).memory
  apply held.ran (u := t.joined client layout)
    ⟨rfl, rfl, rfl, rfl, rfl, fun under => absurd under none_⟩ rfl (by simp) obeys
  · intro other member healthy
    by_cases here : other = client
    · subst here
      refine .inr ⟨none_, ?_⟩
      rw [resume_heard_self obeys (LiveSet.mem_insert.mpr (.inl rfl)), received]
      change ((Function.update t.inbox other [] other).flatMap _ ++
        t.memory.desk.closedTradesRecent).Perm _
      rw [Function.update_self, all]
      exact .refl _
    · refine .inl ⟨(LiveSet.mem_insert.mp member).resolve_left here, healthy, ?_⟩
      rw [resume_heard (by simpa using here)]
      exact heard_congr (Function.update_of_ne here ..) rfl

theorem Inv.disconnected (held : Inv bridge t) (client : ClientId)
    (absent : t.Broadcasting → client ∉ t.memory.desk.clients.members) :
    Inv bridge (t.setClients (t.memory.desk.clients.discard client)) := by
  refine held.beside ⟨rfl, rfl, rfl, rfl, rfl, fun under => ?_⟩ (held.others _ _)
    fun other member healthy => ?_
  · apply LiveSet.diff_absent
    intro x gone
    rw [List.mem_singleton] at gone
    exact gone ▸ absent under
  · exact .inl ⟨(LiveSet.mem_diff.mp member).1, healthy, rfl⟩

theorem Inv.elsewhere (held : Inv bridge t) (manager : ManagerState) (reasons : CloseReasons) :
    Inv bridge { t with memory := { t.memory with manager, reasons } } := by
  refine held.beside ⟨rfl, rfl, rfl, rfl, rfl, fun _ => rfl⟩ ?_ fun other member healthy => ?_
  · exact held.others _ _
  · exact .inl ⟨member, healthy, rfl⟩

end Beside

/-! ## Runs -/

/-- While an event's broadcast is under way nobody connects or is taken out of the set. A
client connects when the bridge remembers every closed trade, and the multiplier of every
fill is known. -/
def Calm (bridge : ClientBridge) (t : ClientDesk) : Act → Prop
  | .dispatch event => ∀ fill ∈ t.memory.knownFills event,
    (bridge.multiplier fill.symbol).isOk = true
  | .connect _ _ => ¬ t.Broadcasting ∧
    t.memory.desk.closedTradesRecent = t.recovered ++ t.memory.tracker.closedTrades
  | .disconnect client => t.Broadcasting → client ∉ t.memory.desk.clients.members
  | .sent worker ok layout => worker ≠ .dispatcher → t.Broadcasting →
    (t.work worker).Leaves t.memory.desk.clients ok layout
  | _ => True

instance (bridge : ClientBridge) (t : ClientDesk) : (act : Act) → Decidable (Calm bridge t act)
  | .dispatch _ => inferInstanceAs (Decidable (∀ fill ∈ _, _))
  | .connect _ _ => inferInstanceAs (Decidable (¬ _ ∧ _))
  | .disconnect _ => inferInstanceAs (Decidable (_ → ¬ _))
  | .sent _ _ _ => inferInstanceAs (Decidable (¬ _ → _ → _))
  | .push _ _ | .fetched _ | .notified | .elsewhere _ _ => .isTrue trivial

theorem Inv.idle (held : Inv bridge t) (none_ : ¬ t.Broadcasting) :
    t.Told t.memory.tracker.closedTrades := by
  intro client member healthy
  have told := held.told client member healthy
  rwa [due_nil none_, List.append_nil] at told

theorem Inv.dispatched (held : Inv bridge t) {event : BusEvent}
    (idle : t.work .dispatcher = .idle)
    (known : ∀ fill ∈ t.memory.knownFills event, (bridge.multiplier fill.symbol).isOk = true) :
    Inv bridge ({ t with fills := t.fills ++ t.memory.knownFills event }.resume .dispatcher
      (bridge.onEvent event)) := by
  obtain ⟨w, stand⟩ := held.stands .dispatcher
  rw [idle] at stand
  obtain ⟨r, -, left, -⟩ := stand
  apply Inv.resumed t.memory.tracker.closedTrades
  · exact held.others _ _
  · exact held.idle fun under => by
      obtain ⟨sweep, next, sweeping⟩ := under
      cases idle.symm.trans sweeping
  · exact held.silent
  · have later : bridge.after {} (t.fills ++ t.memory.knownFills event) =
        bridge.after t.memory.tracker (t.memory.knownFills event) := by
      rw [left, ClientBridge.after, List.foldl_append]
      rfl
    dsimp only
    rw [later]
    exact bridge.onEvent_obeys event known

/-- A call has ended that is no broadcast. -/
theorem Inv.answered (held : Inv bridge t) {q : BridgeRequest} {r : Answer bridgeSig q}
    {next : Answer bridgeSig q → Coro BridgeMemory bridgeSig Unit}
    (waiting : t.work .dispatcher = .waiting q next) (fair : q.Fair r) :
    Inv bridge (t.resume .dispatcher (next r)) := by
  obtain ⟨w, stand⟩ := held.stands .dispatcher
  rw [waiting] at stand
  apply Inv.resumed t.memory.tracker.closedTrades
  · exact held.others _ _
  · exact held.idle fun under => by
      obtain ⟨sweep, next, sweeping⟩ := under
      cases waiting.symm.trans sweeping
  · exact held.silent
  · exact stand.2.2 r _ _ ⟨fair, rfl, rfl⟩

theorem step_inv (held : Inv bridge t) {act : Act} (calm : Calm bridge t act)
    (moved : step bridge t act = some v) : Inv bridge v := by
  cases act with
  | dispatch event =>
    simp only [step] at moved
    split at moved
    next idle =>
      cases moved
      exact held.dispatched idle calm
    · cases moved
  | push n job =>
    simp only [step] at moved
    split at moved
    · cases moved
      exact held.pushed n job
    · cases moved
  | connect client layout =>
    simp only [step] at moved
    split at moved
    · cases moved
    · cases moved
      exact held.connected client layout calm.1 calm.2
  | disconnect client =>
    simp only [step] at moved
    split at moved
    · cases moved
      exact held.disconnected client calm
    · cases moved
  | sent worker ok layout =>
    simp only [step] at moved
    split at moved
    next sweep next sweeping =>
      cases moved
      cases worker with
      | dispatcher => exact held.swept sweeping ok layout
      | background n =>
        apply held.sweptBeside sweeping ok layout
        intro under
        have leaves := calm (by simp) under
        rwa [sweeping] at leaves
      -- a client's worker sends to its own client and broadcasts nothing
      | client id =>
        obtain ⟨w, stand⟩ := held.stands (.client id)
        rw [sweeping] at stand
        obtain ⟨⟨message, same, -⟩, -⟩ := stand
        cases same
    next client message next waiting =>
      cases moved
      obtain ⟨w, stand⟩ := held.stands worker
      rw [waiting] at stand
      cases worker with
      -- single sends are the backfill's, so that the worker is the client's
      | dispatcher => exact absurd rfl (stand.2.1.1 client message)
      | background n =>
        obtain ⟨-, ⟨message, same, -⟩, -⟩ := stand
        cases same
      | client id => exact held.backfilled waiting ok _
    · cases moved
  | fetched candles =>
    simp only [step] at moved
    split at moved
    next symbol limit next waiting =>
      cases moved
      exact held.answered waiting trivial
    · cases moved
  | notified =>
    simp only [step] at moved
    split at moved
    next text next waiting =>
      cases moved
      exact held.answered waiting rfl
    · cases moved
  | elsewhere manager reasons =>
    cases moved
    exact held.elsewhere manager reasons

theorem started_inv (manager : ManagerState) (recovered : List ClosedTrade)
    (lines : List AuditLine) : Inv bridge (started manager recovered lines) := by
  refine ⟨fun worker => ?_, fun sweep next sweeping => ?_, fun client member => ?_, rfl⟩
  · refine ⟨[], ?_⟩
    cases worker with
    | dispatcher => exact ⟨.ok (), rfl, rfl, rfl⟩
    | background n => exact ⟨.ok (), trivial⟩
    | client id => exact ⟨.ok (), rfl⟩
  · cases sweeping
  · cases member

/-- No event's handler has met a set that changed under it. Between two events every fill of
a known order has been applied once, and every client has each closed trade once, as soon as
its backfill is through. -/
structure Undisturbed (bridge : ClientBridge) (t : ClientDesk) : Prop where
  raised : "Set changed size during iteration" ∉ t.logged
  applied : t.work .dispatcher = .idle → t.memory.tracker = bridge.after {} t.fills
  told : t.work .dispatcher = .idle → ∀ client ∈ t.memory.desk.clients.members, client ∉ t.failed →
    t.work (.client client) = .idle →
      (t.received client).Perm (t.recovered ++ t.memory.tracker.closedTrades)

/-- In a run that leaves the set of clients alone while an event is broadcast, clients that
come and go disturb nothing. -/
theorem clients_undisturbed (bridge : ClientBridge) (manager : ManagerState)
    (recovered : List ClosedTrade) (lines : List AuditLine) (acts : List Act) (t : ClientDesk)
    (calm : Machine.Meets (step bridge) (Calm bridge) (started manager recovered lines) acts)
    (reached : Machine.run (step bridge) (started manager recovered lines) acts = some t) :
    Undisturbed bridge t := by
  have held : Inv bridge t := Machine.run_invariant (Inv bridge)
    (fun s act u held calm moved => step_inv held calm moved) _ acts t
    (started_inv manager recovered lines) calm reached
  refine ⟨by simp [held.silent], fun idle => ?_, fun idle client member healthy through => ?_⟩
  · obtain ⟨w, stand⟩ := held.stands .dispatcher
    rw [idle] at stand
    obtain ⟨r, -, left, -⟩ := stand
    exact left
  · have told := held.told client member healthy
    rw [idle, heard, through] at told
    simpa [Work.due, Work.trades] using told

/-! ## A round trip -/

def demoBridge : ClientBridge where
  chartSymbol := "BTCUSDT"
  provides := false
  notifies := false
  multiplier _ := .ok 1

def demoOrder (draw : ℕ) (side : OrderSide) : ManagedOrder :=
  .ofSignal (.hex draw) { symbol := "BTCUSDT", strategyId := "pairs", side, targetQuantity := 5 } none

def demoFill (draw : ℕ) (side : OrderSide) (price : ℚ) : ExecutionEvent where
  ts := 0
  orderId := .hex draw
  symbol := "BTCUSDT"
  side := side
  fillQuantity := 5
  fillPrice := price
  cumulativeQuantity := 5
  remainingQuantity := 0
  commission := 0

def demoStart : ClientDesk :=
  started { orders := .ofList [(.hex 0, demoOrder 0 .buy), (.hex 1, demoOrder 1 .sell)] } [] []

def dispatched (draw : ℕ) (side : OrderSide) (price : ℚ) : Act :=
  .dispatch (.order (.execution (demoFill draw side price)))

/-- So many sends of a worker, all through. -/
def sends (worker : Worker) (n : ℕ) : List Act := List.replicate n (.sent worker true none)

/-- One client is there from the start, one comes during the trade and one after it. -/
def threeClients : List Act :=
  [.connect 0 [some 0], dispatched 0 .buy 100] ++ sends .dispatcher 3 ++
    [.connect 1 [some 1, some 0]] ++ sends (.client 1) 1 ++ [dispatched 1 .sell 110] ++
    sends .dispatcher 10 ++ [.connect 2 [some 2, none, some 0, some 1]] ++ sends (.client 2) 2

/-- The clients, and how many trades have been closed and each of them has received. -/
def counts (t : ClientDesk) : List ClientId × ℕ × List ℕ :=
  (t.memory.desk.clients.members, t.memory.tracker.closedTrades.length,
    t.memory.desk.clients.members.map fun client => (t.received client).length)

theorem clients_undisturbed_three : ∃ t,
    Machine.run (step demoBridge) demoStart threeClients = some t ∧ Undisturbed demoBridge t ∧
      t.counts = ([2, 0, 1], 1, [1, 1, 1]) := by
  have reached : (Machine.run (step demoBridge) demoStart threeClients).map counts =
      some ([2, 0, 1], 1, [1, 1, 1]) := by decide +kernel
  obtain ⟨t, reached, counted⟩ := Option.map_eq_some_iff.mp reached
  refine ⟨t, reached, ?_, counted⟩
  exact clients_undisturbed demoBridge _ [] [] threeClients t (by decide +kernel) reached

/-- A second client connects while the first is being told of a fill. The broadcast raises,
the bus logs it, and the fill never reaches the tracker. -/
theorem client_joins_broadcast : ∃ t,
    Machine.run (step demoBridge) demoStart [.connect 0 [some 0], dispatched 0 .buy 100,
      .connect 1 [some 1, some 0], .sent .dispatcher true none] = some t ∧
    t.logged = ["Set changed size during iteration"] ∧
    t.fills = [demoFill 0 .buy 100] ∧ t.memory.tracker.openTrades.contains "BTCUSDT" = false ∧
    (demoBridge.after {} t.fills).openTrades.contains "BTCUSDT" = true ∧
    ¬ Undisturbed demoBridge t := by
  have ends : (Machine.run (step demoBridge) demoStart [.connect 0 [some 0], dispatched 0 .buy 100,
      .connect 1 [some 1, some 0], .sent .dispatcher true none]).map
        (fun t => (t.logged, t.fills, t.memory.tracker.openTrades.contains "BTCUSDT")) =
      some (["Set changed size during iteration"], [demoFill 0 .buy 100], false) := by
    decide +kernel
  obtain ⟨t, reached, state⟩ := Option.map_eq_some_iff.mp ends
  simp only [Prod.mk.injEq] at state
  obtain ⟨logged, fills, untracked⟩ := state
  refine ⟨t, reached, logged, fills, untracked, ?_, fun undisturbed => ?_⟩
  · rw [fills]
    decide +kernel
  · exact undisturbed.raised (logged ▸ List.mem_cons_self)

end ClientDesk

end Binbot
