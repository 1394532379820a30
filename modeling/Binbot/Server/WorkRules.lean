import Binbot.Async.Logic
import Binbot.Server.DashboardClients

/-!
# Where the bridge's workers stand

A worker runs from one suspension to the next, and stands there as its contract allows. A
broadcast is the exception: it is no suspension when there is no client to tell.
-/
namespace Binbot

open Async Data

variable {ω : Type} {C : Contract ω BridgeMemory bridgeSig}
variable {Q : Except String Unit → ω → BridgeMemory → Prop}

/-- The program has ended as it may, or what it asked for it may ask for, and it goes on as it
may. -/
def Work.Stands (C : Contract ω BridgeMemory bridgeSig)
    (Q : Except String Unit → ω → BridgeMemory → Prop) (w : ω) (s : BridgeMemory) : Work → Prop
  | .idle => ∃ r, Q r w s
  | .sweeping sweep next => C.issue (.broadcast sweep.message) w s ∧
      ∀ r w' s', C.rely (.broadcast sweep.message) r w s w' s' → (next r).Obeys C Q w' s'
  | .waiting q next => (∀ message, q ≠ .broadcast message) ∧ C.issue q w s ∧
      ∀ r w' s', C.rely q r w s w' s' → (next r).Obeys C Q w' s'

/-- A contract under which a broadcast that tells nobody is like one that has come back, and
under which the set of clients is left alone. -/
structure Alone (C : Contract ω BridgeMemory bridgeSig) : Prop where
  told : ∀ message w s, C.issue (.broadcast message) w s →
    ∃ w', C.rely (.broadcast message) (.ok ()) w s w' s
  clients : ∀ {s t}, C.guar s t → t.desk.clients = s.desk.clients

/-- What a segment writes is within any preorder that its contract's writes are within. -/
theorem Stand.memory_of_contract (alone : Alone C) (R : BridgeMemory → BridgeMemory → Prop)
    (refl : ∀ s, R s s) (trans : ∀ {s t u}, R s t → R t u → R s u)
    (covers : ∀ {s t}, C.guar s t → R s t) {program : Coro BridgeMemory bridgeSig Unit} {w : ω}
    {s : BridgeMemory} (obeys : program.Obeys C Q w s) : R s (Stand.of program s).memory := by
  induction program generalizing w s with
  | done a => exact refl s
  | fail e => exact refl s
  | get next ih => exact ih s obeys
  | put t next ih => exact trans (covers obeys.1) (ih obeys.2)
  | await q next ih =>
    cases q with
    | broadcast message =>
      cases first : s.desk.clients.next s.desk.clients.iter with
      | item client cursor =>
        rw [Stand.of, first]
        exact refl s
      | _ =>
        obtain ⟨w', told⟩ := alone.told message w s obeys.1
        rw [Stand.of, first]
        exact ih _ (obeys.2 _ _ _ told)
    | _ => exact refl s

/-- A program runs on to a suspension at which it stands. With a client there, or where it never
broadcasts, it has asked for nothing on the way. -/
theorem Stand.of_contract (alone : Alone C) {program : Coro BridgeMemory bridgeSig Unit} {w : ω}
    {s : BridgeMemory} (obeys : program.Obeys C Q w s) :
    (∀ sweep next, (Stand.of program s).work = .sweeping sweep next →
      s.desk.clients.next s.desk.clients.iter = .item sweep.client sweep.cursor) ∧
    ∃ w', (s.desk.clients.members ≠ [] ∨ (∀ message w s, ¬ C.issue (.broadcast message) w s) →
        w' = w) ∧
      (Stand.of program s).work.Stands C Q w' (Stand.of program s).memory ∧
      ∀ e, (Stand.of program s).raised = some e →
        Q (.error e) w' (Stand.of program s).memory := by
  induction program generalizing w s with
  | done a => exact ⟨by simp [Stand.of], w, fun _ => rfl, ⟨_, obeys⟩, by simp [Stand.of]⟩
  | fail e =>
    refine ⟨by simp [Stand.of], w, fun _ => rfl, ⟨_, obeys⟩, ?_⟩
    rintro e' raised
    cases raised
    exact obeys
  | get next ih => exact ih s obeys
  | put t next ih =>
    obtain ⟨written, rest⟩ := obeys
    obtain ⟨begins, w', same, stands⟩ := ih rest
    rw [alone.clients written] at begins same
    exact ⟨begins, w', same, stands⟩
  | await q next ih =>
    obtain ⟨issue, goes⟩ := obeys
    cases q with
    | broadcast message =>
      -- without a client the broadcast has its answer, and the program goes on
      rcases LiveSet.next_cases s.desk.clients.used_iter with ⟨stop, empty⟩ |
        ⟨client, cursor, first, -, -⟩
      · have ended : Stand.of (.await (.broadcast message) next) s =
            Stand.of (next (.ok ())) s := by rw [Stand.of, stop]
        rw [LiveSet.remaining_iter] at empty
        rw [ended]
        obtain ⟨w', told⟩ := alone.told message w s issue
        obtain ⟨begins, w'', -, stands⟩ := ih _ (goes _ _ _ told)
        refine ⟨begins, w'', ?_, stands⟩
        rintro (some_ | never)
        · exact absurd empty some_
        · exact absurd issue (never message w s)
      · have waits : Stand.of (.await (.broadcast message) next) s =
            ⟨.sweeping ⟨message, cursor, client, []⟩ next, none, s⟩ := by rw [Stand.of, first]
        rw [waits]
        refine ⟨?_, w, fun _ => rfl, ⟨issue, goes⟩, by simp⟩
        rintro sweep next' same
        cases same
        exact first
    | send client message =>
      exact ⟨by simp [Stand.of], w, fun _ => rfl, ⟨by simp, issue, goes⟩, by simp [Stand.of]⟩
    | klines symbol limit =>
      exact ⟨by simp [Stand.of], w, fun _ => rfl, ⟨by simp, issue, goes⟩, by simp [Stand.of]⟩
    | notify text =>
      exact ⟨by simp [Stand.of], w, fun _ => rfl, ⟨by simp, issue, goes⟩, by simp [Stand.of]⟩

end Binbot
