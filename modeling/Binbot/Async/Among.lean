import Binbot.Async.Logic

/-!
# A program among others

A program runs from suspension to suspension; while it waits for the answer to a
request, the rest of the process may change the memory. `serve` is both the answer
and what has happened meanwhile.
-/
namespace Binbot.Async.Coro

variable {σ ω : Type} {S : Sig} {α : Type}

section

variable (serve : ω → σ → (q : S.Req) → Answer S q × ω × σ)

def runAmong : Coro σ S α → ω → σ → Outcome ω σ α
  | .done a, w, s => ⟨.ok a, w, s⟩
  | .fail e, w, s => ⟨.error e, w, s⟩
  | .get next, w, s => (next s).runAmong w s
  | .put t next, w, _ => next.runAmong w t
  | .await q next, w, s =>
    (next (serve w s q).1).runAmong (serve w s q).2.1 (serve w s q).2.2

/-- Every suspension of the run meets the condition. -/
def RunMeets (ok : ω → σ → S.Req → Prop) : Coro σ S α → ω → σ → Prop
  | .done _, _, _ => True
  | .fail _, _, _ => True
  | .get next, w, s => (next s).RunMeets ok w s
  | .put t next, w, _ => next.RunMeets ok w t
  | .await q next, w, s =>
    ok w s q ∧ (next (serve w s q).1).RunMeets ok (serve w s q).2.1 (serve w s q).2.2

def decideRunMeets {ok : ω → σ → S.Req → Prop} (test : ∀ w s q, Decidable (ok w s q)) :
    (c : Coro σ S α) → (w : ω) → (s : σ) → Decidable (c.RunMeets serve ok w s)
  | .done _, _, _ => .isTrue trivial
  | .fail _, _, _ => .isTrue trivial
  | .get next, w, s => decideRunMeets test (next s) w s
  | .put t next, w, _ => decideRunMeets test next w t
  | .await q next, w, s =>
    have := test w s q
    have := decideRunMeets test (next (serve w s q).1) (serve w s q).2.1 (serve w s q).2.2
    inferInstanceAs (Decidable (_ ∧ _))

end

/-- A program that obeys its contract ends in the postcondition, in every run whose
suspensions keep to the rely. -/
theorem Obeys.runAmong {C : Contract ω σ S} {Q : Except String α → ω → σ → Prop}
    {serve : ω → σ → (q : S.Req) → Answer S q × ω × σ} {ok : ω → σ → S.Req → Prop}
    {c : Coro σ S α} {w : ω} {s : σ} (obeys : c.Obeys C Q w s)
    (meets : c.RunMeets serve ok w s)
    (honest : ∀ q w s, C.issue q w s → ok w s q →
      C.rely q (serve w s q).1 w s (serve w s q).2.1 (serve w s q).2.2) :
    Q (c.runAmong serve w s).result (c.runAmong serve w s).outside
      (c.runAmong serve w s).memory := by
  induction c generalizing w s with
  | done a => exact obeys
  | fail e => exact obeys
  | get next ih => exact ih s obeys meets
  | put t next ih => exact ih obeys.2 meets
  | await q next ih =>
    -- the suspension keeps the rely, and the rest of the program goes on from there
    exact ih _ (obeys.2 _ _ _ (honest q w s obeys.1 meets.1)) meets.2

theorem RunMeets.and {serve : ω → σ → (q : S.Req) → Answer S q × ω × σ}
    {ok other : ω → σ → S.Req → Prop} {c : Coro σ S α} {w : ω} {s : σ}
    (first : c.RunMeets serve ok w s) (second : c.RunMeets serve other w s) :
    c.RunMeets serve (fun w s q => ok w s q ∧ other w s q) w s := by
  induction c generalizing w s with
  | done a => trivial
  | fail e => trivial
  | get next ih => exact ih s first second
  | put t next ih => exact ih first second
  | await q next ih => exact ⟨⟨first.1, second.1⟩, ih _ first.2 second.2⟩

theorem RunMeets.imp {serve : ω → σ → (q : S.Req) → Answer S q × ω × σ}
    {ok other : ω → σ → S.Req → Prop} {c : Coro σ S α} {w : ω} {s : σ}
    (meets : c.RunMeets serve ok w s) (weaker : ∀ w s q, ok w s q → other w s q) :
    c.RunMeets serve other w s := by
  induction c generalizing w s with
  | done a => trivial
  | fail e => trivial
  | get next ih => exact ih s meets
  | put t next ih => exact ih meets
  | await q next ih => exact ⟨weaker w s q meets.1, ih _ meets.2⟩

/-- What each suspension keeps of the outside the whole run keeps. -/
theorem runAmong_outside {serve : ω → σ → (q : S.Req) → Answer S q × ω × σ}
    {ok : ω → σ → S.Req → Prop} (I : ω → Prop)
    (keeps : ∀ w s q, I w → ok w s q → I (serve w s q).2.1) (c : Coro σ S α) {w : ω} {s : σ}
    (meets : c.RunMeets serve ok w s) (held : I w) : I (c.runAmong serve w s).outside := by
  induction c generalizing w s with
  | done a => exact held
  | fail e => exact held
  | get next ih => exact ih s meets held
  | put t next ih => exact ih meets held
  | await q next ih => exact ih _ meets.2 (keeps w s q held meets.1)

/-- At every suspension of such a run the contract allows the request, and what each
suspension keeps of the outside holds. -/
theorem Obeys.suspensions {C : Contract ω σ S} {Q : Except String α → ω → σ → Prop}
    {serve : ω → σ → (q : S.Req) → Answer S q × ω × σ} {ok : ω → σ → S.Req → Prop}
    (I : ω → Prop) (keeps : ∀ w s q, I w → ok w s q → I (serve w s q).2.1)
    {c : Coro σ S α} {w : ω} {s : σ} (obeys : c.Obeys C Q w s) (meets : c.RunMeets serve ok w s)
    (honest : ∀ q w s, C.issue q w s → ok w s q →
      C.rely q (serve w s q).1 w s (serve w s q).2.1 (serve w s q).2.2) (held : I w) :
    c.RunMeets serve (fun w s q => C.issue q w s ∧ I w) w s := by
  induction c generalizing w s with
  | done a => trivial
  | fail e => trivial
  | get next ih => exact ih s obeys meets held
  | put t next ih => exact ih obeys.2 meets held
  | await q next ih =>
    refine ⟨⟨obeys.1, held⟩, ?_⟩
    exact ih _ (obeys.2 _ _ _ (honest q w s obeys.1 meets.1)) meets.2 (keeps w s q held meets.1)

end Binbot.Async.Coro
