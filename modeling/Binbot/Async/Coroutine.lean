import Mathlib.Logic.Basic

/-!
# Coroutines

Programs of a single-threaded event loop. Between two suspension points a
program reads and writes the process memory atomically; at a suspension point
it hands a request to the outside and is resumed with a reply, or with the
exception that the awaited call raised. A program is a finite tree, so it is
written once and can be run alone (`exec`) or interleaved with others.
-/
namespace Binbot.Async

/-- The requests a program may suspend on, and the type of each reply. -/
structure Sig where
  Req : Type
  Reply : Req → Type

/-- The answer to a request: a value, or the exception the awaited call raised. -/
abbrev Answer (S : Sig) (q : S.Req) : Type := Except String (S.Reply q)

inductive Coro (σ : Type) (S : Sig) (α : Type) where
  | done (value : α)
  | fail (error : String)
  | get (next : σ → Coro σ S α)
  | put (memory : σ) (next : Coro σ S α)
  | await (q : S.Req) (next : Answer S q → Coro σ S α)

/-- One independent field of a process memory. -/
class Part (σ τ : Type) where
  view : σ → τ
  set : σ → τ → σ
  view_set : ∀ s t, view (set s t) = t
  set_set : ∀ s t u, set (set s t) u = set s u

instance Part.whole (σ : Type) : Part σ σ where
  view := id
  set := fun _ t => t
  view_set := fun _ _ => rfl
  set_set := fun _ _ _ => rfl

attribute [simp] Part.view_set Part.set_set

@[simp] theorem Part.whole_view (σ : Type) (s : σ) : (Part.view s : σ) = s := rfl

@[simp] theorem Part.whole_set (σ : Type) (s t : σ) : Part.set s t = t := rfl

namespace Coro

variable {σ τ ω : Type} {S : Sig} {α β : Type}

def bind (c : Coro σ S α) (f : α → Coro σ S β) : Coro σ S β :=
  match c with
  | .done a => f a
  | .fail e => .fail e
  | .get next => .get fun s => (next s).bind f
  | .put s next => .put s (next.bind f)
  | .await q next => .await q fun r => (next r).bind f

/-- `try`/`except`: the handler sees an exception raised at any suspension point. -/
def handle (c : Coro σ S α) (h : String → Coro σ S α) : Coro σ S α :=
  match c with
  | .done a => .done a
  | .fail e => h e
  | .get next => .get fun s => (next s).handle h
  | .put s next => .put s (next.handle h)
  | .await q next => .await q fun r => (next r).handle h

instance : Monad (Coro σ S) where
  pure := .done
  bind := .bind

instance : MonadExceptOf String (Coro σ S) where
  throw := .fail
  tryCatch := .handle

/-- Suspend on `q`; an exception of the awaited call propagates. -/
def request (q : S.Req) : Coro σ S (S.Reply q) :=
  .await q fun
    | .ok a => .done a
    | .error e => .fail e

def view [Part σ τ] : Coro σ S τ := .get fun s => .done (Part.view s)

def update [Part σ τ] (f : τ → τ) : Coro σ S Unit :=
  .get fun s => .put (Part.set s (f (Part.view s))) (.done ())

/-- An `if` without an `else`. -/
def onlyIf (test : Bool) (c : Coro σ S Unit) : Coro σ S Unit := if test then c else pure ()

/-- A `for` loop over a list. -/
def forEach {ι : Type} (body : ι → Coro σ S Unit) : List ι → Coro σ S Unit
  | [] => pure ()
  | x :: xs => do body x; forEach body xs

/-- Run to the next suspension point or to the end, without interruption. -/
def advance : Coro σ S α → σ → Coro σ S α × σ
  | .get next, s => (next s).advance s
  | .put s next, _ => next.advance s
  | c, s => (c, s)

theorem advance_ne_get (c : Coro σ S α) (s : σ) (next : σ → Coro σ S α) :
    (c.advance s).1 ≠ .get next := by
  induction c generalizing s with
  | get rest ih => exact ih s s
  | put t rest ih => exact ih t
  | _ => simp [advance]

theorem advance_ne_put (c : Coro σ S α) (s t : σ) (next : Coro σ S α) :
    (c.advance s).1 ≠ .put t next := by
  induction c generalizing s with
  | get rest ih => exact ih s s
  | put u rest ih => exact ih u
  | _ => simp [advance]

section Advance

theorem bind_bind {γ : Type} (c : Coro σ S α) (f : α → Coro σ S β) (g : β → Coro σ S γ) :
    (c >>= f) >>= g = c >>= fun a => f a >>= g := by
  change (c.bind f).bind g = c.bind fun a => (f a).bind g
  induction c with
  | done a => rfl
  | fail e => rfl
  | get next ih => exact congrArg get (funext ih)
  | put t next ih => exact congrArg (put t) ih
  | await q next ih => exact congrArg (await q) (funext ih)

/-- What is read is what the segment starts with. -/
@[simp] theorem advance_view_bind [Part σ τ] (f : τ → Coro σ S α) (s : σ) :
    ((view : Coro σ S τ) >>= f).advance s = (f (Part.view s)).advance s := rfl

end Advance

/-- A program of one part of the memory and fewer requests, within a process that has more
of both. -/
def within [Part σ τ] {T : Sig} (wrap : T.Req → S.Req)
    (back : (q : T.Req) → Answer S (wrap q) → Answer T q) : Coro τ T α → Coro σ S α
  | .done a => .done a
  | .fail e => .fail e
  | .get next => .get fun s => (next (Part.view s)).within wrap back
  | .put t next => .get fun s => .put (Part.set s t) (next.within wrap back)
  | .await q next => .await (wrap q) fun r => (next (back q r)).within wrap back

/-- The end of a run: what the program returned or raised, the state of the
outside, and the memory. -/
structure Outcome (ω σ α : Type) where
  result : Except String α
  outside : ω
  memory : σ

/-- Go on with a returned value; an exception ends the run. -/
def Outcome.andThen (o : Outcome ω σ α) (f : α → ω → σ → Outcome ω σ β) : Outcome ω σ β :=
  match o.result with
  | .ok a => f a o.outside o.memory
  | .error e => ⟨.error e, o.outside, o.memory⟩

/-- Go on with the handler after an exception. -/
def Outcome.orElse (o : Outcome ω σ α) (f : String → ω → σ → Outcome ω σ α) : Outcome ω σ α :=
  match o.result with
  | .ok _ => o
  | .error e => f e o.outside o.memory

@[simp] theorem Outcome.andThen_ok (a : α) (w : ω) (s : σ) (f : α → ω → σ → Outcome ω σ β) :
    (Outcome.mk (.ok a) w s).andThen f = f a w s := rfl

@[simp] theorem Outcome.andThen_error (e : String) (w : ω) (s : σ)
    (f : α → ω → σ → Outcome ω σ β) :
    (Outcome.mk (.error e) w s).andThen f = ⟨.error e, w, s⟩ := rfl

@[simp] theorem Outcome.orElse_ok (a : α) (w : ω) (s : σ)
    (f : String → ω → σ → Outcome ω σ α) :
    (Outcome.mk (.ok a) w s).orElse f = ⟨.ok a, w, s⟩ := rfl

@[simp] theorem Outcome.orElse_error (e : String) (w : ω) (s : σ)
    (f : String → ω → σ → Outcome ω σ α) :
    (Outcome.mk (.error e) w s).orElse f = f e w s := rfl

/-- Run alone: `reply` is the outside, answering each request at once. -/
def exec (reply : ω → (q : S.Req) → Answer S q × ω) : Coro σ S α → ω → σ → Outcome ω σ α
  | .done a, w, s => ⟨.ok a, w, s⟩
  | .fail e, w, s => ⟨.error e, w, s⟩
  | .get next, w, s => (next s).exec reply w s
  | .put s next, w, _ => next.exec reply w s
  | .await q next, w, s => (next (reply w q).1).exec reply (reply w q).2 s

section Exec

variable (reply : ω → (q : S.Req) → Answer S q × ω)

@[simp] theorem exec_pure (a : α) (w : ω) (s : σ) :
    (pure a : Coro σ S α).exec reply w s = ⟨.ok a, w, s⟩ := rfl

@[simp] theorem exec_throw (e : String) (w : ω) (s : σ) :
    (throw e : Coro σ S α).exec reply w s = ⟨.error e, w, s⟩ := rfl

@[simp] theorem exec_view [Part σ τ] (w : ω) (s : σ) :
    (view : Coro σ S τ).exec reply w s = ⟨.ok (Part.view s), w, s⟩ := rfl

@[simp] theorem exec_update [Part σ τ] (f : τ → τ) (w : ω) (s : σ) :
    (update f : Coro σ S Unit).exec reply w s =
      ⟨.ok (), w, Part.set s (f (Part.view s))⟩ := rfl

@[simp] theorem exec_request (q : S.Req) (w : ω) (s : σ) :
    exec (α := no_index (S.Reply q)) reply (request q) w s =
      ⟨(reply w q).1, (reply w q).2, s⟩ := by
  simp only [request, exec]
  cases (reply w q).1 <;> rfl

/-- The first half runs to its end; its value, if any, starts the second half. -/
@[simp] theorem exec_bind (c : Coro σ S α) (f : α → Coro σ S β) (w : ω) (s : σ) :
    (c >>= f).exec reply w s = (c.exec reply w s).andThen fun a => (f a).exec reply := by
  change (c.bind f).exec reply w s = _
  induction c generalizing w s with
  | done a => rfl
  | fail e => rfl
  | get next ih => simp only [bind, exec]; exact ih s w s
  | put t next ih => simp only [bind, exec]; exact ih w t
  | await q next ih => simp only [bind, exec]; exact ih _ _ s

@[simp] theorem exec_tryCatch (c : Coro σ S α) (h : String → Coro σ S α) (w : ω) (s : σ) :
    (tryCatch c h).exec reply w s = (c.exec reply w s).orElse fun e => (h e).exec reply := by
  change (c.handle h).exec reply w s = _
  induction c generalizing w s with
  | done a => rfl
  | fail e => rfl
  | get next ih => simp only [handle, exec]; exact ih s w s
  | put t next ih => simp only [handle, exec]; exact ih w t
  | await q next ih => simp only [handle, exec]; exact ih _ _ s

@[simp] theorem exec_forEach_nil {ι : Type} (body : ι → Coro σ S Unit) (w : ω) (s : σ) :
    (forEach body []).exec reply w s = ⟨.ok (), w, s⟩ := rfl

@[simp] theorem exec_forEach_cons {ι : Type} (body : ι → Coro σ S Unit) (x : ι) (xs : List ι)
    (w : ω) (s : σ) :
    (forEach body (x :: xs)).exec reply w s =
      ((body x).exec reply w s).andThen fun _ => (forEach body xs).exec reply := by
  rw [forEach, exec_bind]

end Exec

/-- The program writes nothing, whatever it is told. -/
def Silent : Coro σ S α → Prop
  | .done _ => True
  | .fail _ => True
  | .get next => ∀ s, (next s).Silent
  | .put _ _ => False
  | .await _ next => ∀ r, (next r).Silent

theorem Silent.advance {c : Coro σ S α} (silent : c.Silent) (s : σ) :
    (c.advance s).2 = s ∧ (c.advance s).1.Silent := by
  induction c with
  | done a => exact ⟨rfl, trivial⟩
  | fail e => exact ⟨rfl, trivial⟩
  | get next ih => exact ih s (silent s)
  | put t next ih => exact silent.elim
  | await q next ih => exact ⟨rfl, silent⟩

/-- No exception is caught: one raised by an awaited call ends the program. -/
def Uncaught : Coro σ S α → Prop
  | .done _ => True
  | .fail _ => True
  | .get next => ∀ s, (next s).Uncaught
  | .put _ next => next.Uncaught
  | .await _ next => (∀ e, next (.error e) = .fail e) ∧ ∀ a, (next (.ok a)).Uncaught

section Uncaught

theorem uncaught_pure (a : α) : (pure a : Coro σ S α).Uncaught := trivial

theorem uncaught_throw (e : String) : (throw e : Coro σ S α).Uncaught := trivial

theorem uncaught_view [Part σ τ] : (view : Coro σ S τ).Uncaught := fun _ => trivial

theorem uncaught_update [Part σ τ] (f : τ → τ) : (update f : Coro σ S Unit).Uncaught :=
  fun _ => trivial

theorem uncaught_request (q : S.Req) : (request q : Coro σ S (S.Reply q)).Uncaught :=
  ⟨fun _ => rfl, fun _ => trivial⟩

theorem Uncaught.bind {c : Coro σ S α} {f : α → Coro σ S β} (first : c.Uncaught)
    (second : ∀ a, (f a).Uncaught) : (c >>= f).Uncaught := by
  change (c.bind f).Uncaught
  induction c with
  | done a => exact second a
  | fail e => trivial
  | get next ih =>
    intro s
    exact ih s (first s)
  | put t next ih => exact ih first
  | await q next ih =>
    constructor
    · intro e
      simp only [first.1 e, Coro.bind]
    · intro a
      exact ih _ (first.2 a)

theorem uncaught_forEach {ι : Type} {body : ι → Coro σ S Unit} (each : ∀ x, (body x).Uncaught)
    (items : List ι) : (forEach body items).Uncaught := by
  induction items with
  | nil => trivial
  | cons x xs ih => exact (each x).bind fun _ => ih

/-- A run that returned met no exception, so the exceptions that were possible do
not matter. -/
theorem Uncaught.exec_eq {c : Coro σ S α} (uncaught : c.Uncaught)
    {reply other : ω → (q : S.Req) → Answer S q × ω}
    (agree : ∀ w q a, (reply w q).1 = .ok a → other w q = reply w q) {w : ω} {s : σ} {v : α}
    (returned : (c.exec reply w s).result = .ok v) : c.exec other w s = c.exec reply w s := by
  induction c generalizing w s with
  | done a => rfl
  | fail e => rfl
  | get next ih => exact ih s (uncaught s) returned
  | put t next ih => exact ih uncaught returned
  | await q next ih =>
    simp only [exec] at returned ⊢
    cases answer : (reply w q).1 with
    | error e =>
      rw [answer, uncaught.1 e] at returned
      cases returned
    | ok a =>
      rw [agree w q a answer, answer]
      rw [answer] at returned
      exact ih _ (uncaught.2 a) returned

end Uncaught

end Coro

end Binbot.Async
