import Binbot.Async.Coroutine

/-!
# Rely and guarantee for coroutines

`Obeys C c Q` says of a program `c` started in some memory: every request is
issued as the contract `C` allows, every write is within the guarantee, and the
program ends in `Q`, provided that whatever happens while it is suspended stays
within the rely. `ω` is what is known of the outside; for a task it is the log
of the answers it has received.
-/
namespace Binbot.Async

/-- What a program may issue and write, and what it may assume of a suspension. -/
structure Contract (ω σ : Type) (S : Sig) where
  issue : S.Req → ω → σ → Prop
  rely : (q : S.Req) → Answer S q → ω → σ → ω → σ → Prop
  guar : σ → σ → Prop

namespace Coro

variable {σ τ ω : Type} {S : Sig} {α β : Type}

def Obeys (C : Contract ω σ S) : Coro σ S α → (Except String α → ω → σ → Prop) → ω → σ → Prop
  | .done a, Q, w, s => Q (.ok a) w s
  | .fail e, Q, w, s => Q (.error e) w s
  | .get next, Q, w, s => (next s).Obeys C Q w s
  | .put t next, Q, w, s => C.guar s t ∧ next.Obeys C Q w t
  | .await q next, Q, w, s =>
    C.issue q w s ∧ ∀ r w' s', C.rely q r w s w' s' → (next r).Obeys C Q w' s'

section Rules

variable {C : Contract ω σ S} {Q : Except String α → ω → σ → Prop} {w : ω} {s : σ}

@[simp] theorem obeys_pure (a : α) : (pure a : Coro σ S α).Obeys C Q w s ↔ Q (.ok a) w s := Iff.rfl

@[simp] theorem obeys_view [Part σ τ] {Q : Except String τ → ω → σ → Prop} :
    (view : Coro σ S τ).Obeys C Q w s ↔ Q (.ok (Part.view s)) w s := Iff.rfl

@[simp] theorem obeys_update [Part σ τ] (f : τ → τ) {Q : Except String Unit → ω → σ → Prop} :
    (update f : Coro σ S Unit).Obeys C Q w s ↔
      C.guar s (Part.set s (f (Part.view s))) ∧
        Q (.ok ()) w (Part.set s (f (Part.view s))) := Iff.rfl

@[simp] theorem obeys_request (q : S.Req) {Q : Except String (S.Reply q) → ω → σ → Prop} :
    Obeys (α := no_index (S.Reply q)) C (request q) Q w s ↔
      C.issue q w s ∧ ∀ r w' s', C.rely q r w s w' s' → Q r w' s' := by
  simp only [request, Obeys]
  refine and_congr_right fun _ => forall_congr' fun r => ?_
  cases r <;> rfl

@[simp] theorem obeys_bind (c : Coro σ S β) (f : β → Coro σ S α) :
    (c >>= f).Obeys C Q w s ↔
      c.Obeys C (fun r w s => match r with
        | .ok b => (f b).Obeys C Q w s
        | .error e => Q (.error e) w s) w s := by
  change (c.bind f).Obeys C Q w s ↔ _
  induction c generalizing w s with
  | done b => rfl
  | fail e => rfl
  | get next ih => exact ih s
  | put t next ih => exact and_congr_right fun _ => ih
  | await q next ih =>
    refine and_congr_right fun _ => forall_congr' fun r => ?_
    exact forall_congr' fun w' => forall_congr' fun s' => imp_congr_right fun _ => ih r

@[simp] theorem obeys_tryCatch (c : Coro σ S α) (h : String → Coro σ S α) :
    (tryCatch c h).Obeys C Q w s ↔
      c.Obeys C (fun r w s => match r with
        | .ok a => Q (.ok a) w s
        | .error e => (h e).Obeys C Q w s) w s := by
  change (c.handle h).Obeys C Q w s ↔ _
  induction c generalizing w s with
  | done b => rfl
  | fail e => rfl
  | get next ih => exact ih s
  | put t next ih => exact and_congr_right fun _ => ih
  | await q next ih =>
    refine and_congr_right fun _ => forall_congr' fun r => ?_
    exact forall_congr' fun w' => forall_congr' fun s' => imp_congr_right fun _ => ih r

/-- A weaker postcondition. -/
theorem Obeys.mono {c : Coro σ S α} {R : Except String α → ω → σ → Prop}
    (obeys : c.Obeys C Q w s) (weaker : ∀ r w s, Q r w s → R r w s) : c.Obeys C R w s := by
  induction c generalizing w s with
  | done a => exact weaker _ _ _ obeys
  | fail e => exact weaker _ _ _ obeys
  | get next ih => exact ih s obeys
  | put t next ih => exact ⟨obeys.1, ih obeys.2⟩
  | await q next ih => exact ⟨obeys.1, fun r w' s' kept => ih r (obeys.2 r w' s' kept)⟩

/-- Sequencing: what follows starts from what the first program has ended in. -/
theorem Obeys.bind {c : Coro σ S β} {f : β → Coro σ S α} {R : Except String β → ω → σ → Prop}
    (first : c.Obeys C R w s) (second : ∀ b w s, R (.ok b) w s → (f b).Obeys C Q w s)
    (raised : ∀ e w s, R (.error e) w s → Q (.error e) w s) : (c >>= f).Obeys C Q w s := by
  rw [obeys_bind]
  refine first.mono fun r w' s' ended => ?_
  cases r with
  | ok b => exact second b w' s' ended
  | error e => exact raised e w' s' ended

/-- A handler starts from what its body has raised in. -/
theorem Obeys.caught {c : Coro σ S α} {h : String → Coro σ S α} {R : Except String α → ω → σ → Prop}
    (body : c.Obeys C R w s) (returned : ∀ a w s, R (.ok a) w s → Q (.ok a) w s)
    (handler : ∀ e w s, R (.error e) w s → (h e).Obeys C Q w s) : (tryCatch c h).Obeys C Q w s := by
  rw [obeys_tryCatch]
  refine body.mono fun r w' s' ended => ?_
  cases r with
  | ok a => exact returned a w' s' ended
  | error e => exact handler e w' s' ended

/-- Loop rule: `I` holds of the items still to come before each pass. -/
theorem obeys_forEach {ι : Type} {body : ι → Coro σ S Unit}
    {Q : Except String Unit → ω → σ → Prop} (I : List ι → ω → σ → Prop)
    (pass : ∀ x xs w s, I (x :: xs) w s →
      (body x).Obeys C (fun r w s => match r with
        | .ok _ => I xs w s
        | .error e => Q (.error e) w s) w s)
    (finish : ∀ w s, I [] w s → Q (.ok ()) w s)
    (items : List ι) (start : I items w s) : (forEach body items).Obeys C Q w s := by
  induction items generalizing w s with
  | nil => exact finish w s start
  | cons x xs ih =>
    rw [forEach, obeys_bind]
    refine (pass x xs w s start).mono fun r w' s' held => ?_
    cases r with
    | ok _ => exact ih held
    | error e => exact held

/-- A program that obeys its contract, run alone against an outside that keeps
the rely, ends in the postcondition. -/
theorem Obeys.exec {c : Coro σ S α} {reply : ω → (q : S.Req) → Answer S q × ω}
    (obeys : c.Obeys C Q w s)
    (honest : ∀ q w s, C.issue q w s → C.rely q (reply w q).1 w s (reply w q).2 s) :
    Q (c.exec reply w s).result (c.exec reply w s).outside (c.exec reply w s).memory := by
  induction c generalizing w s with
  | done a => exact obeys
  | fail e => exact obeys
  | get next ih => exact ih s obeys
  | put t next ih => exact ih obeys.2
  | await q next ih => exact ih _ (obeys.2 _ _ _ (honest q w s obeys.1))

end Rules

/-- A program that may issue and write anything obeys. -/
theorem obeys_free {C : Contract ω σ S} {Q : Except String α → ω → σ → Prop}
    (issue : ∀ q w s, C.issue q w s) (guar : ∀ s t, C.guar s t) (post : ∀ r w s, Q r w s)
    (c : Coro σ S α) (w : ω) (s : σ) : c.Obeys C Q w s := by
  induction c generalizing w s with
  | done a => exact post _ w s
  | fail e => exact post _ w s
  | get next ih => exact ih s w s
  | put t next ih => exact ⟨guar s t, ih w t⟩
  | await q next ih => exact ⟨issue q w s, fun r w' s' _ => ih r w' s'⟩

/-- Within a larger process a program writes its own part only. -/
theorem obeys_within [Part σ τ] {T : Sig} {wrap : T.Req → S.Req}
    {back : (q : T.Req) → Answer S (wrap q) → Answer T q} {C : Contract ω σ S}
    {Q : Except String α → ω → σ → Prop} (issue : ∀ q w s, C.issue (wrap q) w s)
    (guar : ∀ s (t : τ), C.guar s (Part.set s t)) (post : ∀ r w s, Q r w s) (c : Coro τ T α)
    (w : ω) (s : σ) : (c.within wrap back : Coro σ S α).Obeys C Q w s := by
  induction c generalizing w s with
  | done a => exact post _ w s
  | fail e => exact post _ w s
  | get next ih => exact ih _ w s
  | put t next ih => exact ⟨guar s t, ih w _⟩
  | await q next ih => exact ⟨issue q w s, fun r w' s' _ => ih _ w' s'⟩

/-! ## Invariants of a program

`c.Keeps C I`: the program obeys `C` from any state in which `I` holds and, however
it ends, leaves `I`. -/

def Keeps (C : Contract ω σ S) (I : ω → σ → Prop) (c : Coro σ S α) : Prop :=
  ∀ w s, I w s → c.Obeys C (fun _ => I) w s

section Keeps

variable {C : Contract ω σ S} {I : ω → σ → Prop}

theorem keeps_pure (a : α) : (pure a : Coro σ S α).Keeps C I := fun _ _ held => held

theorem keeps_throw (e : String) : (throw e : Coro σ S α).Keeps C I := fun _ _ held => held

theorem keeps_view [Part σ τ] : (view : Coro σ S τ).Keeps C I := fun _ _ held => held

/-- What is read is what the invariant says of the memory. -/
theorem keeps_view_bind [Part σ τ] {f : τ → Coro σ S α}
    (next : ∀ w s, I w s → (f (Part.view s)).Obeys C (fun _ => I) w s) :
    (view >>= f).Keeps C I := by
  intro w s held
  rw [obeys_bind, obeys_view]
  exact next w s held

theorem keeps_update [Part σ τ] {f : τ → τ}
    (writes : ∀ w s, I w s → C.guar s (Part.set s (f (Part.view s))) ∧
      I w (Part.set s (f (Part.view s)))) : (update f : Coro σ S Unit).Keeps C I :=
  fun w s held => writes w s held

theorem keeps_request {q : S.Req} (issue : ∀ w s, I w s → C.issue q w s)
    (stable : ∀ r w s w' s', I w s → C.rely q r w s w' s' → I w' s') :
    (request q : Coro σ S (S.Reply q)).Keeps C I := by
  intro w s held
  rw [obeys_request]
  exact ⟨issue w s held, fun r w' s' kept => stable r w s w' s' held kept⟩

/-- What leaves `I` is followed by what keeps it. -/
theorem Obeys.followed {c : Coro σ S β} {f : β → Coro σ S α} {w : ω} {s : σ}
    (first : c.Obeys C (fun _ => I) w s) (second : ∀ b, (f b).Keeps C I) :
    (c >>= f).Obeys C (fun _ => I) w s :=
  first.bind (fun b w' s' kept => second b w' s' kept) fun _ _ _ kept => kept

theorem Keeps.bind {c : Coro σ S β} {f : β → Coro σ S α} (first : c.Keeps C I)
    (second : ∀ b, (f b).Keeps C I) : (c >>= f).Keeps C I :=
  fun w s held => (first w s held).followed second

theorem keeps_onlyIf {c : Coro σ S Unit} (test : Bool) (body : c.Keeps C I) :
    (onlyIf test c).Keeps C I := by
  cases test with
  | false => exact keeps_pure ()
  | true => exact body

theorem Obeys.handled {c : Coro σ S α} {h : String → Coro σ S α} {w : ω} {s : σ}
    (body : c.Obeys C (fun _ => I) w s) (handler : ∀ e, (h e).Keeps C I) :
    (tryCatch c h).Obeys C (fun _ => I) w s :=
  body.caught (fun _ _ _ kept => kept) fun e w' s' kept => handler e w' s' kept

theorem Keeps.tryCatch {c : Coro σ S α} {h : String → Coro σ S α} (body : c.Keeps C I)
    (handler : ∀ e, (h e).Keeps C I) : (MonadExcept.tryCatch c h).Keeps C I :=
  fun w s held => (body w s held).handled handler

theorem keeps_forEach_mem {ι : Type} {body : ι → Coro σ S Unit} {items : List ι}
    (each : ∀ x ∈ items, (body x).Keeps C I) : (forEach body items).Keeps C I := by
  induction items with
  | nil => exact keeps_pure ()
  | cons x xs ih =>
    refine (each x List.mem_cons_self).bind fun _ => ih ?_
    intro y member
    exact each y (List.mem_cons_of_mem x member)

theorem keeps_forEach {ι : Type} {body : ι → Coro σ S Unit} (each : ∀ x, (body x).Keeps C I)
    (items : List ι) : (forEach body items).Keeps C I :=
  keeps_forEach_mem fun x _ => each x

end Keeps

/-! ## Programs that raise nothing

`c.Returns C I`: the program keeps `I`, and it ends with a value. -/

def Returns (C : Contract ω σ S) (I : ω → σ → Prop) (c : Coro σ S α) : Prop :=
  ∀ w s, I w s → c.Obeys C (fun r w s => r.isOk = true ∧ I w s) w s

section Returns

variable {C : Contract ω σ S} {I : ω → σ → Prop}

theorem returns_pure (a : α) : (pure a : Coro σ S α).Returns C I := fun _ _ held => ⟨rfl, held⟩

theorem returns_view [Part σ τ] : (view : Coro σ S τ).Returns C I := fun _ _ held => ⟨rfl, held⟩

theorem returns_update [Part σ τ] {f : τ → τ}
    (writes : ∀ w s, I w s → C.guar s (Part.set s (f (Part.view s))) ∧
      I w (Part.set s (f (Part.view s)))) : (update f : Coro σ S Unit).Returns C I :=
  fun w s held => ⟨(writes w s held).1, rfl, (writes w s held).2⟩

theorem returns_request {q : S.Req} (issue : ∀ w s, I w s → C.issue q w s)
    (answered : ∀ r w s w' s', I w s → C.rely q r w s w' s' → r.isOk = true ∧ I w' s') :
    (request q : Coro σ S (S.Reply q)).Returns C I := by
  intro w s held
  rw [obeys_request]
  exact ⟨issue w s held, fun r w' s' kept => answered r w s w' s' held kept⟩

theorem Returns.bind {c : Coro σ S β} {f : β → Coro σ S α} (first : c.Returns C I)
    (second : ∀ b, (f b).Returns C I) : (c >>= f).Returns C I := by
  intro w s held
  apply (first w s held).bind
  · exact fun b w' s' kept => second b w' s' kept.2
  · rintro e w' s' ⟨⟨⟩, _⟩

/-- What follows a program that returns starts where `I` holds. -/
theorem Returns.obeys_bind {c : Coro σ S β} {f : β → Coro σ S α}
    {Q : Except String α → ω → σ → Prop} {w : ω} {s : σ} (first : c.Returns C I) (held : I w s)
    (second : ∀ b w s, I w s → (f b).Obeys C Q w s) : (c >>= f).Obeys C Q w s := by
  apply (first w s held).bind
  · exact fun b w' s' kept => second b w' s' kept.2
  · rintro e w' s' ⟨⟨⟩, _⟩

theorem returns_onlyIf {c : Coro σ S Unit} (test : Bool) (body : c.Returns C I) :
    (onlyIf test c).Returns C I := by
  cases test with
  | false => exact returns_pure ()
  | true => exact body

/-- A handler that raises nothing makes up for whatever its body raises. -/
theorem returns_tryCatch {c : Coro σ S α} {h : String → Coro σ S α} (body : c.Keeps C I)
    (handler : ∀ e, (h e).Returns C I) : (tryCatch c h).Returns C I := by
  intro w s held
  apply (body w s held).caught
  · exact fun a w' s' kept => ⟨rfl, kept⟩
  · exact fun e w' s' kept => handler e w' s' kept

end Returns

/-- Whatever relation covers the guarantee covers a whole uninterrupted segment. -/
theorem Obeys.advance_guar {C : Contract ω σ S} {c : Coro σ S α}
    {Q : Except String α → ω → σ → Prop} {w : ω} {s : σ} (R : σ → σ → Prop)
    (refl : ∀ s, R s s) (trans : ∀ {s t u}, R s t → R t u → R s u)
    (covers : ∀ {s t}, C.guar s t → R s t) (obeys : c.Obeys C Q w s) :
    R s (c.advance s).2 := by
  induction c generalizing s with
  | get next ih => exact ih s obeys
  | put t next ih => exact trans (covers obeys.1) (ih obeys.2)
  | _ => exact refl s

/-- A segment ends at a suspension point or at the end, still obeying. -/
theorem Obeys.advance {C : Contract ω σ S} {c : Coro σ S α}
    {Q : Except String α → ω → σ → Prop} {w : ω} {s : σ} (obeys : c.Obeys C Q w s) :
    (c.advance s).1.Obeys C Q w (c.advance s).2 := by
  induction c generalizing s with
  | get next ih => exact ih s obeys
  | put t next ih => exact ih obeys.2
  | _ => exact obeys

end Coro

end Binbot.Async
