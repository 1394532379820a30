import Mathlib.Logic.Basic

/-! Runs of a machine given by a partial step function, and the induction that
carries an invariant along every run whose steps meet a condition. -/
namespace Binbot.Machine

variable {St Act : Type}

def run (step : St → Act → Option St) : St → List Act → Option St
  | s, [] => some s
  | s, a :: as => (step s a).bind fun t => run step t as

/-- Every step of the run is taken in a state that meets `ok`. -/
def Meets (step : St → Act → Option St) (ok : St → Act → Prop) : St → List Act → Prop
  | _, [] => True
  | s, a :: as => ok s a ∧ ∀ t, step s a = some t → Meets step ok t as

/-- `P` holds at the start and after every step. -/
def Always (step : St → Act → Option St) (P : St → Prop) : St → List Act → Prop
  | s, [] => P s
  | s, a :: as => P s ∧ ∀ t, step s a = some t → Always step P t as

section

variable {step : St → Act → Option St} {ok : St → Act → Prop}

@[simp] theorem run_nil (s : St) : run step s [] = some s := rfl

theorem run_cons (s : St) (a : Act) (as : List Act) :
    run step s (a :: as) = (step s a).bind fun t => run step t as := rfl

theorem run_append (s : St) (as bs : List Act) :
    run step s (as ++ bs) = (run step s as).bind fun t => run step t bs := by
  induction as generalizing s with
  | nil => rfl
  | cons a as ih =>
    rw [List.cons_append, run_cons, run_cons]
    cases step s a with
    | none => rfl
    | some t => exact ih t

/-- What one step preserves, a whole run preserves. -/
theorem run_invariant (I : St → Prop)
    (keeps : ∀ s a t, I s → ok s a → step s a = some t → I t)
    (s : St) (as : List Act) (t : St) (initial : I s) (meets : Meets step ok s as)
    (reached : run step s as = some t) : I t := by
  induction as generalizing s with
  | nil =>
    simp only [run_nil, Option.some.injEq] at reached
    exact reached ▸ initial
  | cons a as ih =>
    rw [run_cons, Option.bind_eq_some_iff] at reached
    obtain ⟨u, moved, rest⟩ := reached
    exact ih u (keeps s a u initial meets.1 moved) (meets.2 u moved) rest

theorem meets_true (s : St) (as : List Act) : Meets step (fun _ _ => True) s as := by
  induction as generalizing s with
  | nil => trivial
  | cons a as ih => exact ⟨trivial, fun t _ => ih t⟩

/-- A condition on the acts alone is met by every run of such acts. -/
theorem meets_of_forall {ok : Act → Prop} (s : St) {as : List Act} (all : ∀ a ∈ as, ok a) :
    Meets step (fun _ a => ok a) s as := by
  induction as generalizing s with
  | nil => trivial
  | cons a as ih =>
    obtain ⟨first, rest⟩ := List.forall_mem_cons.mp all
    exact ⟨first, fun t _ => ih t rest⟩

instance decidableMeets [∀ s a, Decidable (ok s a)] (s : St) :
    (as : List Act) → Decidable (Meets step ok s as)
  | [] => .isTrue trivial
  | a :: as =>
    match moved : step s a with
    | none => decidable_of_iff (ok s a) (by simp [Meets, moved])
    | some t =>
      have := decidableMeets t as
      decidable_of_iff (ok s a ∧ Meets step ok t as) (by simp [Meets, moved])

/-- The invariant of an unconditional run. -/
theorem run_preserves (I : St → Prop) (keeps : ∀ s a t, I s → step s a = some t → I t)
    (s : St) (as : List Act) (t : St) (initial : I s) (reached : run step s as = some t) : I t :=
  run_invariant I (fun s a t held _ moved => keeps s a t held moved) s as t initial
    (meets_true s as) reached

/-- A run is no longer than what its steps use up. -/
theorem length_add_le (I : St → Prop) (keeps : ∀ s a t, I s → step s a = some t → I t)
    (left : St → Nat) (uses : ∀ s a t, I s → step s a = some t → left t + 1 ≤ left s)
    (s : St) (as : List Act) (t : St) (initial : I s) (reached : run step s as = some t) :
    as.length + left t ≤ left s := by
  induction as generalizing s with
  | nil =>
    cases reached
    simp
  | cons a as ih =>
    rw [run_cons, Option.bind_eq_some_iff] at reached
    obtain ⟨u, moved, rest⟩ := reached
    have first := uses s a u initial moved
    have others := ih u (keeps s a u initial moved) rest
    rw [List.length_cons]
    omega

/-- A run whose steps meet one condition meets another that follows from it under an
invariant. -/
theorem Meets.imp {other : St → Act → Prop} (I : St → Prop)
    (keeps : ∀ s a t, I s → ok s a → step s a = some t → I t)
    (weaker : ∀ s a, I s → ok s a → other s a)
    (s : St) (as : List Act) (initial : I s) (meets : Meets step ok s as) :
    Meets step other s as := by
  induction as generalizing s with
  | nil => trivial
  | cons a as ih =>
    obtain ⟨first, rest⟩ := meets
    exact ⟨weaker s a initial first,
      fun t moved => ih t (keeps s a t initial first moved) (rest t moved)⟩

/-- Two conditions on steps that agree wherever the invariant and the second held
so far are met by the same runs. -/
theorem meets_iff {other : St → Act → Prop} (I : St → Prop)
    (keeps : ∀ s a t, I s → other s a → step s a = some t → I t)
    (same : ∀ s a, I s → (ok s a ↔ other s a))
    (s : St) (as : List Act) (initial : I s) : Meets step ok s as ↔ Meets step other s as := by
  constructor
  · intro meets
    apply meets.imp I _ (fun s a held => (same s a held).mp) s as initial
    exact fun s a t held first => keeps s a t held ((same s a held).mp first)
  · exact fun meets => meets.imp I keeps (fun s a held => (same s a held).mpr) s as initial

/-- `R` relates any state of the run to any later one. -/
def Between (step : St → Act → Option St) (R : St → St → Prop) (s : St) (as : List Act) : Prop :=
  ∀ before middle after u t, as = before ++ middle ++ after → run step s before = some u →
    run step u middle = some t → R u t

theorem Between.tail {R : St → St → Prop} {s u : St} {a : Act} {as : List Act}
    (between : Between step R s (a :: as)) (moved : step s a = some u) : Between step R u as := by
  intro before middle after v t split first second
  apply between (a :: before) middle after v t (by rw [split]; rfl) _ second
  rw [run_cons, moved]
  exact first

theorem Between.cons {R : St → St → Prop} {s u : St} {a : Act} {as : List Act}
    (trans : ∀ {s t u}, R s t → R t u → R s u) (refl : R s s) (moved : step s a = some u)
    (first : R s u) (rest : Between step R u as) : Between step R s (a :: as) := by
  intro before middle after v t split reached later
  cases before with
  | nil =>
    cases reached
    cases middle with
    | nil =>
      cases later
      exact refl
    | cons b bs =>
      obtain ⟨rfl, parts⟩ := List.cons.inj split
      rw [run_cons, moved] at later
      exact trans first (rest [] bs after u t parts rfl later)
  | cons b bs =>
    obtain ⟨rfl, parts⟩ := List.cons.inj split
    rw [run_cons, moved] at reached
    exact rest bs middle after v t parts reached later

/-- Where the condition on a step is just that the step stays in the preorder `R`, a run
meets it exactly when `R` relates any two of its states in their order. -/
theorem meets_iff_between (I : St → Prop) (R : St → St → Prop) (refl : ∀ s, I s → R s s)
    (trans : ∀ {s t u}, R s t → R t u → R s u) (keeps : ∀ s a t, I s → step s a = some t → I t)
    (same : ∀ s a t, I s → step s a = some t → (ok s a ↔ R s t))
    (idle : ∀ s a, step s a = none → ok s a) (s : St) (as : List Act) (initial : I s) :
    Meets step ok s as ↔ Between step R s as := by
  induction as generalizing s with
  | nil =>
    refine ⟨fun _ => ?_, fun _ => trivial⟩
    intro before middle after u t split reached later
    obtain ⟨rfl, rfl, -⟩ : before = [] ∧ middle = [] ∧ after = [] := by simpa using split
    cases reached
    cases later
    exact refl s initial
  | cons a as ih =>
    cases moved : step s a with
    | none =>
      -- the run is stuck here, and has no other state
      refine ⟨fun _ => ?_, fun _ => ⟨idle s a moved, by simp [moved]⟩⟩
      intro before middle after u t split reached later
      cases before with
      | nil =>
        cases reached
        cases middle with
        | nil =>
          cases later
          exact refl s initial
        | cons b bs =>
          obtain ⟨rfl, -⟩ := List.cons.inj split
          simp [run_cons, moved] at later
      | cons b bs =>
        obtain ⟨rfl, -⟩ := List.cons.inj split
        simp [run_cons, moved] at reached
    | some t =>
      have held := keeps s a t initial moved
      constructor
      · rintro ⟨first, rest⟩
        have later := (ih t held).mp (rest t moved)
        exact Between.cons trans (refl s initial) moved ((same s a t initial moved).mp first) later
      · intro between
        refine ⟨?_, fun u moved' => ?_⟩
        · apply (same s a t initial moved).mpr
          exact between [] [a] as s t rfl rfl (by simp [run_cons, moved])
        · cases moved.symm.trans moved'
          exact (ih t held).mpr (between.tail moved)

theorem Always.initial {P : St → Prop} {s : St} {as : List Act} (always : Always step P s as) :
    P s := by
  cases as with
  | nil => exact always
  | cons a as => exact always.1

/-- What always holds holds where a run ends. -/
theorem Always.reached {P : St → Prop} {s t : St} {as : List Act} (always : Always step P s as)
    (reached : run step s as = some t) : P t := by
  induction as generalizing s with
  | nil =>
    cases reached
    exact always
  | cons a as ih =>
    rw [run_cons, Option.bind_eq_some_iff] at reached
    obtain ⟨u, moved, rest⟩ := reached
    exact ih (always.2 u moved) rest

/-- What an invariant implies holds all along a run that meets the invariant's condition. -/
theorem Meets.always (I P : St → Prop) (sound : ∀ s, I s → P s)
    (keeps : ∀ s a t, I s → ok s a → step s a = some t → I t)
    (s : St) (as : List Act) (initial : I s) (meets : Meets step ok s as) :
    Always step P s as := by
  induction as generalizing s with
  | nil => exact sound s initial
  | cons a as ih =>
    exact ⟨sound s initial, fun t moved =>
      ih t (keeps s a t initial meets.1 moved) (meets.2 t moved)⟩

/-- Two properties that agree under an invariant hold along the same runs. -/
theorem always_congr {P Q : St → Prop} (I : St → Prop)
    (keeps : ∀ s a t, I s → step s a = some t → I t) (same : ∀ s, I s → (P s ↔ Q s))
    (s : St) (as : List Act) (initial : I s) : Always step P s as ↔ Always step Q s as := by
  induction as generalizing s with
  | nil => exact same s initial
  | cons a as ih =>
    refine and_congr (same s initial) (forall_congr' fun t => ?_)
    exact imp_congr_right fun moved => ih t (keeps s a t initial moved)

/-- Along a run on which the property always holds, each step has met what the property
forces of it. -/
theorem Meets.of_always {other : St → Act → Prop} (I P : St → Prop)
    (keeps : ∀ s a t, I s → ok s a → step s a = some t → I t)
    (forced : ∀ s a t, I s → other s a → step s a = some t → P t → ok s a)
    (idle : ∀ s a, step s a = none → ok s a) (s : St) (as : List Act) (initial : I s)
    (meets : Meets step other s as) (always : Always step P s as) : Meets step ok s as := by
  induction as generalizing s with
  | nil => trivial
  | cons a as ih =>
    obtain ⟨given, rest⟩ := meets
    obtain ⟨-, later⟩ := always
    have first : ok s a := by
      cases moved : step s a with
      | none => exact idle s a moved
      | some t => exact forced s a t initial given moved (later t moved).initial
    exact ⟨first, fun t moved =>
      ih t (keeps s a t initial first moved) (rest t moved) (later t moved)⟩

/-- Where the condition on a step is just what it takes to stay in the invariant, a run
meets it exactly when the invariant always holds. -/
theorem meets_iff_always (I P : St → Prop) (sound : ∀ s, I s → P s)
    (keeps : ∀ s a t, I s → ok s a → step s a = some t → I t)
    (forced : ∀ s a t, I s → step s a = some t → P t → ok s a)
    (idle : ∀ s a, step s a = none → ok s a)
    (s : St) (as : List Act) (initial : I s) : Meets step ok s as ↔ Always step P s as := by
  constructor
  · exact Meets.always I P sound keeps s as initial
  · exact Meets.of_always I P keeps (fun s a t held _ => forced s a t held) idle s as initial
      (meets_true s as)

end

end Binbot.Machine
