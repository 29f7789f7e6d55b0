import Mathlib.Tactic

namespace Astral.Library

section

variable {X A B : Type} {first : Except X A} {second : A → Except X B} {change : A → B} {result : B} {failure : X}

/-- A sequence of two computations succeeds when both do. -/
theorem bind_ok : (first >>= second) = .ok result ↔ ∃ middle, first = .ok middle ∧ second middle = .ok result := by
  cases first with
  | error | ok => simp [bind, Except.bind]

/-- A sequence of two computations fails when one of them does. -/
theorem bind_error : (first >>= second) = .error failure ↔
      first = .error failure ∨ ∃ middle, first = .ok middle ∧ second middle = .error failure := by
  cases first with
  | error | ok => simp [bind, Except.bind]

/-- A computation whose result is changed afterwards fails when it does. -/
theorem bind_pure_error (failed : (first >>= fun value => pure (change value)) = .error failure) :
    first = .error failure := by
  rcases bind_error.mp failed with failed | ⟨_, _, failed⟩
  · exact failed
  · cases failed

section

variable {test : Prop} [Decidable test] {value : A}

/-- A computation behind a check succeeds when both do. -/
theorem guard_ok : (if test then first else .error failure) = .ok value ↔ test ∧ first = .ok value := by
  split <;> simp [*]

theorem unless_ok : (if test then .error failure else first) = .ok value ↔ ¬ test ∧ first = .ok value := by
  split <;> simp [*]

end

/-- A computation whose result is changed afterwards succeeds when it does. -/
theorem map_ok : change <$> first = .ok result ↔ ∃ value, first = .ok value ∧ change value = result := by
  cases first with
  | error | ok => simp [Functor.map, Except.map]

end

/-- A search finds the only item that passes the test. -/
theorem find?_unique {A : Type} {items : List A} {test : A → Bool} {item : A} (member : item ∈ items)
    (passed : test item = true) (unique : ∀ other ∈ items, test other = true → other = item) :
    items.find? test = some item := by
  cases found : items.find? test with
  | none => exact absurd passed (List.find?_eq_none.mp found item member)
  | some other => rw [unique other (List.mem_of_find?_eq_some found) (List.find?_some found)]

/-- The result is good, and a failure is one that is accepted. -/
def Yields {X A : Type} (accepted : X → Prop) (result : Except X A) (good : A → Prop) : Prop :=
  match result with
  | .ok value => good value
  | .error failure => accepted failure

section Yields

variable {X A B : Type} {accepted : X → Prop} {good : A → Prop} {better : B → Prop}

theorem Yields.bind {first : Except X A} {second : A → Except X B} (begins : Yields accepted first good)
    (continues : ∀ value, good value → Yields accepted (second value) better) :
    Yields accepted (first >>= second) better := by
  cases first with
  | error failure => exact begins
  | ok value => exact continues value begins

theorem Yields.map {change : A → B} {result : Except X A}
    (yields : Yields accepted result fun value => better (change value)) : Yields accepted (change <$> result) better := by
  cases result with
  | error | ok => exact yields

section

variable {result : Except X A} (yields : Yields accepted result good)
include yields

theorem Yields.imp {weaker : A → Prop} (weaken : ∀ value, good value → weaker value) :
    Yields accepted result weaker := by
  cases result with
  | error failure => exact yields
  | ok value => exact weaken value yields

theorem Yields.of_ok {value : A} (ran : result = .ok value) : good value := by
  rw [ran] at yields
  exact yields

theorem Yields.of_error {failure : X} (failed : result = .error failure) : accepted failure := by
  rw [failed] at yields
  exact yields

end

/-- A computation whose failures are all accepted. -/
theorem Yields.of_all {result : Except X A} (all : ∀ value, good value) : Yields (fun _ => True) result good := by
  cases result with
  | error failure => exact trivial
  | ok value => exact all value

/-- A loop keeps what each of its rounds keeps. -/
theorem Yields.foldlM {round : A → B → Except X A}
    (keeps : ∀ value item, good value → Yields accepted (round value item) good) (items : List B) {value : A}
    (start : good value) : Yields accepted (items.foldlM round value) good := by
  induction items generalizing value with
  | nil => exact start
  | cons item rest ih =>
    rw [List.foldlM_cons]
    exact (keeps value item start).bind fun _ kept => ih kept

end Yields

variable {S E X : Type}

/-- An allowed event leads from one state to the next. -/
def Follows (step : S → E → Except X S) (allowed : S → E → Prop) (state next : S) : Prop :=
  ∃ event, allowed state event ∧ step state event = .ok next

/-- A run takes allowed events one after another. -/
def Reaches (step : S → E → Except X S) (allowed : S → E → Prop) : S → S → Prop :=
  Relation.ReflTransGen (Follows step allowed)

variable {step : S → E → Except X S} {allowed : S → E → Prop}

/-- A run keeps every property that each of its steps keeps. -/
theorem Reaches.keeps (keeps : S → Prop)
    (preserved : ∀ state event next, keeps state → allowed state event → step state event = .ok next → keeps next)
    {state final : S} (reached : Reaches step allowed state final) (start : keeps state) : keeps final := by
  induction reached with
  | refl => exact start
  | tail _ last ih =>
    obtain ⟨event, may, moved⟩ := last
    exact preserved _ event _ ih may moved

/-- A run goes on with one more event. -/
theorem Reaches.next {state middle final : S} (reached : Reaches step allowed state middle) {event : E}
    (may : allowed middle event) (moved : step middle event = .ok final) : Reaches step allowed state final :=
  Relation.ReflTransGen.tail reached ⟨event, may, moved⟩

/-- A list of events that are always allowed is a run. -/
theorem Reaches.of_foldlM (events : List E) (may : ∀ event ∈ events, ∀ state, allowed state event) {state final : S}
    (ran : events.foldlM step state = .ok final) : Reaches step allowed state final := by
  induction events generalizing state with
  | nil =>
    cases ran
    exact .refl
  | cons event rest ih =>
    rw [List.foldlM_cons] at ran
    obtain ⟨middle, moved, ran⟩ := bind_ok.mp ran
    have later := ih (fun other member => may other (List.mem_cons_of_mem _ member)) ran
    exact Relation.ReflTransGen.head ⟨event, may event List.mem_cons_self state, moved⟩ later

end Astral.Library
