/-
# Reasoning about the steps of an advance

An advance is a sequence of steps that may fail, and what a step changed stays
changed when it fails. `Ensures` says what holds after a step, in either case,
of the two things that matter to the next advance: the stored rows and the
ledger in memory. The source and the published events are left out of it, so a
step that changes nothing else keeps whatever is said.
-/

import ClaimLedger.Sync

namespace ClaimLedger

namespace SyncState

variable {σ τ : Type}

/-- The state with more events published. -/
def tell (state : SyncState σ τ) (events : List ProgressEvent) : SyncState σ τ :=
  { state with published := state.published ++ events }

@[simp]
theorem chain_tell (state : SyncState σ τ) (events : List ProgressEvent) :
    (state.tell events).chain = state.chain :=
  rfl

@[simp]
theorem rows_tell (state : SyncState σ τ) (events : List ProgressEvent) :
    (state.tell events).rows = state.rows :=
  rfl

@[simp]
theorem ledger_tell (state : SyncState σ τ) (events : List ProgressEvent) :
    (state.tell events).ledger = state.ledger :=
  rfl

@[simp]
theorem published_tell (state : SyncState σ τ) (events : List ProgressEvent) :
    (state.tell events).published = state.published ++ events :=
  rfl

theorem tell_tell (state : SyncState σ τ) (earlier later : List ProgressEvent) :
    (state.tell earlier).tell later = state.tell (earlier ++ later) := by
  rw [tell, tell, tell, List.append_assoc]

end SyncState

namespace Sync

variable {σ τ α β : Type} {rows : τ → RowStore}

/-- Where `before` holds of the stored rows and the ledger in memory, the step
ends with a result for which `after` holds of them, or fails with stored rows for
which `failed` holds. -/
def Ensures (rows : τ → RowStore) (before : RowStore → Option Ledger → Prop)
    (step : SyncM σ τ α) (after : α → RowStore → Option Ledger → Prop)
    (failed : RowStore → Prop) : Prop :=
  ∀ state, before (rows state.rows) state.ledger →
    match step.run state with
    | (.ok value, next) => after value (rows next.rows) next.ledger
    | (.error _, next) => failed (rows next.rows)

namespace Ensures

variable {before between : RowStore → Option Ledger → Prop} {failed : RowStore → Prop}
variable {step : SyncM σ τ α} {after after' : α → RowStore → Option Ledger → Prop}

/-- One step after the other. -/
theorem bind {more : α → SyncM σ τ β} {last : β → RowStore → Option Ledger → Prop}
    (first : Ensures rows before step after failed)
    (second : ∀ value, Ensures rows (after value) (more value) last failed) :
    Ensures rows before (step >>= more) last failed := by
  intro state holds
  have reached := first state holds
  have runs : (step >>= more).run state =
      ExceptT.bindCont more (step.run state).1 (step.run state).2 := rfl
  rw [runs]
  cases result : step.run state with
  | mk answer next =>
    rw [result] at reached
    cases answer with
    | error failure => exact reached
    | ok value => exact second value next reached

theorem pure {value : α} (holds : ∀ store ledger, before store ledger → after value store ledger) :
    Ensures rows before (Pure.pure value : SyncM σ τ α) after failed :=
  fun _ => holds _ _

theorem throw {failure : SyncError} (holds : ∀ store ledger, before store ledger → failed store) :
    Ensures rows before (throw failure : SyncM σ τ α) after failed :=
  fun _ => holds _ _

/-- More may be asked of where a step starts. -/
theorem start {before' : RowStore → Option Ledger → Prop}
    (ensures : Ensures rows before step after failed)
    (asked : ∀ store ledger, before' store ledger → before store ledger) :
    Ensures rows before' step after failed :=
  fun state holds => ensures state (asked _ _ holds)

/-- Less may be said of where a step ends. -/
theorem finish (ensures : Ensures rows before step after failed)
    (said : ∀ value store ledger, after value store ledger → after' value store ledger) :
    Ensures rows before step after' failed := by
  intro state holds
  have reached := ensures state holds
  cases result : step.run state with
  | mk answer next =>
    rw [result] at reached
    cases answer with
    | error failure => exact reached
    | ok value => exact said _ _ _ reached

/-- What is known at the start of a step may have nothing to do with the state. -/
theorem of_imp {known : Prop} (ensures : known → Ensures rows before step after failed) :
    Ensures rows (fun store ledger => known ∧ before store ledger) step after failed :=
  fun state holds => ensures holds.1 state holds.2

theorem ite {condition : Prop} [Decidable condition] {other : SyncM σ τ α}
    (yes : condition → Ensures rows before step after failed)
    (no : ¬ condition → Ensures rows before other after failed) :
    Ensures rows before (if condition then step else other) after failed := by
  by_cases holds : condition
  · rw [if_pos holds]
    exact yes holds
  · rw [if_neg holds]
    exact no holds

/-- A check in front of the rest. -/
theorem guard {condition : Prop} [Decidable condition] {failure : SyncError}
    {rest : Unit → SyncM σ τ α} (fall : ∀ store ledger, before store ledger → failed store)
    (pass : ¬ condition → Ensures rows before (rest ()) after failed) :
    Ensures rows before
      (if condition then (MonadExcept.throw failure : SyncM σ τ Unit) >>= rest else rest ())
      after failed := by
  refine ite (fun _ => ?_) pass
  have fails : Ensures rows before (MonadExcept.throw failure : SyncM σ τ Unit)
      (fun _ _ _ => False) failed := throw fall
  exact fails.bind fun _ _ never => never.elim

end Ensures

/-! ## Single steps -/

section Runs

theorem run_bind_ok {step : SyncM σ τ α} {more : α → SyncM σ τ β} {state next : SyncState σ τ}
    {value : α} (ends : step.run state = (.ok value, next)) :
    (step >>= more).run state = (more value).run next := by
  have runs : (step >>= more).run state =
      ExceptT.bindCont more (step.run state).1 (step.run state).2 := rfl
  rw [runs, ends]
  rfl

theorem run_bind_error {step : SyncM σ τ α} {more : α → SyncM σ τ β} {state next : SyncState σ τ}
    {failure : SyncError} (ends : step.run state = (.error failure, next)) :
    (step >>= more).run state = (.error failure, next) := by
  have runs : (step >>= more).run state =
      ExceptT.bindCont more (step.run state).1 (step.run state).2 := rfl
  rw [runs, ends]
  rfl

theorem run_askChain (question : σ → Except SyncError α × σ) (state : SyncState σ τ) :
    (askChain question : SyncM σ τ α).run state =
      ((question state.chain).1, { state with chain := (question state.chain).2 }) := by
  have fixed : (askChain question : SyncM σ τ α).run state =
      (askChain fun _ => question state.chain : SyncM σ τ α).run state := rfl
  rw [fixed]
  rcases question state.chain with ⟨_ | _, _⟩ <;> rfl

theorem run_askRows (question : τ → Except (List String) α × τ) (state : SyncState σ τ) :
    (askRows question : SyncM σ τ α).run state =
      ((question state.rows).1.mapError SyncError.store,
        { state with rows := (question state.rows).2 }) := by
  have fixed : (askRows question : SyncM σ τ α).run state =
      (askRows fun _ => question state.rows : SyncM σ τ α).run state := rfl
  rw [fixed]
  rcases question state.rows with ⟨_ | _, _⟩ <;> rfl

theorem run_get_bind {more : SyncState σ τ → SyncM σ τ α} (state : SyncState σ τ) :
    ((get : SyncM σ τ (SyncState σ τ)) >>= more).run state = (more state).run state :=
  rfl

theorem run_modify_bind (change : SyncState σ τ → SyncState σ τ) {more : Unit → SyncM σ τ α}
    (state : SyncState σ τ) :
    ((modify change : SyncM σ τ Unit) >>= more).run state = (more ()).run (change state) :=
  rfl

theorem run_publish (events : List ProgressEvent) (state : SyncState σ τ) :
    (publish events : SyncM σ τ Unit).run state = (.ok (), state.tell events) :=
  rfl

theorem run_complete (result : StageResult α) (state : SyncState σ τ) :
    (complete result : SyncM σ τ α).run state = (result.2, state.tell result.1) := by
  rcases result with ⟨_, _ | _⟩ <;> rfl

theorem run_writeBatch (env : Surroundings σ τ) (batch : Batch) (state : SyncState σ τ) :
    let total := batch.changes.claims.length
    let answer := env.rows.commit batch (max env.intervals.claims 1) state.rows
    (writeBatch env batch).run state = (answer.1.2.mapError SyncError.store,
      { state with rows := answer.2 }.tell
        (Stage.rowsStart batch.file total ++ Stage.rowEvents batch.file total answer.1.1)) := by
  intro total answer
  have fixed : (writeBatch env batch).run state =
      (writeBatch { env with rows := { env.rows with commit := fun _ _ _ => answer } }
        batch).run state := rfl
  rw [fixed, ← SyncState.tell_tell]
  rcases answer with ⟨⟨_, _ | _⟩, _⟩ <;> rfl

end Runs

section Steps

variable {before : RowStore → Option Ledger → Prop} {failed : RowStore → Prop}

theorem ensures_get :
    Ensures rows before (get : SyncM σ τ (SyncState σ τ))
      (fun state store ledger =>
        before store ledger ∧ store = rows state.rows ∧ ledger = state.ledger) failed :=
  fun _ holds => ⟨holds, rfl, rfl⟩

theorem ensures_publish (events : List ProgressEvent) :
    Ensures rows before (publish events : SyncM σ τ Unit) (fun _ => before) failed :=
  fun _ holds => holds

theorem ensures_setLedger (ledger : Ledger) :
    Ensures rows before
      (modify fun state => { state with ledger := some ledger } : SyncM σ τ Unit)
      (fun _ store current => current = some ledger ∧ ∃ earlier, before store earlier) failed :=
  fun state holds => ⟨rfl, state.ledger, holds⟩

variable (fall : ∀ store ledger, before store ledger → failed store)

include fall

theorem ensures_ofResult (answer : Except SyncError α) :
    Ensures rows before (ofResult answer : SyncM σ τ α)
      (fun value store ledger => answer = .ok value ∧ before store ledger) failed := by
  cases answer with
  | error failure => exact Ensures.throw fall
  | ok value => exact Ensures.pure fun _ _ holds => ⟨rfl, holds⟩

theorem ensures_complete (result : StageResult α) :
    Ensures rows before (complete result : SyncM σ τ α)
      (fun value store ledger => result.2 = .ok value ∧ before store ledger) failed :=
  (ensures_publish result.1).bind fun _ => ensures_ofResult fall result.2

/-- Asking the source changes neither the rows nor the ledger. -/
theorem ensures_askChain (question : σ → Except SyncError α × σ) :
    Ensures rows before (askChain question : SyncM σ τ α)
      (fun value store ledger =>
        (∃ state next, question state = (.ok value, next)) ∧ before store ledger) failed := by
  intro state holds
  rw [run_askChain]
  cases result : question state.chain with
  | mk answer chain =>
    cases answer with
    | error failure => exact fall _ _ holds
    | ok value => exact ⟨⟨state.chain, chain, result⟩, holds⟩

/-- Asking the store changes nothing, where a question leaves the rows alone. -/
theorem ensures_askRows {question : τ → Except (List String) α × τ}
    (keeps : ∀ state, rows (question state).2 = rows state) :
    Ensures rows before (askRows question : SyncM σ τ α)
      (fun value store ledger =>
        (∃ state, rows state = store ∧ (question state).1 = .ok value) ∧ before store ledger)
      failed := by
  intro state holds
  have kept := keeps state.rows
  rw [run_askRows]
  cases result : question state.rows with
  | mk answer next =>
    rw [result] at kept
    have kept : rows next = rows state.rows := kept
    rw [← kept] at holds
    cases answer with
    | error causes => exact fall _ _ holds
    | ok value => exact ⟨⟨state.rows, kept.symm, congrArg Prod.fst result⟩, holds⟩

end Steps

end Sync

end ClaimLedger
