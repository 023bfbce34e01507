/-
# A restart cannot be told

Somebody who only calls a ledger and looks at it cannot tell whether it was kept
in memory or rebuilt from its rows. The two have different schedules: the one in
memory still lists names for dates that are no longer theirs. But both keep the
promise that a schedule makes, and so they settle the same names to any effect,
block after block. `Twins` is the relation between the two that every call keeps.
-/

import ClaimLedger.Ledger.View
import ClaimLedger.Proofs.Ledger.Accepted
import ClaimLedger.Proofs.Ledger.Restart

namespace ClaimLedger

/-! ## Calling and looking -/

/-- Everything that a ledger shows between two calls. -/
structure Sight where
  height : Option Height
  claims : Std.ExtTreeMap ClaimHash Claim
  supports : Std.ExtTreeMap OutPoint Support
  takeover : Bytes → Option Takeover
  names : List Bytes
  nameState : Bytes → Height → NameState
  /-- The rows that would be handed out. -/
  changes : Changes

/-- A call that changes a ledger. -/
inductive Call where
  | applyBlock (height : Height) (txs : List BlockTx)
  | takeChanges

/-- What a call returns. -/
inductive Answer where
  | applied (outcome : Except SyncError BlockSummary)
  | taken (changes : Changes)

/-- Whether the call ended for want of a number. -/
def Answer.isNumeric : Answer → Bool
  | applied (.error failure) => failure.isNumeric
  | _ => false

namespace Ledger

/-- What a ledger shows. -/
def sight (ledger : Ledger) : Sight where
  height := ledger.height
  claims := ledger.claims
  supports := ledger.supports
  takeover := ledger.takeover?
  names := ledger.names.keys
  nameState := ledger.nameState
  changes := ledger.changes

/-- The ledger after a call, and what the call returns. -/
def perform (ledger : Ledger) : Call → Ledger × Answer
  | .applyBlock height txs =>
    ((ledger.applyBlock height txs).1, .applied (ledger.applyBlock height txs).2)
  | .takeChanges => (ledger.takeChanges.2, .taken ledger.takeChanges.1)

/-- What calls return one after the other, each with what the ledger shows
then. A ledger is not called again once a number was missing: what it holds then
means nothing. -/
def watch : Ledger → List Call → List (Answer × Sight)
  | _, [] => []
  | ledger, call :: more =>
    ((ledger.perform call).2, (ledger.perform call).1.sight) ::
      if (ledger.perform call).2.isNumeric then [] else watch (ledger.perform call).1 more

/-- The blocks among the calls that come in order, with so many blocks before
them. The others are refused. -/
def offered : Nat → List Call → List (List BlockTx)
  | _, [] => []
  | count, .takeChanges :: more => offered count more
  | count, .applyBlock height txs :: more =>
    if height.toNat = count then txs :: offered (count + 1) more else offered count more

/-! ## Two ledgers that cannot be told apart -/

variable {marks : Prop} {left right ledger after : Ledger} {height : Height} {txs : List BlockTx}

theorem Alike.sight_eq (alike : Alike True left right) : right.sight = left.sight := by
  obtain ⟨schedule, dirty, rfl, same⟩ := alike.eq_with
  cases same trivial
  rfl

theorem Alike.blocks_eq (alike : Alike marks left right) : right.blocks = left.blocks := by
  unfold Ledger.blocks
  rw [alike.height]

theorem Alike.changes_eq (alike : Alike True left right) : right.changes = left.changes :=
  congrArg Sight.changes alike.sight_eq

theorem Alike.takeChanges (alike : Alike marks left right) :
    Alike True left.takeChanges.2 right.takeChanges.2 :=
  ⟨alike.rules, alike.height, alike.claims, alike.supports, alike.names, alike.holdings,
    fun _ => rfl⟩

/-- Forgetting the marks keeps a ledger sound. -/
theorem Sound.takeChanges (sound : ledger.Sound) : ledger.takeChanges.2.Sound := by
  have alike : Alike False ledger ledger.takeChanges.2 :=
    ⟨rfl, rfl, rfl, rfl, rfl, rfl, False.elim⟩
  exact alike.sound sound sound.scheduled

/-- A block out of order is refused in the same way, and leaves no trace. -/
theorem sameOutcome_of_gap (alike : Alike marks left right) (txs : List BlockTx)
    (gap : height.toNat ≠ left.blocks) :
    SameOutcome marks (left.applyBlock height txs) (right.applyBlock height txs) ∧
      (left.applyBlock height txs).1 = left ∧ (right.applyBlock height txs).1 = right := by
  by_cases top : left.height = some Height.top
  · unfold applyBlock
    simp only [alike.height, if_pos top, and_self, and_true]
    exact ⟨alike, rfl⟩
  · have gap' : height.toNat ≠ right.blocks := alike.blocks_eq ▸ gap
    rw [applyBlock_of_gap top gap, applyBlock_of_gap (alike.height ▸ top) gap', alike.height]
    exact ⟨⟨alike, rfl⟩, rfl, rfl⟩

/-- Ledgers that return and show the same after a call go on alike if they do so
unless a number was missing. -/
theorem watch_cons {call : Call} {more : List Call}
    (answer : (right.perform call).2 = (left.perform call).2)
    (sight : (right.perform call).1.sight = (left.perform call).1.sight)
    (later : (left.perform call).2.isNumeric = false →
      watch (right.perform call).1 more = watch (left.perform call).1 more) :
    watch right (call :: more) = watch left (call :: more) := by
  rw [watch, watch, answer, sight]
  cases numeric : (left.perform call).2.isNumeric with
  | true => rfl
  | false => rw [later numeric]

/-- Two ledgers that took in the same blocks, and differ in nothing that is not
made good by their schedules. -/
structure Twins (blocks : List (List BlockTx)) (left right : Ledger) : Prop where
  alike : Alike True left right
  sound : left.Sound
  sound' : right.Sound
  grounded : left.Grounded (blocks.flatMap BlockTx.allOutputs)
  timely : left.Timely
  count : left.blocks = blocks.length

namespace Twins

variable {blocks : List (List BlockTx)}

theorem takeChanges (twins : Twins blocks left right) :
    Twins blocks left.takeChanges.2 right.takeChanges.2 where
  alike := twins.alike.takeChanges
  sound := twins.sound.takeChanges
  sound' := twins.sound'.takeChanges
  grounded := ⟨twins.grounded.claims, twins.grounded.supports, twins.grounded.apart⟩
  timely := twins.timely.congr rfl rfl
  count := twins.count

theorem sameOutcome (twins : Twins blocks left right) (fresh : Fresh (blocks ++ [txs]))
    (height : Height) :
    SameOutcome True (left.applyBlock height txs) (right.applyBlock height txs) :=
  sameOutcome_applyBlock twins.sound twins.sound' twins.grounded fresh.outputs_concat
    twins.alike height

/-- Twins stay twins over a block that is taken in. -/
theorem applyBlock (twins : Twins blocks left right) (fresh : Fresh (blocks ++ [txs]))
    {summary : BlockSummary} (done : (left.applyBlock height txs).2 = .ok summary) :
    Twins (blocks ++ [txs]) (left.applyBlock height txs).1 (right.applyBlock height txs).1 := by
  obtain ⟨alike, answer⟩ := twins.sameOutcome fresh height
  have done' : (right.applyBlock height txs).2 = .ok summary := answer.trans done
  have taken := taken_of_applyBlock twins.sound.indexed twins.grounded fresh.outputs_concat
    (Prod.ext rfl done : left.applyBlock height txs = (_, .ok summary))
  have taken' := taken_of_applyBlock twins.sound'.indexed (twins.alike.grounded twins.grounded)
    fresh.outputs_concat (Prod.ext rfl done' : right.applyBlock height txs = (_, .ok summary))
  exact {
    alike := alike
    sound := taken.sound twins.sound
    sound' := taken'.sound twins.sound'
    grounded := by
      rw [List.flatMap_append, List.flatMap_singleton]
      exact taken.grounded twins.sound
    timely := twins.timely.applyBlock
      (Prod.ext rfl done : left.applyBlock height txs = (_, .ok summary))
    count := by
      obtain ⟨settled, settlement, after⟩ := taken.settlement
      have last : (left.applyBlock height txs).1.height = some height :=
        congrArg Ledger.height after
      rw [Ledger.blocks, last, List.length_append, List.length_singleton, ← twins.count,
        Option.elim_some, taken.next, toNat_next_blocks taken.notTop] }

/-- Whatever is called, twins return the same and show the same. -/
theorem watch_eq {calls : List Call} (twins : Twins blocks left right)
    (fresh : Fresh (blocks ++ offered blocks.length calls)) :
    watch right calls = watch left calls := by
  induction calls generalizing blocks left right with
  | nil => rfl
  | cons call more ih =>
    cases call with
    | takeChanges =>
      have drained := twins.takeChanges
      exact watch_cons (congrArg Answer.taken twins.alike.changes_eq) drained.alike.sight_eq
        fun _ => ih drained fresh
    | applyBlock height txs =>
      by_cases inOrder : height.toNat = blocks.length
      · rw [offered, if_pos inOrder, List.append_cons] at fresh
        obtain ⟨alike, answer⟩ := twins.sameOutcome fresh.left height
        refine watch_cons (congrArg Answer.applied answer) alike.sight_eq fun defined => ?_
        cases outcome : (left.applyBlock height txs).2 with
        | ok summary =>
          refine ih (twins.applyBlock fresh.left outcome) ?_
          rw [List.length_append, List.length_singleton]
          exact fresh
        | error failure =>
          -- a block in order can only be refused for want of a number
          have numeric := isNumeric_of_applyBlock twins.timely (inOrder.trans twins.count.symm)
            outcome
          rw [perform, outcome, Answer.isNumeric, numeric] at defined
          cases defined
      · rw [offered, if_neg inOrder] at fresh
        obtain ⟨same, kept, kept'⟩ := sameOutcome_of_gap twins.alike txs (twins.count ▸ inOrder)
        refine watch_cons (congrArg Answer.applied same.answer) same.ledger.sight_eq fun _ => ?_
        rw [perform, perform, kept, kept']
        exact ih twins fresh

end Twins

section Restart

variable {rules : Rules} {blocks : List (List BlockTx)} {summaries : List BlockSummary}
variable {snapshot : Snapshot}

theorem twins_ofSnapshot (fresh : Fresh blocks)
    (run : Engine.replay applyBlock rules blocks = .ok (ledger, summaries))
    (same : ledger.snapshot.Same snapshot) :
    Twins blocks ledger.takeChanges.2 (ofSnapshot rules snapshot) := by
  obtain ⟨sound, grounded⟩ := sound_and_grounded_of_replay fresh run
  have rebuilt := alike_ofSnapshot_of_same sound same
  rw [rules_of_replay fresh run] at rebuilt
  have sound' : (ofSnapshot rules snapshot).Sound := by
    refine rebuilt.sound sound fun isLast name date coming later => ?_
    rw [rebuilt.height] at isLast
    exact exists_dueAt_ofSnapshot (same.height.trans isLast) coming later
  exact {
    alike := { rebuilt with dirty := fun _ => dirty_ofSnapshot rules snapshot }
    sound := sound.takeChanges
    sound' := sound'
    grounded := ⟨grounded.claims, grounded.supports, grounded.apart⟩
    timely := (built_of_replay run).drained.timely
    count := (height_of_replay run : ledger.blocks = blocks.length) }

/-- A ledger whose changes were handed out, and the ledger that is rebuilt from
its rows in whatever order, show the same, and go on to return and show the same
whatever is called, as long as no output and no claim comes twice in the chain.
-/
theorem watch_ofSnapshot {calls : List Call} (fresh : Fresh (blocks ++ offered blocks.length calls))
    (run : Engine.replay applyBlock rules blocks = .ok (ledger, summaries))
    (same : ledger.snapshot.Same snapshot) :
    (ofSnapshot rules snapshot).sight = ledger.takeChanges.2.sight ∧
      watch (ofSnapshot rules snapshot) calls = watch ledger.takeChanges.2 calls := by
  have twins := twins_ofSnapshot fresh.left run same
  exact ⟨twins.alike.sight_eq, twins.watch_eq fresh⟩

/-- A block too early, a look at the changes, and another claim on a name in its
turn. -/
def intrusion : List Call :=
  let newcomer : ClaimHash := ⟨List.replicate 20 7, List.length_replicate⟩
  [.applyBlock 7 [], .takeChanges,
    .applyBlock 3 [⟨Digest.zero 32, 0, [.create ⟨Digest.zero 32, 2⟩ [0x61] newcomer 9 []]⟩]]

theorem watch_intrusion :
    ∃ ledger summaries snapshot, Engine.replay applyBlock Rules.regtest apart =
        .ok (ledger, summaries) ∧
      snapshot.claims = ledger.snapshot.claims.reverse ∧
      (ofSnapshot Rules.regtest snapshot).sight = ledger.takeChanges.2.sight ∧
      watch (ofSnapshot Rules.regtest snapshot) intrusion =
        watch ledger.takeChanges.2 intrusion := by
  have isOk : (Engine.replay applyBlock Rules.regtest apart).isOk = true := by decide +kernel
  cases run : Engine.replay applyBlock Rules.regtest apart with
  | error failure =>
    rw [run] at isOk
    cases isOk
  | ok state =>
    have same : state.1.snapshot.Same
        { state.1.snapshot with claims := state.1.snapshot.claims.reverse } :=
      ⟨rfl, List.reverse_perm _, .refl _, .refl _⟩
    exact ⟨state.1, state.2, _, rfl, rfl,
      watch_ofSnapshot ⟨by decide +kernel, by decide +kernel⟩ run same⟩

end Restart

end Ledger

end ClaimLedger
