/-
# How a ledger is represented

Besides its rows a ledger keeps five indexes: the claim in each output, the claims and the supports
of each name, the names in use, and the heights at which a name needs another look. A block updates
them by hand, one after the other, and one is read while another is still behind. Between blocks
they all say what the rows say: `Represented` lists it, without any of the functions that keep the
indexes up. The schedule alone is not determined by the rows. It may list a name for heights at
which nothing happens under it any more, but for none that is past, and for no name later than the
next height at which something does.
-/

import ClaimLedger.Proofs.Ledger.Control
import ClaimLedger.Proofs.Ledger.Restart
import ClaimLedger.Proofs.Ledger.Verified

namespace ClaimLedger

namespace Ledger

variable {ledger after : Ledger} {height last key date : Height} {name : Bytes}
variable {rules : Rules} {blocks : List (List BlockTx)} {txs : List BlockTx}

/-! ## What the indexes say -/

/-- A claim or a support of the name starts or stops counting at the height. -/
def TurnsAt (ledger : Ledger) (name : Bytes) (date : Height) : Prop :=
  (∃ (hash : ClaimHash) (claim : Claim), ledger.claims[hash]? = some claim ∧ claim.name = name ∧
      (date = claim.term.activation ∨ date = claim.term.expiration)) ∨
    ∃ (outpoint : OutPoint) (support : Support), ledger.supports[outpoint]? = some support ∧
      support.name = name ∧ (date = support.term.activation ∨ date = support.term.expiration)

/-- The indexes of a ledger say what its rows say. -/
structure Represented (ledger : Ledger) : Prop where
  /-- Every row is kept under its own key. -/
  keyed : ledger.Keyed
  /-- The outputs on record are those of the claims, -/
  holdings : ∀ {outpoint : OutPoint} {hash : ClaimHash}, ledger.holdings[outpoint]? = some hash ↔
    ∃ claim, ledger.claims[hash]? = some claim ∧ claim.outpoint = outpoint
  /-- and no two claims are in the same output. -/
  apart : ∀ {hash other : ClaimHash} {claim row : Claim}, ledger.claims[hash]? = some claim →
    ledger.claims[other]? = some row → claim.outpoint = row.outpoint → hash = other
  /-- Under each name are the claims of that name, -/
  claims : ∀ {name : Bytes} {hash : ClaimHash}, hash ∈ (ledger.entry name).claims ↔
    ∃ claim, ledger.claims[hash]? = some claim ∧ claim.name = name
  /-- and the supports of that name. -/
  supports : ∀ {name : Bytes} {outpoint : OutPoint}, outpoint ∈ (ledger.entry name).supports ↔
    ∃ support, ledger.supports[outpoint]? = some support ∧ support.name = name
  /-- A name is in use as long as it has a claim, a support or a controller. -/
  inUse : ∀ {name : Bytes}, name ∈ ledger.names ↔
    (∃ (hash : ClaimHash) (claim : Claim), ledger.claims[hash]? = some claim ∧ claim.name = name) ∨
      (∃ (outpoint : OutPoint) (support : Support),
        ledger.supports[outpoint]? = some support ∧ support.name = name) ∨
      (ledger.takeover? name).isSome = true
  /-- The schedule lies ahead. -/
  ahead : ∀ key ∈ ledger.schedule, ∃ last, ledger.height = some last ∧ last < key
  /-- A name for which something is still to come is listed no later than the first of it. -/
  due : ∀ {last : Height} {name : Bytes}, ledger.height = some last →
    (∃ date, ledger.TurnsAt name date ∧ last < date) →
      ∃ key names, ledger.schedule[key]? = some names ∧ name ∈ names ∧
        ∀ date, ledger.TurnsAt name date → last < date → key ≤ date

/-- The dates of a name are those of the rows of the name. -/
theorem mem_dates_iff_turnsAt (indexed : ledger.Indexed) :
    date ∈ (ledger.standing name).dates ↔ ledger.TurnsAt name date := by
  rw [Standing.mem_dates, TurnsAt]
  refine or_congr ⟨?_, ?_⟩ ⟨?_, ?_⟩
  · rintro ⟨claim, listed, turns⟩
    obtain ⟨live, named⟩ := (mem_standing_claims indexed).mp listed
    exact ⟨claim.hash, claim, live, named, turns⟩
  · rintro ⟨hash, claim, live, rfl, turns⟩
    exact ⟨claim, ((getElem?_claims_eq_some_iff indexed).mp live).2, turns⟩
  · rintro ⟨support, listed, turns⟩
    obtain ⟨live, named⟩ := (mem_standing_supports indexed).mp listed
    exact ⟨support.outpoint, support, live, named, turns⟩
  · rintro ⟨outpoint, support, live, rfl, turns⟩
    exact ⟨support, ((getElem?_supports_eq_some_iff indexed).mp live).2, turns⟩

/-- In a sound ledger a name has one place on the schedule that is early enough for all of its
dates. -/
theorem Sound.exists_key (sound : ledger.Sound) (reached : ledger.height = some last)
    (coming : ∃ date ∈ (ledger.standing name).dates, last < date) :
    ∃ key, name ∈ ledger.dueAt key ∧
      ∀ date ∈ (ledger.standing name).dates, last < date → key ≤ date := by
  obtain ⟨date, listed, later⟩ := coming
  have member : date ∈ (ledger.standing name).dates.filter fun date => last < date := by
    simp [listed, later]
  cases least : ((ledger.standing name).dates.filter fun date => last < date).min? with
  | none =>
    rw [List.min?_eq_none_iff.mp least] at member
    cases member
  | some first =>
    obtain ⟨isDate, below⟩ := List.min?_eq_some_iff.mp least
    obtain ⟨isDate, isLater⟩ := List.mem_filter.mp isDate
    obtain ⟨key, -, inTime, due⟩ :=
      sound.scheduled reached name first isDate (of_decide_eq_true isLater)
    refine ⟨key, due, fun other isOther later => UInt32.le_trans inTime (below other ?_)⟩
    exact List.mem_filter.mpr ⟨isOther, decide_eq_true later⟩

/-- A name in use is one that something lives under. -/
theorem Sound.mem_names_iff (sound : ledger.Sound) :
    name ∈ ledger.names ↔
      (∃ (hash : ClaimHash) (claim : Claim),
        ledger.claims[hash]? = some claim ∧ claim.name = name) ∨
      (∃ (outpoint : OutPoint) (support : Support),
        ledger.supports[outpoint]? = some support ∧ support.name = name) ∨
      (ledger.takeover? name).isSome = true := by
  constructor
  · intro used
    have something := sound.inUse name used
    contrapose! something
    obtain ⟨noClaim, noSupport, noTakeover⟩ := something
    refine Standing.ext (List.eq_nil_iff_forall_not_mem.mpr fun claim listed => ?_)
      (List.eq_nil_iff_forall_not_mem.mpr fun support listed => ?_) ?_
    · obtain ⟨live, named⟩ := (mem_standing_claims sound.indexed).mp listed
      exact noClaim claim.hash claim live named
    · obtain ⟨live, named⟩ := (mem_standing_supports sound.indexed).mp listed
      exact noSupport support.outpoint support live named
    · rw [← takeover?_eq_standing]
      simpa using noTakeover
  · intro something
    by_contra unused
    have nothing := standing_of_not_mem unused
    rcases something with ⟨hash, claim, live, rfl⟩ | ⟨outpoint, support, live, rfl⟩ | controlled
    · have listed := ((getElem?_claims_eq_some_iff sound.indexed).mp live).2
      rw [nothing] at listed
      cases listed
    · have listed := ((getElem?_supports_eq_some_iff sound.indexed).mp live).2
      rw [nothing] at listed
      cases listed
    · rw [takeover?_eq_standing, nothing] at controlled
      cases controlled

/-! ## The schedule lies ahead -/

/-- No name is on the schedule for a height that is past. -/
def Ahead (ledger : Ledger) : Prop :=
  ∀ key ∈ ledger.schedule, ∃ last, ledger.height = some last ∧ last < key

/-- A name goes on the schedule for a later height only. -/
theorem mem_schedule_scheduleNext (listed : key ∈ (ledger.scheduleNext name height).schedule) :
    key ∈ ledger.schedule ∨ height < key := by
  rw [scheduleNext] at listed
  split at listed
  · exact .inl listed
  · next next found =>
    rcases Std.ExtTreeMap.mem_insert.mp listed with same | listed
    · have later := (List.mem_filter.mp (List.min?_eq_some_iff.mp found).1).2
      rw [← Std.compare_eq_iff_eq.mp same]
      exact .inr (of_decide_eq_true later)
    · exact .inl listed

theorem mem_schedule_settle (indexed : ledger.Indexed)
    (listed : key ∈ (ledger.settle name height).1.schedule) :
    key ∈ ledger.schedule ∨ height < key := by
  by_cases used : name ∈ ledger.names
  · rw [settle_of_mem used] at listed
    rcases mem_schedule_scheduleNext listed with listed | later
    · rw [schedule_refreshEffective (indexed_updateControl indexed name height),
        schedule_updateControl indexed] at listed
      exact .inl listed
    · exact .inr later
  · rw [settle_of_not_mem used] at listed
    exact .inl listed

theorem mem_schedule_settleAll {names : List Bytes} {changes : List (Bytes × Option ClaimHash)}
    (indexed : ledger.Indexed) (done : settleAll height names ledger = (after, .ok changes))
    (listed : key ∈ after.schedule) : key ∈ ledger.schedule ∨ height < key := by
  induction names generalizing ledger changes with
  | nil =>
    cases done
    exact .inl listed
  | cons name more ih =>
    obtain ⟨-, -, rest, done, -⟩ := settleAll_cons_ok done
    obtain ⟨_, pruned⟩ := (ledger.settle name height).1.rest_prune name
    rcases ih (indexed_prune (indexed_settle indexed name height) name) done with earlier | later
    · rw [pruned] at earlier
      exact mem_schedule_settle indexed earlier
    · exact .inr later

/-- A block takes its own height off the schedule, and puts later ones on it. -/
theorem Ahead.applyBlock {used : List OutPoint} {summary : BlockSummary} (ahead : ledger.Ahead)
    (indexed : ledger.Indexed) (grounded : ledger.Grounded used)
    (fresh : (used ++ BlockTx.allOutputs txs).Nodup)
    (done : ledger.applyBlock height txs = (after, .ok summary)) : after.Ahead := by
  obtain ⟨notTop, next, -, settled, settling, rfl⟩ := applyBlock_ok done
  have reached := BlockWork.reached_run height indexed grounded fresh
  intro key listed
  refine ⟨height, rfl, ?_⟩
  rcases mem_schedule_settleAll reached.indexed settling listed with earlier | later
  · obtain ⟨_, _, _, _, _, edited⟩ := reached.edits.rest
    rw [edited] at earlier
    obtain ⟨different, earlier⟩ := Std.ExtTreeMap.mem_erase.mp earlier
    obtain ⟨last, isLast, before⟩ := ahead key earlier
    rw [isLast, Ne, Option.some.injEq] at notTop
    rw [isLast] at next
    have succ := toNat_next notTop
    have apart : height.toNat ≠ key.toNat := fun same =>
      different (Std.compare_eq_iff_eq.mpr (UInt32.toNat_inj.mp same))
    rw [← next] at succ
    rw [UInt32.lt_iff_toNat_lt] at before ⊢
    omega
  · exact later

/-- Rebuilt from rows, a ledger lists names for later heights only. -/
theorem ahead_ofSnapshot (rules : Rules) (snapshot : Snapshot) :
    (ofSnapshot rules snapshot).Ahead := by
  have start : (loaded rules snapshot).schedule = ∅ :=
    view_loaded schedule rules snapshot (fun _ _ => rfl) (fun _ _ => rfl) fun _ _ => rfl
  intro key listed
  rw [height_ofSnapshot]
  cases last : snapshot.height with
  | none =>
    have unscheduled : ofSnapshot rules snapshot = loaded rules snapshot := by
      simp only [ofSnapshot, loaded, last]
    rw [unscheduled, start] at listed
    exact absurd listed Std.ExtTreeMap.not_mem_empty
  | some height =>
    rw [ofSnapshot_eq last] at listed
    refine ⟨height, rfl, ?_⟩
    exact List.foldlRecOn (motive := fun now : Ledger => ∀ key ∈ now.schedule, height < key) _ _
      (fun key listed => absurd (start ▸ listed) Std.ExtTreeMap.not_mem_empty)
      (fun now ahead name _ key listed =>
        (mem_schedule_scheduleNext listed).elim (ahead key) id) key listed

/-! ## The ledgers of a chain -/

/-- The ledger was led by these blocks from nothing. On the way its changes may have been handed
out, blocks that were out of order may have been offered to it, and it may have been rebuilt from
its own rows, in whatever order they came. -/
inductive Led (rules : Rules) : List (List BlockTx) → Ledger → Prop
  | empty : Led rules [] (empty rules)
  | block {blocks : List (List BlockTx)} {ledger after : Ledger} {height : Height}
      {txs : List BlockTx} {summary : BlockSummary} : Led rules blocks ledger →
      ledger.applyBlock height txs = (after, .ok summary) → Led rules (blocks ++ [txs]) after
  | outOfOrder {blocks : List (List BlockTx)} {ledger : Ledger} {height : Height}
      {txs : List BlockTx} : Led rules blocks ledger → height ≠ Height.next ledger.height →
      Led rules blocks (ledger.applyBlock height txs).1
  | drained {blocks : List (List BlockTx)} {ledger : Ledger} : Led rules blocks ledger →
      Led rules blocks ledger.takeChanges.2
  | restarted {blocks : List (List BlockTx)} {ledger : Ledger} {snapshot : Snapshot} :
      Led rules blocks ledger → ledger.snapshot.Same snapshot →
      Led rules blocks (ofSnapshot rules snapshot)

namespace Stands

/-- The rows that a ledger stands on are on outputs of the chain. -/
theorem grounded (stands : Stands rules blocks ledger) (fresh : Fresh blocks) :
    ledger.Grounded (blocks.flatMap BlockTx.allOutputs) := by
  obtain ⟨replica, summaries, run, alike⟩ := stands.replayed
  exact alike.grounded (sound_and_grounded_of_replay fresh run).2

theorem rules_eq (stands : Stands rules blocks ledger) (fresh : Fresh blocks) :
    ledger.rules = rules := by
  obtain ⟨replica, summaries, run, alike⟩ := stands.replayed
  exact alike.rules.trans (rules_of_replay fresh run)

end Stands

/-- Blocks taken in one after the other lead a ledger. -/
theorem led_of_replay {summaries : List BlockSummary}
    (run : Engine.replay Ledger.applyBlock rules blocks = .ok (ledger, summaries)) :
    Led rules blocks ledger := by
  induction blocks using List.reverseRecOn generalizing ledger summaries with
  | nil =>
    cases run
    exact .empty
  | append_singleton blocks txs ih =>
    obtain ⟨before, earlier, summary, run, done, -⟩ := Engine.replay_concat_eq_ok.mp run
    exact .block (ih run) done

/-- However a ledger was led, it stands where the blocks alone lead to. -/
theorem stands_of_led (fresh : Fresh blocks) (led : Led rules blocks ledger) :
    Stands rules blocks ledger := by
  induction led with
  | empty => exact ⟨⟨Ledger.empty rules, [], rfl, Alike.refl _⟩, sound_empty rules⟩
  | block _ done ih => exact (ih fresh.init).concat fresh done
  | outOfOrder _ wrong ih =>
    rw [applyBlock_of_ne_next _ wrong]
    exact ih fresh
  | drained _ ih => exact (ih fresh).takeChanges
  | restarted _ same ih =>
    have stands := ih fresh
    exact stands.rules_eq fresh ▸ stands.ofSnapshot same

/-- However a ledger was led, its schedule lies ahead. -/
theorem ahead_of_led (fresh : Fresh blocks) (led : Led rules blocks ledger) : ledger.Ahead := by
  induction led with
  | empty =>
    intro key listed
    exact absurd listed Std.ExtTreeMap.not_mem_empty
  | block led done ih =>
    have stands := stands_of_led fresh.init led
    exact (ih fresh.init).applyBlock stands.sound.indexed (stands.grounded fresh.init)
      fresh.outputs_concat done
  | outOfOrder _ wrong ih =>
    rw [applyBlock_of_ne_next _ wrong]
    exact ih fresh
  | drained _ ih => exact ih fresh
  | restarted _ _ _ => exact ahead_ofSnapshot _ _

/-- A sound ledger with its schedule ahead is represented as it should be. -/
theorem Sound.represented (sound : ledger.Sound) (ahead : ledger.Ahead) :
    ledger.Represented where
  keyed := ⟨sound.indexed.claim_hash, sound.indexed.support_outpoint⟩
  holdings := sound.indexed.holdings
  apart := by
    intro hash other claim row live live' same
    have held := sound.indexed.holdings.mpr ⟨claim, live, rfl⟩
    have held' := sound.indexed.holdings.mpr ⟨row, live', same.symm⟩
    exact Option.some.inj (held.symm.trans held')
  claims := sound.indexed.mem_claims
  supports := sound.indexed.mem_supports
  inUse := sound.mem_names_iff
  ahead := ahead
  due := by
    intro last name reached coming
    simp only [← mem_dates_iff_turnsAt sound.indexed] at coming ⊢
    obtain ⟨key, due, first⟩ := sound.exists_key reached coming
    rw [dueAt] at due
    cases listed : ledger.schedule[key]? with
    | none =>
      rw [listed] at due
      exact absurd due Std.ExtTreeSet.not_mem_empty
    | some names =>
      rw [listed] at due
      exact ⟨key, names, listed, due, first⟩

/-- After every block, and after every rebuild, the indexes say what the rows say, and nothing that
is to come under a name is missed by the schedule. -/
theorem represented_of_led (fresh : Fresh blocks) (led : Led rules blocks ledger) :
    ledger.Represented :=
  (stands_of_led fresh led).sound.represented (ahead_of_led fresh led)

/-- A block that spends the output of the first of two contestants. -/
def givenUp : List BlockTx :=
  [⟨Digest.zero 32, 0, [.spend ⟨Digest.zero 32, 0⟩]⟩]

/-- The contest over a name is rebuilt from its rows in another order, and then one of the two
claims is given up. The other claim and the support expire at different heights. -/
theorem represented_contest :
    ∃ ledger, Led Rules.regtest (contest ++ [givenUp]) ledger ∧ ledger.height = some 3 ∧
      ledger.claims.size = 1 ∧ ledger.supports.size = 1 ∧ ledger.schedule.keys = [500, 501] ∧
        ledger.Represented := by
  have ending : (Engine.replay applyBlock Rules.regtest contest).toOption.map (fun state =>
      let rows := state.1.snapshot
      let after := (ofSnapshot Rules.regtest
        { rows with claims := rows.claims.reverse }).applyBlock 3 givenUp
      (after.2.isOk, after.1.height, after.1.claims.size, after.1.supports.size,
        after.1.schedule.keys)) = some (true, some 3, 1, 1, [500, 501]) := by decide +kernel
  obtain ⟨⟨before, summaries⟩, run, shown⟩ := exists_of_map_toOption ending
  have same : before.snapshot.Same
      { before.snapshot with claims := before.snapshot.claims.reverse } :=
    ⟨rfl, List.reverse_perm _, .refl _, .refl _⟩
  have rebuilt := (led_of_replay run).restarted same
  simp only [Prod.mk.injEq] at shown
  obtain ⟨accepted, reached, claims, supports, keys⟩ := shown
  rcases done : (ofSnapshot Rules.regtest
    { before.snapshot with claims := before.snapshot.claims.reverse }).applyBlock 3 givenUp with
    ⟨after, failure | summary⟩
  · rw [done] at accepted
    cases accepted
  · rw [done] at reached claims supports keys
    have led := rebuilt.block done
    exact ⟨after, led, reached, claims, supports, keys,
      represented_of_led ⟨by decide +kernel, by decide +kernel⟩ led⟩

end Ledger

end ClaimLedger
