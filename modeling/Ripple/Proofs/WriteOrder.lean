import Ripple.Event
import Ripple.Proofs.OneRound
import Ripple.Proofs.StoreShape

/-!
The order of submitted writes. Two writes to different cells come to the same in either order
(`swap_sets`), so that writes to cells that are all different lead to the same store in any order, with
the same effects and registers in another order (`submit_reordered`). All that follows goes by the store
and by which registers were touched (`settle_alike`), so that the blocks cannot tell the orders apart
either (`order_of_writes_immaterial`).
-/

namespace Ripple

/-- The cell that a change writes, if it writes one. -/
def Change.cell? (s : Store) : Change → Option CellAddress
  | .set id row name _ => do
    let t ← s.find? id
    let index ← t.resolve? name
    return ⟨id, row, index⟩
  | .append .. | .define .. => none

/-- The changes write cells, and no two of them the same cell. -/
structure WriteApart (s : Store) (changes : List Change) : Prop where
  sets : ∀ change ∈ changes, change.IsSet
  distinct : (changes.filterMap (Change.cell? s)).Nodup

/-- Transactions that have come to the same, but for the order of what was done. -/
structure Reordered (a b : Run × List Register) : Prop where
  store : a.1.store = b.1.store
  effects : a.1.effects.Perm b.1.effects
  rounds : a.1.rounds = b.1.rounds
  fired : a.1.fired = b.1.fired
  touched : a.2.Perm b.2

/-- Runs that have done the same since a past in which they differ. -/
structure SameSince (past others : List Effect) (a b : Run) : Prop where
  store : a.store = b.store
  effects : ∃ since, a.effects = past ++ since ∧ b.effects = others ++ since
  rounds : a.rounds = b.rounds
  fired : a.fired = b.fired

/-- Both succeed with what is similar, or both fail for the same reason. -/
inductive Alike {α : Type} (similar : α → α → Prop) : Except Failure α → Except Failure α → Prop
  | ok {a b : α} (same : similar a b) : Alike similar (.ok a) (.ok b)
  | error {a b : Failure} (same : a.fault = b.fault) : Alike similar (.error a) (.error b)

/-- The same is due, now and later, and the same was done since. -/
structure RoundsAlike (past others : List Effect) (a b : Round) : Prop where
  run : SameSince past others a.run b.run
  due : ∀ i, i ∈ a.due ↔ i ∈ b.due
  later : ∀ i, i ∈ a.later ↔ i ∈ b.later

variable {s : Store} {change other : Change} {changes others : List Change} {outcome : Outcome}

/-! ## Two writes -/

theorem Table.checkWrite_put {t : Table} {row index r i : Nat} {value v : Value} :
    (t.put row index value).checkWrite r i v = .ok () ↔ t.checkWrite r i v = .ok () := by
  rw [checkWrite_eq_ok_iff, checkWrite_eq_ok_iff, checkKind_congr (specs_put ..), rowCount_put]

/-- A write to another cell of the table comes to the same effects and registers. -/
theorem Store.written_put (s q : Store) (t : Table) (value v : Value) {row index r i : Nat}
    (apart : (row, index) ≠ (r, i)) :
    (q.written (t.put row index value) r i v).effects = (s.written t r i v).effects ∧
      (q.written (t.put row index value) r i v).touched = (s.written t r i v).touched := by
  have same : (t.put row index value).cell? r i = t.cell? r i := by
    rw [Table.cell_put, if_neg]
    rintro ⟨rfl, rfl⟩
    exact apart rfl
  simp only [written, same, Table.id_put, Table.specs_put, and_self]

/-- Which cell a change writes is a matter of the shape of the store alone. -/
theorem Change.cell?_congr {r : Store} (same : s.SameShape r) (change : Change) :
    change.cell? s = change.cell? r := by
  cases change with
  | set id row name value =>
    cases found : s.find? id with
    | none =>
      have gone := same id
      rw [found, Option.map_none, eq_comm, Option.map_eq_none_iff] at gone
      simp [Change.cell?, found, gone]
    | some t =>
      obtain ⟨u, there, specs, -⟩ := same.exists_table found
      simp [Change.cell?, found, there, Table.resolve?_congr specs]
  | append => rfl
  | define => rfl

/-- After the first of two changes the second comes to the same as before it, and the other way round. -/
def Swaps (s : Store) (change other : Change) (first second : Outcome) : Prop :=
  ∃ before after, other.apply s = .ok before ∧ change.apply before.store = .ok after ∧
    after.store = second.store ∧
    before.effects = second.effects ∧ before.touched = second.touched ∧
    after.effects = first.effects ∧ after.touched = first.touched

/-- Two writes to different cells of one table. -/
theorem swaps_of_same_table {t : Table} {row index r i : Nat} {name name' : ColumnRef}
    {value v : Value} (found : s.find? t.id = some t) (apart : (row, index) ≠ (r, i))
    (resolved : t.resolve? name = some index) (checked : t.checkWrite row index value = .ok ())
    (resolved' : t.resolve? name' = some i) (checked' : t.checkWrite r i v = .ok ()) :
    Swaps s (.set t.id row name value) (.set t.id r name' v) (s.written t row index value)
      ((s.put (t.put row index value)).written (t.put row index value) r i v) := by
  have back := Store.written_put s (s.put (t.put r i v)) t v value apart.symm
  have first := Store.written_put s (s.put (t.put row index value)) t value v apart
  refine ⟨s.written t r i v, _, Change.set_eq_ok_iff.mpr ⟨t, i, found, resolved', checked', rfl⟩,
    Change.set_eq_ok_iff.mpr ⟨t.put r i v, index, Store.find?_put_self Table.id_put, ?_,
      Table.checkWrite_put.mpr checked, rfl⟩, ?_, first.1.symm, first.2.symm, back⟩
  · rw [Table.resolve?_congr (Table.specs_put ..), resolved]
  · simp only [Store.written]
    rw [Store.put_put _ (by simp), Store.put_put _ (by simp), Table.put_comm t apart]

/-- Two writes to different tables. -/
theorem swaps_of_other_table {t u : Table} {row index r i : Nat} {name name' : ColumnRef}
    {value v : Value} (found : s.find? t.id = some t) (there : s.find? u.id = some u)
    (other : t.id ≠ u.id) (resolved : t.resolve? name = some index)
    (checked : t.checkWrite row index value = .ok ()) (resolved' : u.resolve? name' = some i)
    (checked' : u.checkWrite r i v = .ok ()) :
    Swaps s (.set t.id row name value) (.set u.id r name' v) (s.written t row index value)
      ((s.put (t.put row index value)).written u r i v) := by
  refine ⟨s.written u r i v, (s.put (u.put r i v)).written t row index value,
    Change.set_eq_ok_iff.mpr ⟨u, i, there, resolved', checked', rfl⟩,
    Change.set_eq_ok_iff.mpr ⟨t, index, ?_, resolved, checked, rfl⟩, ?_, rfl, rfl, rfl, rfl⟩
  · rw [Store.written, Store.find?_put, Table.id_put, if_neg (Ne.symm other), found]
  · exact s.put_comm (by simpa using other)

/-- Two writes to different cells come to the same in either order. -/
theorem swap_sets {first second : Outcome} (isSet : change.IsSet) (another : other.IsSet)
    (apart : change.cell? s ≠ other.cell? s) (one : change.apply s = .ok first)
    (two : other.apply first.store = .ok second) : Swaps s change other first second := by
  have shape := sameShape_of_set isSet one
  obtain ⟨id, row, name, value, rfl⟩ := isSet
  obtain ⟨id', r, name', v, rfl⟩ := another
  rw [Change.cell?_congr shape (.set id' r name' v)] at apart
  obtain ⟨t, index, found, resolved, checked, rfl⟩ := Change.set_eq_ok_iff.mp one
  obtain ⟨u, i, there, resolved', checked', rfl⟩ := Change.set_eq_ok_iff.mp two
  obtain rfl : t.id = id := Store.id_of_find? found
  have cells : (⟨t.id, row, index⟩ : CellAddress) ≠ ⟨id', r, i⟩ := by
    simpa [Change.cell?, found, resolved, there, resolved'] using apart
  obtain rfl : u.id = id' := Store.id_of_find? there
  have place := there
  rw [Store.written, Store.find?_put, Table.id_put] at place
  by_cases same : t.id = u.id
  · rw [if_pos same, Option.some.injEq] at place
    subst place
    have apart : (row, index) ≠ (r, i) := by
      rintro ⟨⟩
      exact cells (by rw [same])
    rw [Table.resolve?_congr (Table.specs_put ..)] at resolved'
    exact swaps_of_same_table found apart resolved checked resolved' (Table.checkWrite_put.mp checked')
  · rw [if_neg same] at place
    exact swaps_of_other_table found place same resolved checked resolved' checked'

/-! ## Writes in any order -/

theorem WriteApart.perm (apart : WriteApart s changes) (permuted : changes.Perm others) :
    WriteApart s others where
  sets change member := apart.sets change (permuted.mem_iff.mpr member)
  distinct := (permuted.filterMap _).nodup_iff.mp apart.distinct

/-- Once the first write is done, the others are still to cells that are all different. -/
theorem WriteApart.tail (apart : WriteApart s (change :: changes))
    (applied : change.apply s = .ok outcome) : WriteApart outcome.store changes where
  sets c member := apart.sets c (List.mem_cons_of_mem _ member)
  distinct := by
    have shape := sameShape_of_set (apart.sets change List.mem_cons_self) applied
    have same : Change.cell? outcome.store = Change.cell? s :=
      funext fun c => (Change.cell?_congr shape c).symm
    rw [same]
    exact apart.distinct.sublist ((List.sublist_cons_self change changes).filterMap _)

/-- What is written after the first write is written elsewhere. -/
theorem WriteApart.head_ne (apart : WriteApart s (change :: other :: changes))
    (one : change.apply s = .ok outcome) : change.cell? s ≠ other.cell? s := by
  obtain ⟨id, row, name, value, rfl⟩ := apart.sets change List.mem_cons_self
  obtain ⟨t, index, found, resolved, -, -⟩ := Change.set_eq_ok_iff.mp one
  have here : (Change.set id row name value).cell? s = some ⟨id, row, index⟩ := by
    simp [Change.cell?, found, resolved]
  intro same
  have distinct := apart.distinct
  rw [List.filterMap_cons_some here, List.filterMap_cons_some (same ▸ here)] at distinct
  exact List.not_nodup_cons_of_mem List.mem_cons_self distinct

theorem Reordered.refl (a : Run × List Register) : Reordered a a :=
  ⟨rfl, .refl _, rfl, rfl, .refl _⟩

theorem Reordered.trans {a b c : Run × List Register} (first : Reordered a b)
    (second : Reordered b c) : Reordered a c where
  store := first.store.trans second.store
  effects := first.effects.trans second.effects
  rounds := first.rounds.trans second.rounds
  fired := first.fired.trans second.fired
  touched := first.touched.trans second.touched

/-- The same outcome after transactions that came to the same. -/
theorem Reordered.adopt {run run' : Run} {listed listed' : List Register}
    (same : Reordered (run, listed) (run', listed')) (outcome : Outcome) :
    Reordered (run.adopt outcome, listed ++ outcome.touched)
      (run'.adopt outcome, listed' ++ outcome.touched) where
  store := rfl
  effects := same.effects.append_right _
  rounds := same.rounds
  fired := same.fired
  touched := same.touched.append_right _

theorem submit_cons_eq_ok_iff {run : Run} {listed : List Register} {index : Nat}
    {after : Run × List Register} :
    Propagator.submit run listed index (change :: changes) = .ok after ↔
      ∃ outcome, change.apply run.store = .ok outcome ∧
        Propagator.submit (run.adopt outcome) (listed ++ outcome.touched) (index + 1) changes =
          .ok after := by
  rw [Propagator.submit]
  cases change.apply run.store <;> simp

/-- The same changes after transactions that came to the same. -/
theorem Reordered.submit {run run' : Run} {listed listed' : List Register} {after : Run × List Register}
    (same : Reordered (run, listed) (run', listed')) {index : Nat} (index' : Nat)
    (done : Propagator.submit run listed index changes = .ok after) :
    ∃ after', Propagator.submit run' listed' index' changes = .ok after' ∧ Reordered after after' := by
  induction changes generalizing run run' listed listed' index index' with
  | nil =>
    cases done
    exact ⟨_, rfl, same⟩
  | cons change rest ih =>
    obtain ⟨outcome, applied, others⟩ := submit_cons_eq_ok_iff.mp done
    obtain ⟨after', submitted, reordered⟩ := ih (same.adopt outcome) (index' + 1) others
    have stored : run.store = run'.store := same.store
    exact ⟨after', submit_cons_eq_ok_iff.mpr ⟨outcome, stored ▸ applied, submitted⟩, reordered⟩

/-- Writes to cells that are all different come to the same in any order. The index at which a refusal
would be reported goes its own way in either order. -/
theorem submit_reordered (permuted : changes.Perm others) {run : Run} {listed : List Register}
    {index : Nat} (index' : Nat) {after : Run × List Register} (apart : WriteApart run.store changes)
    (done : Propagator.submit run listed index changes = .ok after) :
    ∃ after', Propagator.submit run listed index' others = .ok after' ∧ Reordered after after' := by
  induction permuted generalizing run listed index index' after with
  | nil => exact ⟨_, done, .refl _⟩
  | cons change permuted ih =>
    obtain ⟨outcome, applied, rest⟩ := submit_cons_eq_ok_iff.mp done
    obtain ⟨after', submitted, reordered⟩ := ih (index' + 1) (apart.tail applied) rest
    exact ⟨after', submit_cons_eq_ok_iff.mpr ⟨outcome, applied, submitted⟩, reordered⟩
  | swap other change rest =>
    obtain ⟨first, one, later⟩ := submit_cons_eq_ok_iff.mp done
    obtain ⟨second, two, later⟩ := submit_cons_eq_ok_iff.mp later
    obtain ⟨before, after', swapped, again, store, effects, touched, effects', touched'⟩ :=
      swap_sets (apart.sets change (by simp)) (apart.sets other (by simp)) (apart.head_ne one) one two
    have same : Reordered
        ((run.adopt first).adopt second, listed ++ first.touched ++ second.touched)
        ((run.adopt before).adopt after', listed ++ before.touched ++ after'.touched) := by
      refine ⟨store.symm, ?_, rfl, rfl, ?_⟩
      · simp only [Run.adopt, effects, effects', List.append_assoc]
        exact List.perm_append_comm.append_left _
      · simp only [touched, touched', List.append_assoc]
        exact List.perm_append_comm.append_left _
    obtain ⟨last, submitted, reordered⟩ := same.submit (index' + 1 + 1) later
    exact ⟨last, submit_cons_eq_ok_iff.mpr ⟨before, swapped, submit_cons_eq_ok_iff.mpr
      ⟨after', again, submitted⟩⟩, reordered⟩
  | trans first _ ihFirst ihSecond =>
    obtain ⟨middle, submitted, here⟩ := ihFirst index apart done
    obtain ⟨after', again, there⟩ := ihSecond index' (apart.perm first) submitted
    exact ⟨after', again, here.trans there⟩

/-- A change that is not accepted is rejected. -/
theorem submit_rejects {run : Run} {listed : List Register} {index : Nat} {failure : Failure}
    (failed : Propagator.submit run listed index changes = .error failure) :
    ∃ position reason, failure.fault = .rejected position reason := by
  induction changes generalizing run listed index with
  | nil => cases failed
  | cons change rest ih =>
    rw [Propagator.submit] at failed
    cases applied : change.apply run.store with
    | error reason =>
      rw [applied] at failed
      cases failed
      exact ⟨_, _, rfl⟩
    | ok outcome =>
      rw [applied] at failed
      exact ih failed

/-! ## Blocks after different pasts -/

section Pasts

variable {past before : List Effect} {a b : Run}

theorem SameSince.adopt (same : SameSince past before a b) (outcome : Outcome) :
    SameSince past before (a.adopt outcome) (b.adopt outcome) where
  store := rfl
  effects := by
    obtain ⟨since, here, there⟩ := same.effects
    exact ⟨since ++ outcome.effects, by simp [Run.adopt, here], by simp [Run.adopt, there]⟩
  rounds := same.rounds
  fired := same.fired

theorem applyAll_alike (same : SameSince past before a b) (block : String) (listed : List Register)
    (changes : List Change) :
    Alike (fun x y => SameSince past before x.1 y.1 ∧ x.2 = y.2)
      (a.applyAll block listed changes) (b.applyAll block listed changes) := by
  induction changes generalizing a b listed with
  | nil => exact .ok ⟨same, rfl⟩
  | cons change rest ih =>
    rw [Run.applyAll, Run.applyAll, same.store]
    cases change.apply b.store with
    | error reason => exact .error rfl
    | ok outcome => exact ih (same.adopt outcome) _

theorem fire_alike (same : SameSince past before a b) (block : Block) :
    Alike (fun x y => SameSince past before x.1 y.1 ∧ x.2 = y.2) (a.fire block) (b.fire block) := by
  have named : SameSince past before { a with fired := a.fired ++ [block.name] }
      { b with fired := b.fired ++ [block.name] } :=
    ⟨same.store, same.effects, same.rounds, by simp [same.fired]⟩
  unfold Run.fire
  simp only [same.store]
  cases block.routine b.store with
  | error message => exact .error rfl
  | ok changes => exact same.store ▸ applyAll_alike named block.name [] changes

theorem RoundsAlike.schedule {g : Graph} {first second : Round} {run run' : Run}
    (alike : RoundsAlike past before first second) (same : SameSince past before run run')
    (index : Nat) (touched : List Register) :
    RoundsAlike past before (g.schedule index touched { first with run })
      (g.schedule index touched { second with run := run' }) where
  run := same
  due i := by simp only [mem_ahead_iff, alike.due]
  later i := by simp only [mem_behind_iff, alike.later]

theorem sweep_alike (g : Graph) (blocks : List (Nat × Block)) {first second : Round}
    (alike : RoundsAlike past before first second) :
    Alike (RoundsAlike past before) (g.sweep first blocks) (g.sweep second blocks) := by
  induction blocks generalizing first second with
  | nil => exact .ok alike
  | cons head rest ih =>
    rw [Graph.sweep, Graph.sweep]
    simp only [alike.due]
    split
    · have fired := fire_alike alike.run head.2
      generalize first.run.fire head.2 = here at fired ⊢
      generalize second.run.fire head.2 = there at fired ⊢
      cases fired with
      | error same => exact .error same
      | @ok x y same =>
        obtain ⟨run, touched⟩ := x
        obtain ⟨run', touched'⟩ := y
        obtain ⟨same, rfl⟩ := same
        exact ih (alike.schedule same head.1 touched)
    · exact ih alike

/-- Which blocks are due, not how often or in which order they are listed, and what the store is, not
what was done before, decides how the blocks go on. -/
theorem settle_alike (g : Graph) (cap : Nat) {left : Nat} {due queue : List Nat}
    (watching : ∀ i, i ∈ due ↔ i ∈ queue) (same : SameSince past before a b) :
    Alike (SameSince past before) (g.settle cap left due a) (g.settle cap left queue b) := by
  induction left generalizing due queue a b with
  | zero =>
    rw [Graph.settle, Graph.settle]
    simp only [List.isEmpty_iff, List.eq_nil_iff_forall_not_mem, watching]
    split
    · exact .ok same
    · exact .error rfl
  | succ left ih =>
    rw [Graph.settle, Graph.settle]
    simp only [List.isEmpty_iff, List.eq_nil_iff_forall_not_mem, watching]
    split
    · exact .ok same
    · have begun : RoundsAlike past before ⟨{ a with rounds := a.rounds + 1 }, due, []⟩
          ⟨{ b with rounds := b.rounds + 1 }, queue, []⟩ :=
        ⟨⟨same.store, same.effects, congrArg (· + 1) same.rounds, same.fired⟩, watching, fun _ => .rfl⟩
      have swept := sweep_alike g g.ordered begun
      generalize g.sweep ⟨{ a with rounds := a.rounds + 1 }, due, []⟩ g.ordered = here at swept ⊢
      generalize g.sweep ⟨{ b with rounds := b.rounds + 1 }, queue, []⟩ g.ordered = there at swept ⊢
      cases swept with
      | error same => exact .error same
      | ok alike => exact ih alike.later alike.run

end Pasts

/-! ## Transactions -/

/-- Transactions of the same writes in another order. Either both are rejected, or the writes are done
on both sides and the blocks go on alike. -/
theorem transact_reordered (p : Propagator) (g : Graph) (permuted : changes.Perm others)
    (apart : WriteApart s changes) :
    (∃ failure failure', p.transact g s changes = .error failure ∧
      p.transact g s others = .error failure' ∧
      (∃ index reason, failure.fault = .rejected index reason) ∧
      ∃ index reason, failure'.fault = .rejected index reason) ∨
    ∃ first second, Propagator.submit (.start s) [] 0 changes = .ok first ∧
      Propagator.submit (.start s) [] 0 others = .ok second ∧ Reordered first second ∧
      Alike (SameSince first.1.effects second.1.effects) (p.transact g s changes)
        (p.transact g s others) := by
  unfold Propagator.transact
  cases done : Propagator.submit (.start s) [] 0 changes with
  | error failure =>
    refine .inl ?_
    cases done' : Propagator.submit (.start s) [] 0 others with
    | error failure' => exact ⟨_, _, rfl, rfl, submit_rejects done, submit_rejects done'⟩
    | ok second =>
      obtain ⟨first, again, -⟩ := submit_reordered permuted.symm 0 (apart.perm permuted) done'
      cases done.symm.trans again
  | ok first =>
    obtain ⟨second, done', same⟩ := submit_reordered permuted 0 apart done
    refine .inr ⟨first, second, rfl, done', same, ?_⟩
    rw [done']
    refine settle_alike g p.cap ?_ ⟨same.store, ⟨[], by simp, by simp⟩, same.rounds, same.fired⟩
    intro i
    exact (same.touched.flatMap_right g.watchers).mem_iff

/-- Entries of the same writes, submitted in one order and in another: the effects of the writes are in
another order too, and everything else, with what the blocks did, is the same. -/
structure Entry.SameCascade (s : Store) (changes others : List Change) (entry entry' : Entry) :
    Prop where
  seq : entry.seq = entry'.seq
  submitted : entry.submitted = entry'.submitted
  rounds : entry.rounds = entry'.rounds
  fired : entry.fired = entry'.fired
  effects : ∃ first second cascaded, Propagator.submit (.start s) [] 0 changes = .ok first ∧
    Propagator.submit (.start s) [] 0 others = .ok second ∧ first.1.effects.Perm second.1.effects ∧
    entry.effects = first.1.effects ++ cascaded ∧ entry'.effects = second.1.effects ++ cascaded

theorem commit_reordered (p : Propagator) (g : Graph) (permuted : changes.Perm others)
    (apart : WriteApart s changes) {r : Store} {entry : Entry}
    (done : p.commit g s changes = (r, .ok entry)) :
    ∃ entry', p.commit g s others = (r, .ok entry') ∧ entry.SameCascade s changes others entry' := by
  have nonempty : changes ≠ [] := (commit_eq_ok_iff.mp done).1
  have nonempty' : others ≠ [] := fun none => nonempty (none ▸ permuted).eq_nil
  rw [p.commit_eq_conclude g s nonempty] at done
  rw [p.commit_eq_conclude g s nonempty']
  obtain ⟨run, concluded, rfl, rfl⟩ := conclude_eq_ok done
  rcases transact_reordered p g permuted apart with
    ⟨failure, -, failed, -⟩ | ⟨first, second, submitted, submitted', same, alike⟩
  · cases concluded.symm.trans failed
  · rw [concluded] at alike
    generalize p.transact g s others = result at alike ⊢
    cases alike with
    | @ok _ run' since =>
      obtain ⟨cascaded, here, there⟩ := since.effects
      exact ⟨run'.entry others.length, by rw [since.store]; rfl, rfl, permuted.length_eq, since.rounds,
        since.fired, first, second, cascaded, submitted, submitted', same.effects, here, there⟩

theorem commit_fault_reordered (p : Propagator) (g : Graph) (permuted : changes.Perm others)
    (apart : WriteApart s changes) {fault : Fault}
    (accepted : ∀ index reason, fault ≠ .rejected index reason)
    (failed : (p.commit g s changes).2 = .error fault) : (p.commit g s others).2 = .error fault := by
  by_cases none : changes = []
  · subst none
    obtain rfl := permuted.nil_eq
    exact failed
  · have none' : others ≠ [] := fun empty => none (empty ▸ permuted).eq_nil
    rw [p.commit_eq_conclude g s none] at failed
    rw [p.commit_eq_conclude g s none']
    rcases transact_reordered p g permuted apart with
      ⟨failure, -, stopped, -, ⟨index, reason, rejected⟩, -⟩ | ⟨_, _, -, -, -, alike⟩
    · rw [stopped] at failed
      cases failed
      exact absurd rejected (accepted index reason)
    · revert failed
      generalize p.transact g s changes = result at alike ⊢
      generalize p.transact g s others = result' at alike ⊢
      cases alike with
      | ok => rintro ⟨⟩
      | error same =>
        rintro ⟨⟩
        exact congrArg Except.error same.symm

/-- **The order of independent writes does not matter.** Writes to cells that are all different,
whichever way the cells are named, are committed in any order or in none. The store at the end, the
rounds, the blocks that ran and what they did are the same, and the effects of the writes are a
permutation. If the blocks fail, they fail in any order and for the same reason. -/
theorem order_of_writes_immaterial (p : Propagator) (g : Graph) (s : Store)
    {changes others : List Change} (permuted : changes.Perm others) (apart : WriteApart s changes) :
    ((∃ entry, (p.commit g s changes).2 = .ok entry) ↔
      ∃ entry, (p.commit g s others).2 = .ok entry) ∧
    (∀ entry entry', (p.commit g s changes).2 = .ok entry → (p.commit g s others).2 = .ok entry' →
      (p.commit g s changes).1 = (p.commit g s others).1 ∧
        entry.SameCascade s changes others entry') ∧
    ∀ fault, (∀ index reason, fault ≠ .rejected index reason) →
      ((p.commit g s changes).2 = .error fault ↔ (p.commit g s others).2 = .error fault) := by
  have apart' := apart.perm permuted
  refine ⟨⟨?_, ?_⟩, ?_, ?_⟩
  · rintro ⟨entry, done⟩
    obtain ⟨entry', again, -⟩ := commit_reordered p g permuted apart (Prod.ext rfl done)
    exact ⟨entry', congrArg Prod.snd again⟩
  · rintro ⟨entry, done⟩
    obtain ⟨entry', again, -⟩ := commit_reordered p g permuted.symm apart' (Prod.ext rfl done)
    exact ⟨entry', congrArg Prod.snd again⟩
  · intro entry entry' done done'
    obtain ⟨found, again, same⟩ := commit_reordered p g permuted apart (Prod.ext rfl done)
    rw [again] at done' ⊢
    obtain rfl := Except.ok.inj done'
    exact ⟨rfl, same⟩
  · intro fault accepted
    exact ⟨commit_fault_reordered p g permuted apart accepted,
      commit_fault_reordered p g permuted.symm apart' accepted⟩

/-- Two blocks that write what the other one watches. -/
def facing : List Block := [marking "there" [⟨3⟩] ⟨4⟩, marking "back" [⟨4⟩] ⟨3⟩]

/-- Three columns named in three ways, written from left to right and from right to left. -/
theorem order_of_writes_immaterial_facing :
    let g := Graph.ofBlocks facing
    let writes : List Change := [.set ⟨1⟩ 0 (.id ⟨1⟩) (.number .one),
      .set ⟨1⟩ 0 (.position 2) (.number .infinity), .set ⟨1⟩ 0 (.raw 3) (.number .one)]
    g.feedbackCount = 1 ∧ writes.Perm writes.reverse ∧ WriteApart fourCells writes ∧
      ∃ r entry entry', (Propagator.ofCap 4).commit g fourCells writes = (r, .ok entry) ∧
        (Propagator.ofCap 4).commit g fourCells writes.reverse = (r, .ok entry') ∧
        entry.fired = ["there", "back"] ∧ entry.effects ≠ entry'.effects ∧
        entry.SameCascade fourCells writes writes.reverse entry' := by
  intro g writes
  have permuted : writes.Perm writes.reverse := writes.reverse_perm.symm
  have apart : WriteApart fourCells writes := by
    refine ⟨?_, by decide⟩
    intro change member
    simp only [writes, List.mem_cons, List.not_mem_nil, or_false] at member
    obtain rfl | rfl | rfl := member
    all_goals exact ⟨_, _, _, _, rfl⟩
  have forth : ∃ r entry, (Propagator.ofCap 4).commit g fourCells writes = (r, .ok entry) ∧
      entry.fired = ["there", "back"] ∧ (entry.effects.take 1 =
        [.cell ⟨1⟩ 0 0 (some (.number .zero)) (.number .one)]) := by
    exact ⟨_, _, by cbv, rfl, rfl⟩
  have back : ∃ r entry, (Propagator.ofCap 4).commit g fourCells writes.reverse = (r, .ok entry) ∧
      (entry.effects.take 1 = [.cell ⟨1⟩ 0 2 (some (.number .zero)) (.number .one)]) := by
    exact ⟨_, _, by cbv, rfl⟩
  obtain ⟨r, entry, done, fired, first⟩ := forth
  obtain ⟨r', entry', done', first'⟩ := back
  obtain ⟨-, same, -⟩ := order_of_writes_immaterial (.ofCap 4) g fourCells permuted apart
  obtain ⟨stores, cascade⟩ := same entry entry' (by rw [done]) (by rw [done'])
  rw [done, done'] at stores
  obtain rfl : r = r' := stores
  refine ⟨by cbv, permuted, apart, r, entry, entry', done, done', fired, ?_, cascade⟩
  intro effects
  rw [effects, first'] at first
  exact absurd first (by decide)

end Ripple
