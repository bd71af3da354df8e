import Ripple.Proofs.Schedule
import Ripple.Proofs.StoreShape

/-!
Derived data stays consistent. A block derives if it computes the columns that it produces from those
that it watches and alters nothing else (`Block.Derives`), and a store is settled if no block would
alter it (`Settled`). A commit of writes to other columns leads from one settled store to another
(`settled_of_commit`): after its last run nothing that a block watches is touched any more, and nobody
else writes what it produces.
-/

namespace Ripple

/-! ## Blocks that derive -/

/-- Whether a write to the column can alter what the block produces. -/
def Block.produces (block : Block) (register : Register) : Bool :=
  block.produce.any register.overlaps

/-- The block computes what it produces from what it watches, and alters nothing else: on stores of
one shape with the same watched columns it fails on both or on neither, and the columns that it
produces are the same afterwards. -/
structure Block.Derives (b : Block) : Prop where
  sets : ∀ s changes, s.Sound → b.routine s = .ok changes → ∀ change ∈ changes, change.IsSet
  applies : ∀ s changes, s.Sound → b.routine s = .ok changes → ∃ r, carryOut s changes = .ok r
  others : ∀ s changes r, s.Sound → b.routine s = .ok changes → carryOut s changes = .ok r →
    s.AgreeOn (¬ b.produces ·) r
  succeeds : ∀ s r, s.Sound → r.Sound → s.SameShape r → s.AgreeOn (b.watches ·) r →
    ((∃ changes, b.routine s = .ok changes) ↔ ∃ changes, b.routine r = .ok changes)
  determined : ∀ s r changes changes' s' r', s.Sound → r.Sound → s.SameShape r →
    s.AgreeOn (b.watches ·) r → b.routine s = .ok changes → b.routine r = .ok changes' →
    carryOut s changes = .ok s' → carryOut r changes' = .ok r' → s'.AgreeOn (b.produces ·) r'

/-- The block writes cells only and alters nothing but what it produces. -/
structure Block.KeepsTo (b : Block) : Prop where
  sets : ∀ s changes, s.Sound → b.routine s = .ok changes → ∀ change ∈ changes, change.IsSet
  others : ∀ s changes r, s.Sound → b.routine s = .ok changes → carryOut s changes = .ok r →
    s.AgreeOn (¬ b.produces ·) r

/-- No block would alter the store. -/
def Settled (blocks : List Block) (s : Store) : Prop :=
  ∀ b ∈ blocks, ∃ changes, b.routine s = .ok changes ∧ carryOut s changes = .ok s

/-- No two blocks produce the same column. -/
def ProduceApart (blocks : List Block) : Prop :=
  blocks.Pairwise fun a b => ∀ p ∈ a.produce, ∀ q ∈ b.produce, ¬ p.overlaps q

variable {s r : Store} {change : Change} {changes : List Change} {outcome : Outcome}
  {columns : Register → Prop}
  {blocks : List Block} {b : Block} {before after : Store} {firings : List Firing} {i : Nat}

/-- What a block did on one store it would do again on a store that agrees in what it watches; if the
results are there already, it would alter nothing. -/
theorem Block.Derives.repeats (derives : b.Derives) {changes : List Change}
    (soundBefore : before.Sound) (soundR : r.Sound) (same : before.SameShape r)
    (watched : before.AgreeOn (b.watches ·) r) (asked : b.routine before = .ok changes)
    (carried : carryOut before changes = .ok after) (produced : after.AgreeOn (b.produces ·) r) :
    ∃ changes, b.routine r = .ok changes ∧ carryOut r changes = .ok r := by
  obtain ⟨changes', again⟩ :=
    (derives.succeeds _ _ soundBefore soundR same watched).mp ⟨changes, asked⟩
  obtain ⟨q, carried'⟩ := derives.applies _ _ soundR again
  obtain ⟨-, sameAfter, -⟩ :=
    carryOut_sets soundBefore (derives.sets _ _ soundBefore asked) carried
  obtain ⟨soundQ, sameQ, -⟩ := carryOut_sets soundR (derives.sets _ _ soundR again) carried'
  have shape : after.SameShape r := sameAfter.symm.trans same
  have results : after.AgreeOn (b.produces ·) q :=
    derives.determined _ _ _ _ _ _ soundBefore soundR same watched asked again carried carried'
  have inside : r.AgreeOn (b.produces ·) q := (produced.symm shape).trans shape.symm results
  have outside := derives.others _ _ _ soundR again carried'
  obtain rfl : r = q := by
    refine Store.eq_of_agreeOn soundR soundQ sameQ ?_
    intro id index key row declared _
    by_cases own : b.produces ⟨id, some key⟩
    · exact inside id index key row declared own
    · exact outside id index key row declared own
  exact ⟨changes', again, carried'⟩

theorem Block.Derives.keepsTo (derives : b.Derives) : b.KeepsTo := ⟨derives.sets, derives.others⟩

/-! ## Runs of blocks that keep to what they produce -/

/-- A firing of such a block keeps the shape of the store, and alters no column but those that
it touches and no column that the block does not produce. -/
structure Firing.Quiet (blocks : List Block) (f : Firing) : Prop where
  sound : f.after.Sound
  shape : f.before.SameShape f.after
  untouched : ∀ columns : Register → Prop, (∀ q, f.Touches blocks q → ¬ columns q) →
    f.before.AgreeOn columns f.after
  foreign : ∀ b, blocks[f.block]? = some b → f.before.AgreeOn (¬ b.produces ·) f.after

theorem Firing.Genuine.quiet {f : Firing} (genuine : f.Genuine blocks)
    (keeps : ∀ b ∈ blocks, b.KeepsTo) (sound : f.before.Sound) : f.Quiet blocks := by
  obtain ⟨changes, ⟨b, there, asked⟩, carried⟩ := genuine
  have own := keeps b (List.mem_of_getElem? there)
  obtain ⟨after, shape, agree⟩ := carryOut_sets sound (own.sets _ _ sound asked) carried
  refine ⟨after, shape, ?_, ?_⟩
  · intro columns untouched
    exact agree columns fun q touched => untouched q ⟨changes, ⟨b, there, asked⟩, touched⟩
  · intro b' same
    obtain rfl := Option.some.inj (there.symm.trans same)
    exact own.others _ _ _ sound asked carried

/-- What every firing of a chain leaves alone is the same at its end. -/
theorem Chained.agree (columns : Register → Prop) (chained : Chained s firings r)
    (genuine : ∀ f ∈ firings, f.Genuine blocks) (keeps : ∀ b ∈ blocks, b.KeepsTo) (sound : s.Sound)
    (kept : ∀ f ∈ firings, f.Quiet blocks → f.before.AgreeOn columns f.after) :
    r.Sound ∧ s.SameShape r ∧ s.AgreeOn columns r := by
  induction chained with
  | nil s => exact ⟨sound, .refl s, .refl columns s⟩
  | @cons f rest r chained ih =>
    have quiet := (genuine f List.mem_cons_self).quiet keeps sound
    obtain ⟨last, shape, agree⟩ := ih (fun g member => genuine g (List.mem_cons_of_mem _ member))
      quiet.sound fun g member => kept g (List.mem_cons_of_mem _ member)
    have first := kept f List.mem_cons_self quiet
    exact ⟨last, quiet.shape.trans shape, first.trans quiet.shape agree⟩

/-- What a block watches stays the same as long as it is not woken. -/
theorem agree_of_asleep {f : Firing} (quiet : f.Quiet blocks) (there : blocks[i]? = some b)
    (asleep : ¬ f.Wakes blocks i) : f.before.AgreeOn (b.watches ·) f.after :=
  quiet.untouched _ fun q touched watches => asleep ⟨b, q, there, touched, watches⟩

theorem not_produces_of_apart (apart : ProduceApart blocks) {j : Nat} {c : Block}
    (other : j ≠ i) (there : blocks[i]? = some b) (here : blocks[j]? = some c) {id key : Ident}
    (produced : b.produces ⟨id, some key⟩) : ¬ c.produces ⟨id, some key⟩ := by
  simp only [Block.produces, List.any_eq_true] at produced ⊢
  rintro ⟨q, inC, seenC⟩
  obtain ⟨p, inB, seenB⟩ := produced
  -- Both registers hold the same column, so that they overlap.
  have overlap : p.overlaps q := by
    rw [overlaps_iff] at seenB seenC ⊢
    grind
  have apart := List.pairwise_iff_getElem.mp apart
  obtain ⟨insideI, rfl⟩ := List.getElem?_eq_some_iff.mp there
  obtain ⟨insideJ, rfl⟩ := List.getElem?_eq_some_iff.mp here
  rcases Nat.lt_or_gt_of_ne other with earlier | later
  · exact apart j i insideJ insideI earlier q inC p inB (overlaps_symm overlap)
  · exact apart i j insideI insideJ later p inB q inC overlap

/-- What a block produces stays the same as long as only others fire. -/
theorem agree_of_others {f : Firing} (quiet : f.Quiet blocks) (genuine : f.Genuine blocks)
    (apart : ProduceApart blocks) (there : blocks[i]? = some b) (other : f.block ≠ i) :
    f.before.AgreeOn (b.produces ·) f.after := by
  obtain ⟨-, ⟨c, here, -⟩, -⟩ := genuine
  intro id index key row declared produced
  exact quiet.foreign c here id index key row declared
    (not_produces_of_apart apart other there here produced)

/-- Since its last firing, what a block watches was not altered, and what it produces not by others. -/
theorem Chained.since_last {f : Firing} {earlier later : List Firing} (apart : ProduceApart blocks)
    (keeps : ∀ b ∈ blocks, b.KeepsTo) (sound : s.Sound)
    (chained : Chained s (earlier ++ f :: later) r)
    (genuine : ∀ f' ∈ earlier ++ f :: later, f'.Genuine blocks) (there : blocks[f.block]? = some b)
    (last : ∀ f' ∈ later, f'.block ≠ f.block)
    (alone : ∀ f' ∈ f :: later, ¬ f'.Wakes blocks f.block) :
    f.before.Sound ∧ f.before.SameShape r ∧ f.before.AgreeOn (b.watches ·) r ∧
      f.after.AgreeOn (b.produces ·) r := by
  obtain ⟨before, after⟩ := chained.split
  have genuineBefore : ∀ f' ∈ earlier, f'.Genuine blocks :=
    fun f' here => genuine f' (List.mem_append_left _ here)
  have genuine : ∀ f' ∈ f :: later, f'.Genuine blocks :=
    fun f' here => genuine f' (List.mem_append_right _ here)
  have genuineAfter : ∀ f' ∈ later, f'.Genuine blocks :=
    fun f' here => genuine f' (List.mem_cons_of_mem _ here)
  obtain ⟨soundBefore, -, -⟩ := before.agree (fun _ => False) genuineBefore keeps sound
    (fun _ _ _ _ _ _ _ _ none => none.elim)
  have quiet := (genuine f List.mem_cons_self).quiet keeps soundBefore
  obtain ⟨-, shape, watched⟩ := Chained.agree (b.watches ·) (.cons after) genuine
    keeps soundBefore fun f' here quiet => agree_of_asleep quiet there (alone f' here)
  obtain ⟨-, -, produced⟩ := after.agree (b.produces ·) genuineAfter
    keeps quiet.sound fun f' here quiet =>
      agree_of_others quiet (genuineAfter f' here) apart there (last f' here)
  exact ⟨soundBefore, shape, watched, produced⟩

/-- A block that fires fires for a last time. -/
theorem exists_last (fires : ∃ f ∈ firings, f.block = i) :
    ∃ earlier f later, firings = earlier ++ f :: later ∧ f.block = i ∧
      ∀ g ∈ later, g.block ≠ i := by
  induction firings with
  | nil =>
    obtain ⟨f, none, -⟩ := fires
    cases none
  | cons g rest ih =>
    by_cases again : ∃ f ∈ rest, f.block = i
    · obtain ⟨earlier, f, later, split, own, last⟩ := ih again
      exact ⟨g :: earlier, f, later, by rw [split]; rfl, own, last⟩
    · obtain ⟨f, member, own⟩ := fires
      rcases List.mem_cons.mp member with rfl | member
      · exact ⟨[], f, rest, rfl, own, fun g' there same => again ⟨g', there, same⟩⟩
      · exact absurd ⟨f, member, own⟩ again

/-! ## Commits -/

/-- The change writes a cell of a column that no block produces. -/
def Change.IsInput (blocks : List Block) (s : Store) (change : Change) : Prop :=
  ∃ id row name value, change = .set id row name value ∧
    ∀ t index key, s.find? id = some t → t.resolve? name = some index →
      s.columnKey? id index = some key → ∀ b ∈ blocks, ¬ b.produces ⟨id, some key⟩

theorem Change.IsInput.within (input : change.IsInput blocks s) :
    change.Within (fun q => ∀ b ∈ blocks, ¬ b.produces q) s := input

/-- Inputs touch no column that a block produces. -/
theorem not_produces_of_touched (inputs : ∀ change ∈ changes, change.IsInput blocks s) {q : Register}
    (touched : TouchedBy s changes q) (member : b ∈ blocks) : ¬ b.produces q :=
  (columns_of_touched (fun change inside => (inputs change inside).within) touched).1 b member

section

variable {g : Graph} {first : Store} {due : Nat → Prop} {entry : Entry} {rounds : List (List Firing)}

/-- A block that fires in a transaction fires for a last time, and from then on nothing wakes it. -/
theorem Scheduled.exists_last (scheduled : Scheduled g due first r entry rounds)
    (fires : ∃ f ∈ rounds.flatten, f.block = i) :
    ∃ earlier f later, rounds.flatten = earlier ++ f :: later ∧ f.block = i ∧
      (∀ f' ∈ later, f'.block ≠ i) ∧ ∀ f' ∈ f :: later, ¬ f'.Wakes g.blocks i := by
  obtain ⟨earlier, f, later, split, own, last⟩ := Ripple.exists_last fires
  refine ⟨earlier, f, later, split, own, last, ?_⟩
  intro f' here wakes
  obtain ⟨between, rest, cut⟩ := List.append_of_mem here
  have whole : rounds.flatten = (earlier ++ between) ++ f' :: rest := by
    rw [split, cut, List.append_assoc]
  obtain ⟨again, after, same⟩ := scheduled.woken_fires _ f' rest whole i wakes
  -- What fires after a firing of `f :: later` fires in `later`.
  have inLater : again ∈ later := by
    cases between with
    | nil =>
      cases cut
      exact after
    | cons _ between =>
      cases cut
      simp [after]
  exact last again inLater same

/-- A block that does not fire was neither due nor woken. -/
theorem Scheduled.idle (scheduled : Scheduled g due first r entry rounds)
    (never : ¬ ∃ f ∈ rounds.flatten, f.block = i) :
    ¬ due i ∧ ∀ f ∈ rounds.flatten, ¬ f.Wakes g.blocks i := by
  refine ⟨fun here => never (scheduled.due_fires i here), ?_⟩
  intro f member wakes
  obtain ⟨earlier, later, cut⟩ := List.append_of_mem member
  obtain ⟨again, after, same⟩ := scheduled.woken_fires earlier f later cut i wakes
  exact never ⟨again, by simp [cut, after], same⟩

/-- A block that fired would alter nothing at the end: since its last firing nothing that it watches
was touched, and nobody else wrote what it produces. -/
theorem repeats_of_fired (apart : ProduceApart blocks) (derives : ∀ b ∈ blocks, b.Derives)
    (sound : first.Sound) (scheduled : Scheduled (.ofBlocks blocks) due first r entry rounds)
    (there : blocks[i]? = some b) (fires : ∃ f ∈ rounds.flatten, f.block = i) :
    ∃ changes, b.routine r = .ok changes ∧ carryOut r changes = .ok r := by
  have keeps : ∀ b ∈ blocks, b.KeepsTo := fun b member => (derives b member).keepsTo
  obtain ⟨chained, genuine⟩ := scheduled.sequence.chained
  obtain ⟨earlier, f, later, split, rfl, last, alone⟩ := scheduled.exists_last fires
  rw [split] at chained genuine
  obtain ⟨soundBefore, shape, watched, produced⟩ :=
    chained.since_last apart keeps sound genuine there last alone
  have soundR := (chained.agree (fun _ => False) genuine keeps sound
    (fun _ _ _ _ _ _ _ _ none => none.elim)).1
  obtain ⟨changes, ⟨b', same, asked⟩, carried⟩ :=
    genuine f (List.mem_append_right _ List.mem_cons_self)
  obtain rfl := Option.some.inj (there.symm.trans same)
  exact (derives b (List.mem_of_getElem? there)).repeats soundBefore soundR shape watched asked
    carried produced

/-- A block that did not fire would alter nothing at the end if it would have altered nothing before:
neither the inputs nor the firings touched what it watches or wrote what it produces. -/
theorem repeats_of_idle (apart : ProduceApart blocks) (derives : ∀ b ∈ blocks, b.Derives)
    (sound : s.Sound) (inputs : ∀ change ∈ changes, change.IsInput blocks s)
    (carried : carryOut s changes = .ok first)
    (scheduled : Scheduled (.ofBlocks blocks)
      (fun i => ∃ b q, blocks[i]? = some b ∧ TouchedBy s changes q ∧ b.watches q)
      first r entry rounds)
    (there : blocks[i]? = some b) (never : ¬ ∃ f ∈ rounds.flatten, f.block = i)
    (settled : ∃ changes, b.routine s = .ok changes ∧ carryOut s changes = .ok s) :
    ∃ changes, b.routine r = .ok changes ∧ carryOut r changes = .ok r := by
  have member := List.mem_of_getElem? there
  have keeps : ∀ b ∈ blocks, b.KeepsTo := fun b member => (derives b member).keepsTo
  obtain ⟨chained, genuine⟩ := scheduled.sequence.chained
  obtain ⟨idle, asleep⟩ := scheduled.idle never
  have sets : ∀ change ∈ changes, change.IsSet := fun change inside => (inputs change inside).within.isSet
  obtain ⟨soundFirst, shapeFirst, agreeFirst⟩ := carryOut_sets sound sets carried
  have watchedFirst : s.AgreeOn (b.watches ·) first := agreeFirst _ fun q touched watches =>
    idle ⟨b, q, there, touched, watches⟩
  have producedFirst : s.AgreeOn (b.produces ·) first := agreeFirst _ fun q touched =>
    not_produces_of_touched inputs touched member
  obtain ⟨soundR, shape, watched⟩ := chained.agree (b.watches ·) genuine
    keeps soundFirst fun f here quiet => agree_of_asleep quiet there (asleep f here)
  obtain ⟨-, -, produced⟩ := chained.agree (b.produces ·) genuine
    keeps soundFirst fun f here quiet =>
      agree_of_others quiet (genuine f here) apart there fun own => never ⟨f, here, own⟩
  obtain ⟨asked, routine, ran⟩ := settled
  exact (derives b member).repeats sound soundR (shapeFirst.trans shape)
    (watchedFirst.trans shapeFirst watched) routine ran (producedFirst.trans shapeFirst produced)

end

/-- **Commits keep derived data consistent.** Let the blocks produce different columns, each computed
from what the block watches, and let the store be settled. However often the blocks watch each other or
themselves: where a commit of writes to columns that no block produces succeeds, the store is settled
again. -/
theorem settled_of_commit {p : Propagator} {entry : Entry} (sound : s.Sound)
    (apart : ProduceApart blocks) (derives : ∀ b ∈ blocks, b.Derives) (settled : Settled blocks s)
    (inputs : ∀ change ∈ changes, change.IsInput blocks s)
    (done : p.commit (.ofBlocks blocks) s changes = (r, .ok entry)) : Settled blocks r := by
  obtain ⟨first, rounds, carried, scheduled⟩ := scheduled_of_commit done
  have sets : ∀ change ∈ changes, change.IsSet := fun change inside => (inputs change inside).within.isSet
  have soundFirst := (carryOut_sets sound sets carried).1
  intro b member
  obtain ⟨i, there⟩ := List.getElem?_of_mem member
  by_cases fires : ∃ f ∈ rounds.flatten, f.block = i
  · exact repeats_of_fired apart derives soundFirst scheduled there fires
  · exact repeats_of_idle apart derives sound inputs carried scheduled there fires (settled b member)

/-! ## Blocks that copy a number -/

/-- A table with one number. -/
def numberTable (id : Ident) (n : Number) : Table :=
  ⟨id, "n", [⟨⟨"a", ⟨0⟩, .number⟩, [.number n]⟩], 1⟩

/-- Whether an identifier leads to a table with one number. -/
def Store.holdsNumber (s : Store) (id : Ident) : Bool :=
  (s.find? id).map Table.shape = some ("n", [⟨"a", ⟨0⟩, .number⟩], 1)

/-- A block that copies the number of one table to another and answers to both. -/
def copying (source target : Ident) : Block where
  name := "copy"
  activation := .onWatch
  watch := [.any source, .any target]
  produce := [.any target]
  routine s :=
    if s.holdsNumber source ∧ s.holdsNumber target then
      .ok ((s.cell? source 0 0).toList.map (.set target 0 (.position 1) ·))
    else .error "no number"

theorem find?_of_holdsNumber {id : Ident} (sound : s.Sound) (holds : s.holdsNumber id) :
    ∃ n, s.find? id = some (numberTable id n) := by
  obtain ⟨t, found, shape⟩ := Option.map_eq_some_iff.mp (of_decide_eq_true holds)
  obtain ⟨own, name, columns, count⟩ := t
  simp only [Table.shape, Table.specs, Prod.mk.injEq] at shape
  obtain ⟨rfl, specs, rfl⟩ := shape
  obtain ⟨c, rfl, spec⟩ := List.map_eq_singleton_iff.mp specs
  have fits := sound.regular_of_find? found c List.mem_cons_self
  obtain ⟨v, cells⟩ := List.length_eq_one_iff.mp fits.length_eq
  have kind := fits.kind_eq v (by simp [cells])
  obtain ⟨spec', cells'⟩ := c
  subst spec cells
  obtain rfl : own = id := Store.id_of_find? found
  cases v with
  | number n => exact ⟨n, found⟩
  | _ => cases kind

variable {source target : Ident} {n m : Number}

/-- The block asks for the number of the source in the target, and then it is there. -/
theorem copying_runs (sound : s.Sound) (here : s.find? source = some (numberTable source n))
    (there : s.find? target = some (numberTable target m)) :
    (copying source target).routine s = .ok [.set target 0 (.position 1) (.number n)] ∧
      carryOut s [.set target 0 (.position 1) (.number n)] =
        .ok (s.put (numberTable target n)) := by
  constructor
  · simp [copying, Store.holdsNumber, Store.cell?, here, there, Table.shape, Table.specs,
      Table.cell?, numberTable]
  · have resolved : (numberTable target m).resolve? (.position 1) = some 0 := rfl
    have checked : (numberTable target m).checkWrite 0 0 (.number n) = .ok () := rfl
    have held : (numberTable target m).cell? 0 0 = some (.number m) := rfl
    by_cases same : m = n
    · subst same
      have leads : Change.Leads s (.set target 0 (.position 1) (.number m)) ⟨s, [], []⟩ :=
        .kept there resolved checked held
      simp only [carryOut, (Change.apply_eq_ok_iff sound _).mpr leads, bind, Except.bind]
      rw [Store.put_of_find? sound.ascending there]
    · have leads := Change.Leads.written there resolved checked held
        (fun equal => same (Value.number.inj equal)) rfl
      simp only [carryOut, (Change.apply_eq_ok_iff sound _).mpr leads, bind, Except.bind]
      rfl

theorem copying_asks {changes : List Change} (sound : s.Sound)
    (asked : (copying source target).routine s = .ok changes) :
    ∃ n m, s.find? source = some (numberTable source n) ∧
      s.find? target = some (numberTable target m) ∧
      changes = [.set target 0 (.position 1) (.number n)] ∧
      carryOut s changes = .ok (s.put (numberTable target n)) := by
  have holds : s.holdsNumber source ∧ s.holdsNumber target := by
    by_contra no
    simp [copying, no] at asked
  obtain ⟨n, here⟩ := find?_of_holdsNumber sound holds.1
  obtain ⟨m, there⟩ := find?_of_holdsNumber sound holds.2
  obtain ⟨asks, ran⟩ := copying_runs sound here there
  cases asks.symm.trans asked
  exact ⟨n, m, here, there, rfl, ran⟩

theorem produces_copying_iff {id key : Ident} :
    (copying source target).produces ⟨id, some key⟩ ↔ id = target := by
  simp [Block.produces, copying, Register.overlaps, Register.any]

theorem derives_copying (source target : Ident) : (copying source target).Derives where
  sets s changes sound asked change member := by
    obtain ⟨n, m, -, -, rfl, -⟩ := copying_asks sound asked
    obtain rfl := List.mem_singleton.mp member
    exact ⟨_, _, _, _, rfl⟩
  applies s changes sound asked := by
    obtain ⟨n, m, -, -, -, ran⟩ := copying_asks sound asked
    exact ⟨_, ran⟩
  others s changes r sound asked carried := by
    obtain ⟨n, m, -, -, -, ran⟩ := copying_asks sound asked
    cases ran.symm.trans carried
    intro id index key row declared outside
    have other : target ≠ id := fun same => outside (produces_copying_iff.mpr same.symm)
    exact (Store.cell_put_other (u := numberTable target n) other).symm
  succeeds s r soundS soundR same agree := by
    have holds (id : Ident) : s.holdsNumber id = r.holdsNumber id := by
      rw [Store.holdsNumber, Store.holdsNumber, same id]
    simp only [copying, holds]
    split <;> simp
  determined s r changes changes' s' r' soundS soundR same agree askedS askedR carriedS carriedR := by
    obtain ⟨n, m, here, -, -, ranS⟩ := copying_asks soundS askedS
    obtain ⟨n', m', there, -, -, ranR⟩ := copying_asks soundR askedR
    cases ranS.symm.trans carriedS
    cases ranR.symm.trans carriedR
    have watched := agree source 0 ⟨0⟩ 0 (by simp [Store.columnKey?, here, numberTable, Table.specs])
      (by simp [copying, Block.watches, Register.overlaps, Register.any])
    have number : n = n' := by
      simpa [Store.cell_of_find? here, Store.cell_of_find? there, numberTable, Table.cell?]
        using watched
    subst number
    intro id index key row declared produced
    obtain rfl := produces_copying_iff.mp produced
    have own : (numberTable id n).id = id := rfl
    rw [Store.cell_put_self own, Store.cell_put_self own]

/-- A copy of what is there already alters nothing. -/
theorem copying_settled (sound : s.Sound) (here : s.find? source = some (numberTable source n))
    (there : s.find? target = some (numberTable target n)) :
    ∃ changes, (copying source target).routine s = .ok changes ∧ carryOut s changes = .ok s := by
  obtain ⟨asked, ran⟩ := copying_runs sound here there
  rw [Store.put_of_find? sound.ascending there] at ran
  exact ⟨_, asked, ran⟩

/-- Two copies in a row, the second one declared first. -/
def copies : List Block := [copying ⟨2⟩ ⟨3⟩, copying ⟨1⟩ ⟨2⟩]

/-- Three tables with numbers. -/
def threeNumbers (a b c : Number) : Store :=
  ⟨[numberTable ⟨1⟩ a, numberTable ⟨2⟩ b, numberTable ⟨3⟩ c]⟩

theorem sound_threeNumbers (a b c : Number) : (threeNumbers a b c).Sound where
  ascending := by simp [Store.Ascending, threeNumbers, numberTable]; decide
  regular t member := by
    obtain rfl | rfl | rfl : t = numberTable ⟨1⟩ a ∨ t = numberTable ⟨2⟩ b ∨
        t = numberTable ⟨3⟩ c := by simpa [threeNumbers] using member
    all_goals
      intro column inside
      obtain rfl := List.mem_singleton.mp inside
      exact ⟨rfl, by simp [Value.kind]⟩

/-- Each copy answers to what it writes itself, so that it takes two rounds until a new number is
settled in all tables. -/
theorem settled_of_commit_copies :
    (threeNumbers .zero .zero .zero).Sound ∧ ProduceApart copies ∧
      Settled copies (threeNumbers .zero .zero .zero) ∧
      ∃ entry, (Propagator.ofCap 4).commit (.ofBlocks copies) (threeNumbers .zero .zero .zero)
          [.set ⟨1⟩ 0 (.position 1) (.number .one)] =
            (threeNumbers .one .one .one, .ok entry) ∧
        entry.rounds = 2 ∧ Settled copies (threeNumbers .one .one .one) := by
  have sound := sound_threeNumbers .zero .zero .zero
  have apart : ProduceApart copies := by
    simp [ProduceApart, copies, copying, Register.overlaps, Register.any]
  have derives : ∀ b ∈ copies, b.Derives := by
    intro b member
    obtain rfl | rfl : b = copying ⟨2⟩ ⟨3⟩ ∨ b = copying ⟨1⟩ ⟨2⟩ := by
      simpa [copies] using member
    all_goals exact derives_copying _ _
  have settled : Settled copies (threeNumbers .zero .zero .zero) := by
    intro b member
    obtain rfl | rfl : b = copying ⟨2⟩ ⟨3⟩ ∨ b = copying ⟨1⟩ ⟨2⟩ := by
      simpa [copies] using member
    · exact copying_settled (n := .zero) sound (by rfl) (by rfl)
    · exact copying_settled (n := .zero) sound (by rfl) (by rfl)
  have inputs : ∀ change ∈ [Change.set ⟨1⟩ 0 (.position 1) (.number .one)],
      change.IsInput copies (threeNumbers .zero .zero .zero) := by
    intro change member
    obtain rfl := List.mem_singleton.mp member
    refine ⟨_, _, _, _, rfl, ?_⟩
    intro t index key found resolved declared b inside
    obtain rfl | rfl : b = copying ⟨2⟩ ⟨3⟩ ∨ b = copying ⟨1⟩ ⟨2⟩ := by
      simpa [copies] using inside
    all_goals
      rw [produces_copying_iff]
      decide
  have done : ∃ entry, (Propagator.ofCap 4).commit (.ofBlocks copies)
      (threeNumbers .zero .zero .zero) [.set ⟨1⟩ 0 (.position 1) (.number .one)] =
        (threeNumbers .one .one .one, .ok entry) ∧ entry.rounds = 2 := by
    exact ⟨_, by cbv, rfl⟩
  obtain ⟨entry, committed, rounds⟩ := done
  exact ⟨sound, apart, settled, entry, committed, rounds,
    settled_of_commit sound apart derives settled inputs committed⟩

end Ripple
