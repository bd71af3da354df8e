import Ripple.Proofs.DerivedData
import Ripple.Proofs.OneRound

/-!
The order in which blocks are declared does not matter. Where confined blocks settle in one round, each
of them finds what it watches as it is at the end, and what it produces as it was at the start. What the
round leads to can be said in these terms, without any order (`Settlement`), and going through the blocks
in any order that has a block before the blocks it feeds leads there (`Midway.sweep`). The order that
follows from another declaration of the blocks is one of these (`Graph.feedbackCount_of_mem`).
-/

namespace Ripple

/-- The block computes from what it watches or produces, and all it does is write what it produces. -/
structure Block.Confined (b : Block) : Prop where
  sets : ∀ s changes, s.Sound → b.routine s = .ok changes →
    ∀ change ∈ changes, change.Within (b.produces ·) s
  depends : ∀ s r, s.Sound → r.Sound → s.SameShape r →
    s.AgreeOn (fun q => b.watches q ∨ b.produces q) r → b.routine s = b.routine r

/-- The store is one in which the block can have its turn: what it watches is there already, and what it
produces is as before. -/
structure Sees (first last : Store) (b : Block) (q : Store) : Prop where
  sound : q.Sound
  shape : first.SameShape q
  watched : q.AgreeOn (b.watches ·) last
  produced : q.AgreeOn (b.produces ·) first

/-- The block touches the register when it has its turn. -/
def Block.Alters (first last : Store) (b : Block) (x : Register) : Prop :=
  ∃ q changes, Sees first last b q ∧ b.routine q = .ok changes ∧ TouchedBy q changes x

/-- What one round leads to, whatever the order: the blocks that fire are those that are due or woken by
others that fire, what they produce is as they compute it, and nothing else is altered. -/
structure Settlement (blocks : List Block) (due fires : Block → Prop) (first last : Store) : Prop where
  soundFirst : first.Sound
  soundLast : last.Sound
  shape : first.SameShape last
  untouched : first.AgreeOn (fun x => ∀ b ∈ blocks, ¬ b.produces x) last
  idle : ∀ b ∈ blocks, ¬ fires b → first.AgreeOn (b.produces ·) last
  fired : ∀ b ∈ blocks, fires b → ∃ q changes r, Sees first last b q ∧ b.routine q = .ok changes ∧
    carryOut q changes = .ok r ∧ r.AgreeOn (b.produces ·) last
  fires_iff : ∀ b ∈ blocks,
    fires b ↔ due b ∨ ∃ a ∈ blocks, fires a ∧ ∃ x, a.Alters first last x ∧ b.watches x
  exists_due : ∀ b ∈ blocks, fires b → ∃ a ∈ blocks, due a

variable {blocks others : List Block} {b : Block} {s r q first last : Store} {changes : List Change}
  {firings : List Firing} {due fires : Block → Prop} {entry : Entry}

/-! ## Confined blocks -/

theorem Block.Confined.keepsTo (confined : b.Confined) : b.KeepsTo where
  sets s changes sound asked change member := (confined.sets s changes sound asked change member).isSet
  others s changes _ sound asked carried :=
    agree_of_within sound (confined.sets s changes sound asked) carried

/-- A block that produces a column covers it. -/
theorem Block.covers_of_produces {id key : Ident} (produces : b.produces ⟨id, some key⟩) :
    b.Covers ⟨id, some key⟩ := by
  obtain ⟨⟨table, column⟩, listed, seen⟩ := List.any_eq_true.mp produces
  obtain ⟨rfl, none | none | same⟩ := overlaps_iff.mp seen
  · cases none
  · cases none
    exact .inr listed
  · cases same
    exact .inl listed

theorem Block.feeds_of_produces {c : Block} {id key : Ident} (produces : b.produces ⟨id, some key⟩)
    (watches : c.watches ⟨id, some key⟩) : b.feeds c :=
  feeds_of_covers (covers_of_produces produces) watches

/-- What a confined block touches, it produces. -/
theorem Block.Confined.produces_of_touched {x : Register} (confined : b.Confined) (sound : s.Sound)
    (asked : b.routine s = .ok changes) (touched : TouchedBy s changes x) :
    b.produces x ∧ ∃ id key, x = ⟨id, some key⟩ :=
  columns_of_touched (confined.sets s changes sound asked) touched

theorem Block.Confined.coversOn (confined : b.Confined) (sound : s.Sound) : b.CoversOn s := by
  intro changes x asked touched
  obtain ⟨produces, id, key, rfl⟩ := confined.produces_of_touched sound asked touched
  exact covers_of_produces produces

theorem Block.Alters.feeds {c : Block} {x : Register} (alters : b.Alters first last x)
    (confined : b.Confined) (watches : c.watches x) : b.feeds c := by
  obtain ⟨q, changes, sees, asked, touched⟩ := alters
  exact feeds_of_covers (confined.coversOn sees.sound changes x asked touched) watches

/-- Whenever a block has its turn, it does the same. -/
theorem Sees.repeats (confined : b.Confined) (same : first.SameShape last) (one : Sees first last b q)
    (other : Sees first last b r) (asked : b.routine q = .ok changes) {q' : Store}
    (carried : carryOut q changes = .ok q') :
    ∃ r', b.routine r = .ok changes ∧ carryOut r changes = .ok r' ∧ q'.AgreeOn (b.produces ·) r' ∧
      ∀ x, TouchedBy q changes x ↔ TouchedBy r changes x := by
  have shape : q.SameShape r := one.shape.symm.trans other.shape
  have watched : q.AgreeOn (b.watches ·) r := one.watched.trans (one.shape.symm.trans same)
    (other.watched.symm (other.shape.symm.trans same))
  have produced : q.AgreeOn (b.produces ·) r :=
    one.produced.trans one.shape.symm (other.produced.symm other.shape.symm)
  have both : q.AgreeOn (fun x => b.watches x ∨ b.produces x) r := by
    intro id index key row declared inside
    rcases inside with seen | own
    · exact watched id index key row declared seen
    · exact produced id index key row declared own
  obtain ⟨r', carried', agree, touches⟩ := carryOut_congr one.sound other.sound shape produced
    (confined.sets q changes one.sound asked) carried
  exact ⟨r', confined.depends q r one.sound other.sound shape both ▸ asked, carried', agree, touches⟩

/-- So what it touches can be seen on any store in which it can have its turn. -/
theorem Sees.alters_iff (confined : b.Confined) (same : first.SameShape last)
    (sees : Sees first last b q) (asked : b.routine q = .ok changes) {q' : Store}
    (carried : carryOut q changes = .ok q') (x : Register) :
    b.Alters first last x ↔ TouchedBy q changes x := by
  constructor
  · rintro ⟨r, changes', other, asked', touched⟩
    obtain ⟨r', again, -, -, touches⟩ := sees.repeats confined same other asked carried
    cases again.symm.trans asked'
    exact (touches x).mpr touched
  · intro touched
    exact ⟨q, changes, sees, asked, touched⟩

/-! ## One round leads to a settlement -/

theorem FiresTo.sound (confined : ∀ b ∈ blocks, b.Confined) (sound : s.Sound)
    (leads : FiresTo blocks s r) : r.Sound := by
  induction leads with
  | refl => exact sound
  | tail _ fires ih =>
    obtain ⟨i, changes, ⟨b, there, asked⟩, carried⟩ := fires
    have own := (confined b (List.mem_of_getElem? there)).keepsTo
    exact (carryOut_sets ih (own.sets _ _ ih asked) carried).1

section

variable {dueAt : Nat → Prop} (apart : ProduceApart blocks) (confined : ∀ b ∈ blocks, b.Confined)
  (sound : first.Sound) (round : OneRound blocks dueAt first last entry firings)

include apart confined sound round

/-- A block that fires has its turn then, and what it produces stays. -/
theorem OneRound.sees {f : Firing} (member : f ∈ firings) (there : blocks[f.block]? = some b) :
    Sees first last b f.before ∧ f.after.AgreeOn (b.produces ·) last := by
  have keeps : ∀ b ∈ blocks, b.KeepsTo := fun b inside => (confined b inside).keepsTo
  obtain ⟨earlier, later, split⟩ := List.append_of_mem member
  have chained := round.chained
  have genuine := round.genuine
  have once := round.once
  rw [split] at chained genuine
  rw [split, List.map_append, List.map_cons] at once
  obtain ⟨-, onceLater, across⟩ := List.nodup_append.mp once
  have last : ∀ f' ∈ later, f'.block ≠ f.block := by
    intro f' here same
    exact (List.nodup_cons.mp onceLater).1 (same ▸ List.mem_map_of_mem here)
  have before : ∀ f' ∈ earlier, f'.block ≠ f.block := by
    intro f' here same
    exact across _ (List.mem_map_of_mem here) _ List.mem_cons_self same
  have alone : ∀ f' ∈ f :: later, ¬ f'.Wakes blocks f.block := by
    intro f' here wakes
    have inside : f' ∈ firings := split ▸ List.mem_append_right earlier here
    have ahead := round.after_wakers earlier f later split f' inside wakes
    exact across _ (List.mem_map_of_mem ahead) _ (List.mem_map_of_mem (f := Firing.block) here) rfl
  obtain ⟨soundBefore, shape, watched, produced⟩ :=
    chained.since_last apart keeps sound genuine there last alone
  have genuineBefore : ∀ f' ∈ earlier, f'.Genuine blocks :=
    fun f' here => genuine f' (List.mem_append_left _ here)
  obtain ⟨-, shapeBefore, kept⟩ := chained.split.1.agree (b.produces ·) genuineBefore keeps sound
    fun f' here quiet => agree_of_others quiet (genuineBefore f' here) apart there (before f' here)
  exact ⟨⟨soundBefore, shapeBefore, watched, kept.symm shapeBefore⟩, produced⟩

/-- A firing wakes a block if it alters something that the block watches. -/
theorem OneRound.wakes_iff {f : Firing} (member : f ∈ firings) {a : Block} {i : Nat}
    (source : blocks[f.block]? = some a) (target : blocks[i]? = some b) :
    f.Wakes blocks i ↔ ∃ x, a.Alters first last x ∧ b.watches x := by
  have keeps : ∀ b ∈ blocks, b.KeepsTo := fun b inside => (confined b inside).keepsTo
  obtain ⟨-, same, -⟩ := round.chained.agree (fun _ => False) round.genuine keeps sound
    (fun _ _ _ _ _ _ _ _ none => none.elim)
  obtain ⟨changes, ⟨a', there, asked⟩, carried⟩ := round.genuine f member
  obtain rfl := Option.some.inj (source.symm.trans there)
  have sees := (round.sees apart confined sound member source).1
  have alters := sees.alters_iff (confined a (List.mem_of_getElem? source)) same asked carried
  constructor
  · rintro ⟨b', x, here, ⟨changes', ⟨a', there, asked'⟩, touched⟩, watches⟩
    obtain rfl := Option.some.inj (target.symm.trans here)
    obtain rfl := Option.some.inj (source.symm.trans there)
    cases asked.symm.trans asked'
    exact ⟨x, (alters x).mpr touched, watches⟩
  · rintro ⟨x, touches, watches⟩
    exact ⟨b, x, target, ⟨changes, ⟨a, source, asked⟩, (alters x).mp touches⟩, watches⟩

/-- One round of confined blocks leads to a settlement. -/
theorem OneRound.settlement (started : ∀ i b, blocks[i]? = some b → (dueAt i ↔ due b)) :
    Settlement blocks due (fun b => ∃ f ∈ firings, blocks[f.block]? = some b) first last := by
  have keeps : ∀ b ∈ blocks, b.KeepsTo := fun b inside => (confined b inside).keepsTo
  obtain ⟨soundLast, shape, untouched⟩ := round.chained.agree
    (fun x => ∀ b ∈ blocks, ¬ b.produces x) round.genuine keeps sound fun f member quiet => by
      obtain ⟨-, ⟨b, there, -⟩, -⟩ := round.genuine f member
      exact (quiet.foreign b there).mono fun id key none => none b (List.mem_of_getElem? there)
  have fires_iff (i : Nat) (b : Block) (target : blocks[i]? = some b) :
      (∃ f ∈ firings, f.block = i) ↔ due b ∨ ∃ a ∈ blocks,
        (∃ f ∈ firings, blocks[f.block]? = some a) ∧ ∃ x, a.Alters first last x ∧ b.watches x := by
    rw [round.fires_iff i, started i b target]
    refine or_congr_right ⟨?_, ?_⟩
    · rintro ⟨f, member, wakes⟩
      obtain ⟨-, ⟨a, source, -⟩, -⟩ := round.genuine f member
      exact ⟨a, List.mem_of_getElem? source, ⟨f, member, source⟩,
        (round.wakes_iff apart confined sound member source target).mp wakes⟩
    · rintro ⟨a, -, ⟨f, member, source⟩, touches⟩
      exact ⟨f, member, (round.wakes_iff apart confined sound member source target).mpr touches⟩
  refine ⟨sound, soundLast, shape, untouched, ?_, ?_, ?_, ?_⟩
  · intro b inside never
    obtain ⟨i, there⟩ := List.getElem?_of_mem inside
    exact (round.chained.agree (b.produces ·) round.genuine keeps sound fun f member quiet =>
      agree_of_others quiet (round.genuine f member) apart there fun own =>
        never ⟨f, member, own ▸ there⟩).2.2
  · rintro b - ⟨f, member, there⟩
    obtain ⟨sees, produced⟩ := round.sees apart confined sound member there
    obtain ⟨changes, ⟨b', same, asked⟩, carried⟩ := round.genuine f member
    obtain rfl := Option.some.inj (there.symm.trans same)
    exact ⟨f.before, changes, f.after, sees, asked, carried, produced⟩
  · intro b inside
    obtain ⟨i, target⟩ := List.getElem?_of_mem inside
    constructor
    · rintro ⟨f, member, there⟩
      exact (fires_iff f.block b there).mp ⟨f, member, rfl⟩
    · intro woken
      obtain ⟨f, member, own⟩ := (fires_iff i b target).mpr woken
      exact ⟨f, member, own ▸ target⟩
  · rintro b - ⟨f, member, -⟩
    -- Nothing fires before the first firing, so that its block is due.
    obtain ⟨f', rest, split⟩ := List.exists_cons_of_ne_nil (List.ne_nil_of_mem member)
    have inside : f' ∈ firings := split ▸ List.mem_cons_self
    obtain ⟨-, ⟨a, source, -⟩, -⟩ := round.genuine f' inside
    rcases (round.fires_iff f'.block).mp ⟨f', inside, rfl⟩ with here | ⟨f, waking, wakes⟩
    · exact ⟨a, List.mem_of_getElem? source, (started _ a source).mp here⟩
    · cases round.after_wakers [] f' rest split f waking wakes

end

/-! ## Every order leads to the settlement -/

theorem ProduceApart.perm (apart : ProduceApart blocks) (reordered : others.Perm blocks) :
    ProduceApart others := by
  refine (reordered.pairwise_iff ?_).mpr apart
  intro a b none p inA q inB overlap
  exact none q inB p inA (overlaps_symm overlap)

/-- Half way through the blocks: what the blocks still to come produce is as at the start, everything
else as at the end. -/
structure Midway (due fires : Block → Prop) (first last : Store) (visited rest : List (Nat × Block))
    (round : Round) : Prop where
  sound : round.run.store.Sound
  shape : first.SameShape round.run.store
  ahead : round.run.store.AgreeOn (fun x => ∃ p ∈ rest, p.2.produces x) first
  behind : round.run.store.AgreeOn (fun x => ¬ ∃ p ∈ rest, p.2.produces x) last
  due_iff : ∀ p ∈ rest, p.1 ∈ round.due ↔
    due p.2 ∨ ∃ a ∈ visited, fires a.2 ∧ ∃ x, a.2.Alters first last x ∧ p.2.watches x
  later : round.later = []

theorem Settlement.eq_of_not_fires (settlement : Settlement blocks due fires first last)
    (never : ∀ b ∈ blocks, ¬ fires b) : first = last := by
  refine Store.eq_of_agreeOn settlement.soundFirst settlement.soundLast settlement.shape ?_
  intro id index key row declared _
  by_cases none : ∀ b ∈ blocks, ¬ b.produces ⟨id, some key⟩
  · exact settlement.untouched id index key row declared none
  · obtain ⟨b, inside, produces⟩ : ∃ b ∈ blocks, b.produces ⟨id, some key⟩ := by simpa using none
    exact settlement.idle b inside (never b inside) id index key row declared produces

/-- A block that is to fire does so wherever it has its turn, and leaves what it produces as it stays. -/
theorem Settlement.turn (settlement : Settlement blocks due fires first last) (own : b.Confined)
    (inside : b ∈ blocks) (fired : fires b) (sees : Sees first last b s) :
    ∃ changes r, b.routine s = .ok changes ∧ carryOut s changes = .ok r ∧ r.Sound ∧ s.SameShape r ∧
      s.AgreeOn (¬ b.produces ·) r ∧ r.AgreeOn (b.produces ·) last ∧
      ∀ x, TouchedBy s changes x ↔ b.Alters first last x := by
  obtain ⟨q, changes, r, before, asked, carried, left⟩ := settlement.fired b inside fired
  obtain ⟨r', asked', carried', results, -⟩ := before.repeats own settlement.shape sees asked carried
  have within := own.sets s changes sees.sound asked'
  obtain ⟨sound, shape, -⟩ :=
    carryOut_sets sees.sound (fun change member => (within change member).isSet) carried'
  obtain ⟨-, sameQ, -⟩ := carryOut_sets before.sound
    (fun change member => (own.sets q changes before.sound asked change member).isSet) carried
  have same : r.SameShape r' := sameQ.symm.trans (before.shape.symm.trans (sees.shape.trans shape))
  have produced : r'.AgreeOn (b.produces ·) last := (results.symm same).trans same.symm left
  exact ⟨changes, r', asked', carried', sound, shape, agree_of_within sees.sound within carried',
    produced, fun x => (sees.alters_iff own settlement.shape asked' carried' x).symm⟩

theorem Run.fire_of_carryOut {run : Run} (asked : b.routine run.store = .ok changes)
    (carried : carryOut run.store changes = .ok r) :
    ∃ after touched, run.fire b = .ok (after, touched) ∧ after.store = r ∧
      (∀ x, x ∈ touched ↔ TouchedBy run.store changes x) ∧ after.rounds = run.rounds ∧
      after.fired = run.fired ++ [b.name] := by
  have opened : carryOut { run with fired := run.fired ++ [b.name] }.store changes = .ok r := carried
  obtain ⟨⟨after, touched⟩, applied⟩ := applyAll_of_carryOut b.name [] opened
  obtain ⟨stored, listed, rounds, names⟩ := applyAll_carried applied
  refine ⟨after, touched, ?_, (Except.ok.inj (carried.symm.trans stored)).symm, ?_, rounds, names⟩
  · rw [Run.fire]
    dsimp only
    rw [asked]
    exact applied
  · intro x
    simpa using listed x

section

variable {i : Nat} {visited rest : List (Nat × Block)} {round : Round} {p : Nat × Block}

theorem getElem_of_ordered (split : (Graph.ofBlocks others).ordered = visited ++ rest)
    (member : p ∈ rest) : others[p.1]? = some p.2 :=
  Graph.mem_ordered_iff.mp (split ▸ List.mem_append_right visited member)

theorem rank_lt_of_ordered (split : (Graph.ofBlocks others).ordered = visited ++ (i, b) :: rest)
    (member : p ∈ rest) : (Graph.ofBlocks others).rank i < (Graph.ofBlocks others).rank p.1 := by
  have ascending := split ▸ Graph.pairwise_ordered others
  obtain ⟨-, sorted, -⟩ := List.pairwise_append.mp ascending
  exact (List.pairwise_cons.mp sorted).1 p member

/-- No block that is still to come feeds the one whose turn it is. -/
theorem not_feeds_of_ordered (forward : (Graph.ofBlocks others).feedbackCount = 0)
    (split : (Graph.ofBlocks others).ordered = visited ++ (i, b) :: rest)
    (member : p ∈ (i, b) :: rest) : ¬ p.2.feeds b := by
  intro feeds
  have ahead := Graph.rank_lt_of_feeds forward (getElem_of_ordered split member)
    (getElem_of_ordered split List.mem_cons_self) feeds
  rcases List.mem_cons.mp member with rfl | later
  · exact Nat.lt_irrefl _ ahead
  · exact Nat.lt_asymm ahead (rank_lt_of_ordered split later)

/-- A block has its turn in the store that the blocks before it lead to. -/
theorem Midway.sees (forward : (Graph.ofBlocks others).feedbackCount = 0)
    (split : (Graph.ofBlocks others).ordered = visited ++ (i, b) :: rest)
    (midway : Midway due fires first last visited ((i, b) :: rest) round) :
    Sees first last b round.run.store where
  sound := midway.sound
  shape := midway.shape
  watched := by
    refine midway.behind.mono fun id key watches => ?_
    rintro ⟨p, member, produces⟩
    exact not_feeds_of_ordered forward split member (Block.feeds_of_produces produces watches)
  produced := midway.ahead.mono fun id key produces => ⟨(i, b), List.mem_cons_self, produces⟩

/-- One block further: the block left what it produces as it stays and everything else alone, and what
it woke is due. -/
theorem Midway.advance (apart : ProduceApart others)
    (split : (Graph.ofBlocks others).ordered = visited ++ (i, b) :: rest)
    (midway : Midway due fires first last visited ((i, b) :: rest) round) {after : Round}
    (sound : after.run.store.Sound) (shape : round.run.store.SameShape after.run.store)
    (outside : round.run.store.AgreeOn (¬ b.produces ·) after.run.store)
    (produced : after.run.store.AgreeOn (b.produces ·) last)
    (woken : ∀ p ∈ rest, p.1 ∈ after.due ↔
      p.1 ∈ round.due ∨ fires b ∧ ∃ x, b.Alters first last x ∧ p.2.watches x)
    (later : after.later = []) :
    Midway due fires first last (visited ++ [(i, b)]) rest after where
  sound := sound
  shape := midway.shape.trans shape
  ahead := by
    intro id index key row declared
    rintro ⟨p, member, produces⟩
    have before := (shape.columnKey? id index).trans declared
    have other : i ≠ p.1 := fun same =>
      Nat.lt_irrefl _ (same ▸ rank_lt_of_ordered split member)
    have foreign := not_produces_of_apart apart other
      (getElem_of_ordered split (List.mem_cons_of_mem _ member))
      (getElem_of_ordered split List.mem_cons_self) produces
    rw [← outside id index key row before foreign]
    exact midway.ahead id index key row before ⟨p, List.mem_cons_of_mem _ member, produces⟩
  behind := by
    intro id index key row declared none
    by_cases own : b.produces ⟨id, some key⟩
    · exact produced id index key row declared own
    · have before := (shape.columnKey? id index).trans declared
      rw [← outside id index key row before own]
      refine midway.behind id index key row before ?_
      rintro ⟨p, member, produces⟩
      rcases List.mem_cons.mp member with rfl | inRest
      · exact own produces
      · exact none ⟨p, inRest, produces⟩
  due_iff p member := by
    rw [woken p member, midway.due_iff p (List.mem_cons_of_mem _ member)]
    simp [or_and_right, exists_or, or_assoc]
  later := later

variable (confined : ∀ b ∈ others, b.Confined) (apart : ProduceApart others)
  (forward : (Graph.ofBlocks others).feedbackCount = 0)
  (known : ∀ b, b ∈ others ↔ b ∈ blocks) (settlement : Settlement blocks due fires first last)

include confined forward known settlement in
/-- When its turn comes, a block is due if and only if it is to fire. -/
theorem Midway.due_iff_fires (split : (Graph.ofBlocks others).ordered = visited ++ (i, b) :: rest)
    (midway : Midway due fires first last visited ((i, b) :: rest) round) :
    i ∈ round.due ↔ fires b := by
  have there := getElem_of_ordered split List.mem_cons_self
  rw [midway.due_iff (i, b) List.mem_cons_self,
    settlement.fires_iff b ((known b).mp (List.mem_of_getElem? there))]
  refine or_congr_right ⟨?_, ?_⟩
  · rintro ⟨⟨k, a⟩, member, fired, woken⟩
    have source : others[k]? = some a :=
      Graph.mem_ordered_iff.mp (split ▸ List.mem_append_left _ member)
    exact ⟨a, (known a).mp (List.mem_of_getElem? source), fired, woken⟩
  · rintro ⟨a, inside, fired, x, touches, watches⟩
    have listed := (known a).mpr inside
    obtain ⟨k, source⟩ := List.getElem?_of_mem listed
    have member := split ▸ Graph.mem_ordered_iff.mpr source
    rcases List.mem_append.mp member with before | after
    · exact ⟨(k, a), before, fired, x, touches, watches⟩
    · exact absurd (touches.feeds (confined a listed) watches) (not_feeds_of_ordered forward split after)

include apart known settlement in
/-- A block that does not fire has its columns as they stay already. -/
theorem Midway.skip (split : (Graph.ofBlocks others).ordered = visited ++ (i, b) :: rest)
    (midway : Midway due fires first last visited ((i, b) :: rest) round) (never : ¬ fires b) :
    Midway due fires first last (visited ++ [(i, b)]) rest round := by
  have inside := (known b).mp (List.mem_of_getElem? (getElem_of_ordered split List.mem_cons_self))
  have before : round.run.store.AgreeOn (b.produces ·) first :=
    midway.ahead.mono fun id key produces => ⟨(i, b), List.mem_cons_self, produces⟩
  refine midway.advance apart split midway.sound (.refl _) (.refl _ _)
    (before.trans midway.shape.symm (settlement.idle b inside never)) ?_ midway.later
  intro p _
  simp [never]

include confined apart forward known settlement in
/-- A block that fires succeeds, leaves what it produces as it stays and wakes later blocks only. -/
theorem Midway.fire (split : (Graph.ofBlocks others).ordered = visited ++ (i, b) :: rest)
    (midway : Midway due fires first last visited ((i, b) :: rest) round) (fired : fires b) :
    ∃ run touched, round.run.fire b = .ok (run, touched) ∧
      Midway due fires first last (visited ++ [(i, b)]) rest
        ((Graph.ofBlocks others).schedule i touched { round with run }) ∧
      run.rounds = round.run.rounds ∧ run.fired = round.run.fired ++ [b.name] := by
  have there := getElem_of_ordered split List.mem_cons_self
  have member := List.mem_of_getElem? there
  have own := confined b member
  obtain ⟨changes, r, asked, carried, sound, shape, outside, produced, touches⟩ :=
    settlement.turn own ((known b).mp member) fired (midway.sees forward split)
  obtain ⟨run, touched, ran, rfl, listed, rounds, names⟩ := Run.fire_of_carryOut asked carried
  have alters (x : Register) : x ∈ touched ↔ b.Alters first last x := (listed x).trans (touches x)
  have watching {j : Nat} {c : Block} (target : others[j]? = some c) :
      j ∈ (Graph.ofBlocks others).watchersOf touched ↔
        ∃ x, b.Alters first last x ∧ c.watches x := by
    rw [(faithful_ofBlocks others).mem_watchersOf]
    constructor
    · rintro ⟨c', x, here, inList, watches⟩
      obtain rfl := Option.some.inj (target.symm.trans here)
      exact ⟨x, (alters x).mp inList, watches⟩
    · rintro ⟨x, altered, watches⟩
      exact ⟨c, x, target, (alters x).mpr altered, watches⟩
  refine ⟨run, touched, ran, ?_, rounds, names⟩
  refine midway.advance apart split sound shape outside produced ?_ ?_
  · intro p later
    rw [mem_ahead_iff, watching (getElem_of_ordered split (List.mem_cons_of_mem _ later))]
    simp [rank_lt_of_ordered split later, fired]
  · refine List.eq_nil_iff_forall_not_mem.mpr fun j left => ?_
    rcases mem_behind_iff.mp left with before | ⟨back, inList⟩
    · rw [midway.later] at before
      cases before
    · obtain ⟨c, x, target, altered, watches⟩ :=
        (faithful_ofBlocks others).mem_watchersOf.mp inList
      have feeds := ((alters x).mp altered).feeds own watches
      exact Nat.not_lt.mpr back (Graph.rank_lt_of_feeds forward there target feeds)

open scoped Classical in
include confined apart forward known settlement in
/-- Going through the rest of the blocks leads to the settlement. -/
theorem Midway.sweep (split : (Graph.ofBlocks others).ordered = visited ++ rest)
    (midway : Midway due fires first last visited rest round) :
    ∃ after, (Graph.ofBlocks others).sweep round rest = .ok after ∧ after.run.store = last ∧
      after.later = [] ∧ after.run.rounds = round.run.rounds ∧
      after.run.fired = round.run.fired ++ ((rest.map Prod.snd).filter (fires ·)).map Block.name := by
  induction rest generalizing visited round with
  | nil =>
    refine ⟨round, rfl, ?_, midway.later, rfl, by simp⟩
    exact Store.eq_of_agreeOn midway.sound settlement.soundLast (midway.shape.symm.trans settlement.shape)
      (midway.behind.mono (by simp))
  | cons head rest ih =>
    obtain ⟨i, b⟩ := head
    have next : (Graph.ofBlocks others).ordered = (visited ++ [(i, b)]) ++ rest := by
      rw [split, List.append_assoc, List.singleton_append]
    have due_iff := midway.due_iff_fires confined forward known settlement split
    rw [Graph.sweep]
    by_cases fired : fires b
    · obtain ⟨run, touched, ran, further, rounds, names⟩ :=
        midway.fire confined apart forward known settlement split fired
      obtain ⟨after, swept, store, later, count, list⟩ := ih next further
      rw [if_pos (due_iff.mpr fired), ran]
      refine ⟨after, swept, store, later, count.trans rounds, ?_⟩
      rw [list, List.map_cons, List.filter_cons_of_pos (by simpa using fired), List.map_cons]
      exact (congrArg (· ++ _) names).trans (by simp)
    · obtain ⟨after, swept, store, later, count, list⟩ :=
        ih next (midway.skip apart known settlement split fired)
      rw [if_neg (fun due => fired (due_iff.mp due))]
      refine ⟨after, swept, store, later, count, ?_⟩
      rw [list, List.map_cons, List.filter_cons_of_neg (by simpa using fired)]

include known settlement in
/-- At the start of the round nothing was gone through yet. -/
theorem Settlement.midway (stored : round.run.store = first)
    (queued : ∀ i, i ∈ round.due ↔ ∃ b, others[i]? = some b ∧ due b) (none : round.later = []) :
    Midway due fires first last [] (Graph.ofBlocks others).ordered round where
  sound := stored ▸ settlement.soundFirst
  shape := stored ▸ .refl first
  ahead := by
    rw [stored]
    exact .refl _ first
  behind := by
    rw [stored]
    refine settlement.untouched.mono fun id key never b inside produces => never ?_
    obtain ⟨k, there⟩ := List.getElem?_of_mem ((known b).mpr inside)
    exact ⟨(k, b), Graph.mem_ordered_iff.mpr there, produces⟩
  due_iff p member := by
    have there : others[p.1]? = some p.2 := Graph.mem_ordered_iff.mp member
    rw [queued]
    simp [there]
  later := none

open scoped Classical in
include confined apart forward known settlement in
/-- If one round is allowed where a block is due, the blocks settle. -/
theorem Settlement.settle (cap : Nat) {left : Nat} {queue : List Nat} {run : Run} (stored : run.store = first)
    (queued : ∀ i, i ∈ queue ↔ ∃ b, others[i]? = some b ∧ due b)
    (allowed : (∃ b ∈ blocks, due b) → 1 ≤ left) :
    ∃ after, (Graph.ofBlocks others).settle cap left queue run = .ok after ∧ after.store = last ∧
      after.rounds = run.rounds + (if ∃ b ∈ blocks, due b then 1 else 0) ∧
      after.fired = run.fired ++
        (((Graph.ofBlocks others).ordered.map Prod.snd).filter (fires ·)).map Block.name := by
  by_cases started : ∃ b ∈ blocks, due b
  · obtain ⟨b, inside, here⟩ := started
    obtain ⟨k, there⟩ := List.getElem?_of_mem ((known b).mpr inside)
    have some : queue.isEmpty = false := by
      rw [List.isEmpty_eq_false_iff]
      exact List.ne_nil_of_mem ((queued k).mpr ⟨b, there, here⟩)
    obtain ⟨left, rfl⟩ := Nat.exists_eq_add_of_le (allowed ⟨b, inside, here⟩)
    have midway : Midway due fires first last [] (Graph.ofBlocks others).ordered
        ⟨{ run with rounds := run.rounds + 1 }, queue, []⟩ :=
      settlement.midway known stored queued rfl
    obtain ⟨after, swept, store, later, count, list⟩ :=
      midway.sweep confined apart forward known settlement rfl
    refine ⟨after.run, ?_, store, ?_, list⟩
    · rw [Nat.add_comm 1 left, Graph.settle, some, swept]
      simp only [Bool.false_eq_true, ↓reduceIte, later, Graph.settle_nil]
    · rw [count, if_pos ⟨b, inside, here⟩]
  · have never : ∀ b ∈ blocks, ¬ fires b := fun b inside fired =>
      started (settlement.exists_due b inside fired)
    have none : queue = [] := by
      refine List.eq_nil_iff_forall_not_mem.mpr fun i member => ?_
      obtain ⟨b, there, here⟩ := (queued i).mp member
      exact started ⟨b, (known b).mp (List.mem_of_getElem? there), here⟩
    refine ⟨run, ?_, stored.trans (settlement.eq_of_not_fires never), ?_, ?_⟩
    · rw [none, Graph.settle_nil]
    · rw [if_neg started, Nat.add_zero]
    · have silent : ((Graph.ofBlocks others).ordered.map Prod.snd).filter (fires ·) = [] := by
        refine List.filter_eq_nil_iff.mpr fun b member fired => ?_
        have listed := (Graph.ordered_perm others).mem_iff.mp member
        exact never b ((known b).mp listed) (of_decide_eq_true fired)
      rw [silent]
      simp

end

/-- Where a block is due, blocks that settle do so in at least one round. -/
theorem allowed_of_settle {g : Graph} {cap left : Nat} {queue : List Nat} {run after : Run}
    (settled : g.settle cap left queue run = .ok after) (some : queue ≠ []) : 1 ≤ left := by
  by_contra none
  obtain rfl : left = 0 := by omega
  unfold Graph.settle at settled
  rw [if_neg (by simpa using some)] at settled
  cases settled

open scoped Classical in
/-- A commit that leads to a settlement leads there with every list of the same blocks. -/
theorem commit_of_settlement {p : Propagator} {run : Run} {touched : List Register}
    (confined : ∀ b ∈ others, b.Confined) (apart : ProduceApart others)
    (forward : (Graph.ofBlocks others).feedbackCount = 0) (known : ∀ b, b ∈ others ↔ b ∈ blocks)
    (settlement : Settlement blocks due fires run.store last) (nonempty : changes ≠ [])
    (submitted : Propagator.submit (.start s) [] 0 changes = .ok (run, touched))
    (watching : ∀ b, due b ↔ ∃ x ∈ touched, b.watches x)
    (allowed : (∃ b ∈ blocks, due b) → 1 ≤ p.cap) :
    ∃ entry, p.commit (.ofBlocks others) s changes = (last, .ok entry) ∧
      entry.rounds = (if ∃ b ∈ blocks, due b then 1 else 0) ∧
      entry.fired =
        (((Graph.ofBlocks others).ordered.map Prod.snd).filter (fires ·)).map Block.name := by
  have queued (i : Nat) : i ∈ (Graph.ofBlocks others).watchersOf touched ↔
      ∃ b, others[i]? = some b ∧ due b := by
    rw [(faithful_ofBlocks others).mem_watchersOf]
    refine exists_congr fun b => ?_
    simp only [watching b, exists_and_left]
    rfl
  obtain ⟨after, settled, rfl, rounds, names⟩ :=
    settlement.settle confined apart forward known p.cap rfl queued allowed
  have carried := submit_carried submitted
  refine ⟨after.entry changes.length,
    commit_eq_ok_iff.mpr ⟨nonempty, run, touched, after, submitted, settled, rfl, rfl⟩, ?_, ?_⟩
  · rw [Run.entry, rounds, carried.rounds]
    exact Nat.zero_add _
  · rw [Run.entry, names, carried.fired]
    rfl

/-- **The order of declaration does not matter.** Let the blocks be confined and produce different
columns, and let there be no feedback edge. Where a commit of writes succeeds, it succeeds with the same
blocks declared in any other order, with the same store in the end, in as many rounds and with the same
blocks fired, each as often. -/
theorem commit_of_reordered {p : Propagator} (sound : s.Sound) (apart : ProduceApart blocks)
    (forward : (Graph.ofBlocks blocks).feedbackCount = 0) (confined : ∀ b ∈ blocks, b.Confined)
    (sets : ∀ change ∈ changes, change.IsSet) (reordered : others.Perm blocks)
    (done : p.commit (.ofBlocks blocks) s changes = (r, .ok entry)) :
    ∃ entry', p.commit (.ofBlocks others) s changes = (r, .ok entry') ∧
      entry'.rounds = entry.rounds ∧ entry'.fired.Perm entry.fired := by
  classical
  obtain ⟨first, rounds, carried, scheduled⟩ := scheduled_of_commit done
  obtain ⟨nonempty, run, touched, after, submitted, settled, rfl, -⟩ := commit_eq_ok_iff.mp done
  obtain rfl : first = run.store := Except.ok.inj (carried.symm.trans (submit_carried submitted).store)
  have soundFirst := (carryOut_sets sound sets carried).1
  obtain ⟨firings, round⟩ := scheduled.oneRound forward fun q leads b inside =>
    (confined b inside).coversOn (leads.sound confined soundFirst)
  have watching (b : Block) : (∃ x, TouchedBy s changes x ∧ b.watches x) ↔
      ∃ x ∈ touched, b.watches x := by
    refine exists_congr fun x => and_congr_left fun _ => ?_
    simpa [Run.start] using ((submit_carried submitted).touched x).symm
  have settlement : Settlement blocks (fun b => ∃ x, TouchedBy s changes x ∧ b.watches x)
      (fun b => ∃ f ∈ firings, blocks[f.block]? = some b) run.store after.store :=
    round.settlement apart confined soundFirst fun i b there => by simp [there]
  have allowed : (∃ b ∈ blocks, ∃ x, TouchedBy s changes x ∧ b.watches x) → 1 ≤ p.cap := by
    rintro ⟨b, inside, due⟩
    obtain ⟨x, member, watches⟩ := (watching b).mp due
    obtain ⟨i, there⟩ := List.getElem?_of_mem inside
    exact allowed_of_settle settled (List.ne_nil_of_mem
      ((faithful_ofBlocks blocks).mem_watchersOf.mpr ⟨b, x, there, member, watches⟩))
  obtain ⟨same, again, count, names⟩ := commit_of_settlement confined apart forward
    (fun _ => Iff.rfl) settlement nonempty submitted watching allowed
  cases done.symm.trans again
  have known (b : Block) : b ∈ others ↔ b ∈ blocks := reordered.mem_iff
  obtain ⟨entry', committed, count', names'⟩ := commit_of_settlement
    (fun b inside => confined b ((known b).mp inside))
    (apart.perm reordered)
    (Graph.feedbackCount_of_mem forward fun b => (known b).mp) known settlement nonempty submitted
    watching allowed
  refine ⟨entry', committed, count'.trans count.symm, ?_⟩
  have listed := (Graph.ordered_perm others).trans (reordered.trans (Graph.ordered_perm blocks).symm)
  rw [names', names]
  exact (listed.filter _).map _

theorem confined_marking (name : String) (watched : List Ident) (target : Ident) :
    (marking name watched target).Confined where
  sets s changes _ asked change member := by
    cases asked
    obtain rfl := List.mem_singleton.mp member
    refine ⟨_, _, _, _, rfl, ?_⟩
    intro t index key found resolved declared
    rw [Store.columnKey?_of_find? found] at declared
    obtain ⟨c, there, rfl⟩ := Option.map_eq_some_iff.mp declared
    rw [Table.spec_id_of_columnIndex? resolved there]
    simp [Block.produces, marking, Register.overlaps]
  depends _ _ _ _ _ _ := rfl

theorem sound_fourCells : fourCells.Sound := by
  refine Store.sound_single ?_
  intro c member
  simp only [List.mem_cons, List.not_mem_nil, or_false] at member
  obtain rfl | rfl | rfl | rfl := member
  all_goals exact ⟨rfl, by decide⟩

/-- Declared the other way round, the two ways of the diamond are gone through in the other order. -/
theorem commit_of_reordered_diamond :
    ∃ r entry entry', (Propagator.ofCap 1).commit (.ofBlocks diamond) fourCells
        [.set ⟨1⟩ 0 (.position 1) (.number .one)] = (r, .ok entry) ∧
      (Propagator.ofCap 1).commit (.ofBlocks diamond.reverse) fourCells
        [.set ⟨1⟩ 0 (.position 1) (.number .one)] = (r, .ok entry') ∧
      entry.fired = ["left", "right", "join"] ∧ entry'.fired = ["right", "left", "join"] ∧
      entry'.fired.Perm entry.fired := by
  have apart : ProduceApart diamond := by
    simp [ProduceApart, diamond, marking, Register.overlaps]
  have forward : (Graph.ofBlocks diamond).feedbackCount = 0 := by cbv
  have confined : ∀ b ∈ diamond, b.Confined := by
    intro b member
    simp only [diamond, List.mem_cons, List.not_mem_nil, or_false] at member
    obtain rfl | rfl | rfl := member
    all_goals exact confined_marking _ _ _
  have sets : ∀ change ∈ [Change.set ⟨1⟩ 0 (.position 1) (.number .one)], change.IsSet := by
    intro change member
    obtain rfl := List.mem_singleton.mp member
    exact ⟨_, _, _, _, rfl⟩
  have done : ∃ r entry, (Propagator.ofCap 1).commit (.ofBlocks diamond) fourCells
      [.set ⟨1⟩ 0 (.position 1) (.number .one)] = (r, .ok entry) ∧
        entry.fired = ["left", "right", "join"] := by
    exact ⟨_, _, by cbv, rfl⟩
  obtain ⟨r, entry, committed, names⟩ := done
  obtain ⟨entry', again, -, listed⟩ :=
    commit_of_reordered sound_fourCells apart forward confined sets diamond.reverse_perm committed
  have crossed : ∃ r entry, (Propagator.ofCap 1).commit (.ofBlocks diamond.reverse) fourCells
      [.set ⟨1⟩ 0 (.position 1) (.number .one)] = (r, .ok entry) ∧
        entry.fired = ["right", "left", "join"] := by
    exact ⟨_, _, by cbv, rfl⟩
  obtain ⟨_, _, reached, names'⟩ := crossed
  cases again.symm.trans reached
  exact ⟨r, entry, entry', committed, again, names, names', listed⟩

end Ripple
