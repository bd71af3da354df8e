import Mathlib.Data.List.Permutation
import Ripple.Proofs.Atomicity
import Ripple.Proofs.Touches

/-!
What an entry records. The effects of a transaction are those of the changes that it carried out, one
after the other (`Performed`), so that each effect with an old value is a write at its place among
them: the cell held the old value in the store that the changes before had led to, and the new one is
another (`Performed.overwrites`). Together with `Tracks` this makes an entry an exact difference in both
directions (`entry_exact`).
-/

namespace Ripple

open History (runSteps)

/-- Changes carried out one after the other, with all their effects. -/
inductive Performed (s : Store) : List Effect → Store → Prop
  | nothing : Performed s [] s
  | change {effects : List Effect} {q : Store} {change : Change} {outcome : Outcome}
      (before : Performed s effects q) (applied : change.apply q = .ok outcome) :
      Performed s (effects ++ outcome.effects) outcome.store

/-- Between the changes before and the changes after, a cell that held the old value got a new one. -/
structure Overwrites (s : Store) (earlier : List Effect) (id : Ident) (row column : Nat)
    (old new : Value) (later : List Effect) (r q : Store) : Prop where
  before : Performed s earlier q
  replayed : runSteps Effect.replay s earlier = (q, .ok ())
  held : q.cell? id row column = some old
  differ : old ≠ new
  write : ∃ name touched written, (Change.set id row name new).apply q =
    .ok ⟨written, [.cell id row column (some old) new], touched⟩ ∧ Performed written later r

variable {s r q : Store} {effects earlier later : List Effect} {id : Ident} {row column : Nat}
  {old new : Value} {change : Change} {outcome : Outcome}

/-- What is performed on a sound store is tracked by its effects. -/
theorem Performed.tracks (sound : s.Sound) (performed : Performed s effects r) :
    Tracks s r effects := by
  induction performed with
  | nothing => exact tracks_nil sound
  | change _ applied ih => exact kept_tracks s _ _ _ _ ih applied

/-- The cells of appended rows have no old values. -/
theorem old_of_mem_appendEffects {table : Ident} {first : Nat} {rows : List Row}
    {held : Option Value} (member : .cell id row column held new ∈ appendEffects table first rows) :
    held = none := by
  simp only [appendEffects, List.mem_flatMap, List.mem_map] at member
  obtain ⟨_, -, _, -, same⟩ := member
  cases same
  rfl

/-- An effect with an old value is the only one of its change, a write to a cell that held it. -/
theorem Change.Leads.write_of_old (leads : change.Leads s outcome)
    (split : outcome.effects = earlier ++ .cell id row column (some old) new :: later) :
    earlier = [] ∧ later = [] ∧ (∃ name, change = .set id row name new) ∧
      s.cell? id row column = some old ∧ old ≠ new := by
  cases leads with
  | written found resolved checked held differ declared =>
    cases earlier with
    | nil =>
      cases split
      exact ⟨rfl, rfl, ⟨_, rfl⟩, (Store.cell_of_find? found).trans held, differ⟩
    | cons _ earlier => simp at split
  | @appended id' t rows found _ checked =>
    have member : .cell id row column (some old) new ∈ earlier ++ .cell id row column (some old) new ::
        later := List.mem_append_right _ List.mem_cons_self
    rw [← split] at member
    cases old_of_mem_appendEffects member
  | created absent =>
    cases earlier <;> simp at split
  | _ => simp at split

/-- Every effect with an old value tells of such a write. -/
theorem Performed.overwrites (sound : s.Sound) (performed : Performed s effects r)
    (split : effects = earlier ++ .cell id row column (some old) new :: later) :
    ∃ q, Overwrites s earlier id row column old new later r q := by
  induction performed generalizing later with
  | nothing => simp at split
  | @change effects q change outcome before applied ih =>
    rcases split_of_append split with ⟨inner, rfl, own⟩ | ⟨inner, here, rfl⟩
    · have tracks := before.tracks sound
      have leads := (Change.apply_eq_ok_iff tracks.1 change).mp applied
      obtain ⟨rfl, rfl, ⟨name, rfl⟩, held, differ⟩ := leads.write_of_old own
      rw [List.append_nil]
      obtain ⟨written, _, touched⟩ := outcome
      obtain rfl := own
      exact ⟨q, before, tracks.2.forth, held, differ, name, touched, written, applied, .nothing⟩
    · obtain ⟨q', there⟩ := ih here
      obtain ⟨name, touched, written, write, rest⟩ := there.write
      exact ⟨q', there.before, there.replayed, there.held, there.differ, name, touched, written, write,
        .change rest applied⟩

theorem kept_performed (s : Store) : Kept fun present effects => Performed s effects present := by
  intro present effects change outcome before applied
  exact .change before applied

/-- **An entry is an exact difference in both directions.** Where a commit leads from a sound store to
another, doing the effects of its entry again leads from the first to the second and undoing them from
the end leads from the second to the first, with no effect refused. The effects are those of the changes
carried out on the way, and each old value is what the cell held just before, which is not the new one. -/
theorem entry_exact (p : Propagator) (g : Graph) {changes : List Change} {entry : Entry}
    (sound : s.Sound) (done : p.commit g s changes = (r, .ok entry)) :
    runSteps Effect.replay s entry.effects = (r, .ok ()) ∧
      runSteps Effect.revert r entry.effects.reverse = (s, .ok ()) ∧
      Performed s entry.effects r ∧
      ∀ earlier id row column old new later,
        entry.effects = earlier ++ .cell id row column (some old) new :: later →
        ∃ q, Overwrites s earlier id row column old new later r q := by
  have performed : Performed s entry.effects r := p.commit_keeps (kept_performed s) .nothing done
  obtain ⟨-, forth, back⟩ := performed.tracks sound
  refine ⟨forth, back, performed, ?_⟩
  intro earlier id row column old new later split
  exact performed.overwrites sound split

/-- One block makes a table and adds a row to it, another one overwrites the row. -/
def noting : List Block :=
  [⟨"mark", .onWatch, [.any ⟨3⟩], [⟨⟨3⟩, some ⟨4⟩⟩], fun _ => .ok
      [.set ⟨3⟩ 0 (.id ⟨4⟩) (.text "x")]⟩,
    ⟨"note", .onWatch, [.any ⟨1⟩], [.any ⟨3⟩], fun _ => .ok
      [.define ⟨3⟩ "log" [⟨"m", ⟨4⟩, .text⟩], .append ⟨3⟩ [[.text ""]]]⟩]

/-- An entry with a table, a row that consists of what empty cells hold, and a write to that row. -/
theorem entry_exact_created :
    oneCell.Sound ∧ ∃ r entry,
      (Propagator.ofCap 4).commit (.ofBlocks noting) oneCell [.append ⟨1⟩ [[.number .zero]]] =
        (r, .ok entry) ∧
      entry.effects = [.cell ⟨1⟩ 1 0 none (.number .zero),
        .created ⟨3⟩ "log" [⟨"m", ⟨4⟩, .text⟩], .cell ⟨3⟩ 0 0 none (.text ""),
        .cell ⟨3⟩ 0 0 (some (.text "")) (.text "x")] ∧
      runSteps Effect.replay oneCell entry.effects = (r, .ok ()) ∧
      runSteps Effect.revert r entry.effects.reverse = (oneCell, .ok ()) ∧
      ∃ q, Overwrites oneCell (entry.effects.take 3) ⟨3⟩ 0 0 (.text "") (.text "x") [] r q := by
  have done : ∃ r entry,
      (Propagator.ofCap 4).commit (.ofBlocks noting) oneCell [.append ⟨1⟩ [[.number .zero]]] =
        (r, .ok entry) ∧
      entry.effects = [.cell ⟨1⟩ 1 0 none (.number .zero),
        .created ⟨3⟩ "log" [⟨"m", ⟨4⟩, .text⟩], .cell ⟨3⟩ 0 0 none (.text ""),
        .cell ⟨3⟩ 0 0 (some (.text "")) (.text "x")] := by
    exact ⟨_, _, by cbv, rfl⟩
  obtain ⟨r, entry, committed, effects⟩ := done
  obtain ⟨forth, back, -, olds⟩ := entry_exact (.ofCap 4) (.ofBlocks noting) sound_oneCell committed
  have split : entry.effects =
      entry.effects.take 3 ++ [.cell ⟨3⟩ 0 0 (some (.text "")) (.text "x")] := by
    rw [effects]
    rfl
  exact ⟨sound_oneCell, r, entry, committed, effects, forth, back, olds _ _ _ _ _ _ _ split⟩

end Ripple
