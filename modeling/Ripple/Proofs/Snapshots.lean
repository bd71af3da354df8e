import Ripple.Proofs.Atomicity

/-!
A history beside the states it stands for. `Linked` says that every entry lies exactly between two
neighbouring states of a list, and `Shows` that a store is the one at the cursor. Moving the cursor
then never fails on the way and reaches the state at its end; recording an entry drops the states
after the cursor, or the oldest ones, and leaves the others linked.
-/

namespace Ripple

/-- Each entry lies exactly between two neighbouring states, all of which are sound. -/
structure Linked (states : List Store) (entries : List Entry) : Prop where
  /-- There is one state more than there are entries. -/
  length : states.length = entries.length + 1
  sound : ∀ s ∈ states, s.Sound
  between : ∀ i entry s r, entries[i]? = some entry → states[i]? = some s →
    states[i + 1]? = some r → Diff s entry.effects r

variable {states : List Store} {entries : List Entry} {s r : Store} {h : History}

private theorem getElem?_of_take {α : Type} {l : List α} {n i : Nat} {a : α}
    (there : (l.take n)[i]? = some a) : l[i]? = some a := by
  rw [List.getElem?_take] at there
  split at there
  · exact there
  · cases there

/-- Each entry leads from a state to the next one, in whichever sense. -/
def Neighbours (leads : Store → List Effect → Store → Prop) (states : List Store)
    (entries : List Entry) : Prop :=
  ∀ i entry s r, entries[i]? = some entry → states[i]? = some s → states[i + 1]? = some r →
    leads s entry.effects r

namespace Neighbours

variable {leads : Store → List Effect → Store → Prop}

theorem take (neighbours : Neighbours leads states entries) (n : Nat) :
    Neighbours leads (states.take (n + 1)) (entries.take n) := by
  intro i entry s r at_i before after
  exact neighbours i entry s r (getElem?_of_take at_i) (getElem?_of_take before)
    (getElem?_of_take after)

theorem drop (neighbours : Neighbours leads states entries) (n : Nat) :
    Neighbours leads (states.drop n) (entries.drop n) := by
  intro i entry s r at_i before after
  rw [List.getElem?_drop] at at_i before after
  exact neighbours (n + i) entry s r at_i before after

theorem concat (neighbours : Neighbours leads states entries)
    (length : states.length = entries.length + 1) {entry : Entry}
    (newest : states[entries.length]? = some s) (last : leads s entry.effects r) :
    Neighbours leads (states ++ [r]) (entries ++ [entry]) := by
  intro i e a b at_i before after
  rcases Nat.lt_trichotomy i entries.length with inner | rfl | outer
  · rw [List.getElem?_append_left (by omega)] at at_i before after
    exact neighbours i e a b at_i before after
  · rw [List.getElem?_append_left (by omega), newest] at before
    rw [List.getElem?_concat_length] at at_i
    rw [← length, List.getElem?_concat_length] at after
    cases at_i
    cases before
    cases after
    exact last
  · rw [List.getElem?_eq_none (by simp; omega)] at at_i
    cases at_i

end Neighbours

namespace Linked

theorem neighbours (linked : Linked states entries) : Neighbours Diff states entries :=
  linked.between

theorem single (sound : s.Sound) : Linked [s] [] where
  length := rfl
  sound q member := by
    obtain rfl := List.mem_singleton.mp member
    exact sound
  between i entry s r there := by cases there

/-- The states up to a position are linked by the entries before it. -/
theorem take (linked : Linked states entries) {n : Nat} (inside : n ≤ entries.length) :
    Linked (states.take (n + 1)) (entries.take n) where
  length := by
    rw [List.length_take, List.length_take, linked.length]
    omega
  sound s member := linked.sound s (List.mem_of_mem_take member)
  between := linked.neighbours.take n

/-- The states from a position on are linked by the entries after it. -/
theorem drop (linked : Linked states entries) {n : Nat} (inside : n ≤ entries.length) :
    Linked (states.drop n) (entries.drop n) where
  length := by
    rw [List.length_drop, List.length_drop, linked.length]
    omega
  sound s member := linked.sound s (List.mem_of_mem_drop member)
  between := linked.neighbours.drop n

/-- A state is added after the newest one together with the entry that leads to it. -/
theorem concat (linked : Linked states entries) {entry : Entry}
    (newest : states[entries.length]? = some s) (tracks : Tracks s r entry.effects) :
    Linked (states ++ [r]) (entries ++ [entry]) where
  length := by simp [linked.length]
  sound q member := by
    rcases List.mem_append.mp member with old | new
    · exact linked.sound q old
    · obtain rfl := List.mem_singleton.mp new
      exact tracks.1
  between := linked.neighbours.concat linked.length newest tracks.2

end Linked

/-! ## Moving the cursor -/

/-- The store is the state at the cursor, and the entries link all states. -/
structure Shows (states : List Store) (h : History) (s : Store) : Prop where
  linked : Linked states h.entries
  shown : states[h.cursor]? = some s

namespace Shows

theorem cursor_le (view : Shows states h s) : h.cursor ≤ h.size := by
  obtain ⟨inside, -⟩ := List.getElem?_eq_some_iff.mp view.shown
  have length := view.linked.length
  unfold History.size
  omega

theorem sound (view : Shows states h s) : s.Sound :=
  view.linked.sound s (List.mem_of_getElem? view.shown)

/-- There is a state at every position up to the newest one. -/
theorem exists_state (view : Shows states h s) {position : Nat} (inside : position ≤ h.size) :
    ∃ r, states[position]? = some r := by
  have length := view.linked.length
  unfold History.size at inside
  exact ⟨_, List.getElem?_eq_getElem (by omega)⟩

theorem at_cursor (view : Shows states h s) {position : Nat}
    (reached : states[position]? = some r) : Shows states { h with cursor := position } r :=
  ⟨view.linked, reached⟩

/-- Going back from a later position reaches the state before it. -/
theorem back (view : Shows states h s) {position : Nat} (later : h.cursor = position + 1)
    (reached : states[position]? = some r) :
    h.back s = ({ h with cursor := position }, r, .ok ()) := by
  have inside : position < h.entries.length := by
    have bound := view.cursor_le
    unfold History.size at bound
    omega
  have there := List.getElem?_eq_getElem inside
  have shown : states[position + 1]? = some s := later ▸ view.shown
  have diff := view.linked.between _ _ _ _ there reached shown
  simp [History.back, History.current?, later, inside, diff.back]

/-- Going forward reaches the state after the one at the cursor. -/
theorem forward (view : Shows states h s) (inside : h.cursor < h.size)
    (reached : states[h.cursor + 1]? = some r) :
    h.forward s = ({ h with cursor := h.cursor + 1 }, r, .ok ()) := by
  have there := List.getElem?_eq_getElem (l := h.entries) inside
  have diff := view.linked.between _ _ _ _ there view.shown reached
  simp only [History.forward, there, diff.forth]

theorem back_of_cursor_eq_zero (oldest : h.cursor = 0) : h.back s = (h, s, .error .atOldest) := by
  simp [History.back, History.current?, oldest]

theorem forward_of_size_le (newest : h.size ≤ h.cursor) :
    h.forward s = (h, s, .error .atNewest) := by
  simp only [History.forward, List.getElem?_eq_none newest]

theorem repeat_back (view : Shows states h s) {count : Nat} (enough : count ≤ h.cursor)
    (reached : states[h.cursor - count]? = some r) :
    History.repeatMove History.back count h s =
      ({ h with cursor := h.cursor - count }, r, .ok ()) := by
  induction count generalizing h s with
  | zero =>
    obtain rfl := Option.some.inj (view.shown.symm.trans reached)
    rfl
  | succ count ih =>
    have inside : h.cursor - 1 ≤ h.size := Nat.le_trans (Nat.sub_le ..) view.cursor_le
    have later : h.cursor = h.cursor - 1 + 1 := by omega
    obtain ⟨middle, there⟩ := view.exists_state inside
    have step := view.back later there
    have rest := ih (view.at_cursor there) (Nat.le_sub_of_add_le enough)
      (by rw [Nat.sub_sub, Nat.add_comm 1]; exact reached)
    simp only [History.repeatMove, step, rest, Nat.sub_sub, Nat.add_comm 1]

theorem repeat_forward (view : Shows states h s) {count : Nat}
    (enough : h.cursor + count ≤ h.size) (reached : states[h.cursor + count]? = some r) :
    History.repeatMove History.forward count h s =
      ({ h with cursor := h.cursor + count }, r, .ok ()) := by
  induction count generalizing h s with
  | zero =>
    obtain rfl := Option.some.inj (view.shown.symm.trans reached)
    rfl
  | succ count ih =>
    have inside : h.cursor + 1 ≤ h.size := by omega
    have enough : h.cursor + 1 + count ≤ h.size := by omega
    obtain ⟨middle, there⟩ := view.exists_state inside
    have step := view.forward inside there
    have rest := ih (view.at_cursor there) enough
      (by rw [Nat.add_assoc, Nat.add_comm 1]; exact reached)
    simp only [History.repeatMove, step, rest, Nat.add_assoc, Nat.add_comm 1]

/-- Every position up to the newest one is reached, and its state is then shown. -/
theorem seek (view : Shows states h s) {position : Nat} (inside : position ≤ h.size)
    (reached : states[position]? = some r) :
    h.seek s position = ({ h with cursor := position }, r, .ok ()) := by
  unfold History.seek
  rw [if_neg (by omega)]
  split
  · next earlier =>
    have landing : h.cursor - (h.cursor - position) = position := by omega
    rw [view.repeat_back (Nat.sub_le ..) (landing ▸ reached), landing]
  · next later =>
    have landing : h.cursor + (position - h.cursor) = position := by omega
    rw [view.repeat_forward (by omega) (landing ▸ reached), landing]

end Shows

/-! ## Recording -/

/-- How many of so many entries are dropped when a limit is kept to. -/
def excess (limit : Option Nat) (count : Nat) : Nat :=
  match limit with
  | none => 0
  | some limit => count - limit

theorem excess_le (limit : Option Nat) (count : Nat) : excess limit count ≤ count := by
  unfold excess
  split <;> omega

namespace History

theorem evict_eq (h : History) :
    h.evict = { h with
      entries := h.entries.drop (excess h.limit h.size)
      cursor := h.cursor - excess h.limit h.size } := by
  obtain ⟨entries, cursor, paused, limit, nextSeq⟩ := h
  cases limit with
  | none => simp [evict, excess]
  | some limit => rfl

/-- Recording drops the entries after the cursor, adds one and drops those beyond the limit. -/
theorem record_eq (entry : Entry) (inside : h.cursor ≤ h.size) :
    (h.record entry).1 =
      { h with
        entries := (h.entries.take h.cursor ++ [{ entry with seq := h.nextSeq }]).drop
          (excess h.limit (h.cursor + 1))
        cursor := h.cursor + 1 - excess h.limit (h.cursor + 1)
        nextSeq := h.nextSeq + 1 } := by
  have kept : (h.entries.take h.cursor ++ [{ entry with seq := h.nextSeq }]).length =
      h.cursor + 1 := by
    unfold size at inside
    simp [inside]
  simp only [record, evict_eq, size, kept]

/-- From the size before and after recording at the newest entry it can be seen how many entries
were dropped. -/
theorem dropped_of_record (h : History) (entry : Entry) :
    h.size + 1 - (record { h with cursor := h.size } entry).1.size =
      excess h.limit (h.size + 1) := by
  have bound := excess_le h.limit (h.size + 1)
  have equation := record_eq (h := { h with cursor := h.size }) entry (Nat.le_refl _)
  unfold size at bound equation ⊢
  rw [equation]
  simp
  omega

end History

/-- A recorded entry leads from the state at the cursor to the one that is newest then. -/
theorem Shows.record (view : Shows states h s) {entry : Entry}
    (tracks : Tracks s r entry.effects) :
    Shows ((states.take (h.cursor + 1) ++ [r]).drop (excess h.limit (h.cursor + 1)))
      (h.record entry).1 r := by
  have inside := view.cursor_le
  have length := view.linked.length
  unfold History.size at inside
  have cut := view.linked.take inside
  have count : (h.entries.take h.cursor).length = h.cursor := by simp [inside]
  have newest : (states.take (h.cursor + 1))[(h.entries.take h.cursor).length]? = some s := by
    rw [count, List.getElem?_take_of_lt (Nat.lt_succ_self _)]
    exact view.shown
  have longer : Linked (states.take (h.cursor + 1) ++ [r])
      (h.entries.take h.cursor ++ [{ entry with seq := h.nextSeq }]) := cut.concat newest tracks
  have bound := excess_le h.limit (h.cursor + 1)
  rw [History.record_eq entry inside]
  constructor
  · exact longer.drop (by simpa [inside] using bound)
  · dsimp only
    rw [List.getElem?_drop, Nat.add_sub_cancel' bound]
    have last : (states.take (h.cursor + 1)).length = h.cursor + 1 := by rw [cut.length, count]
    simpa only [last] using
      List.getElem?_concat_length (l := states.take (h.cursor + 1)) (a := r)

/-- Recording at the newest entry keeps all states and adds one, up to the limit. -/
theorem Shows.recordBehind (view : Shows states h s) {newest : Store} {entry : Entry}
    (reached : states[h.size]? = some newest) (tracks : Tracks newest r entry.effects) :
    Shows ((states ++ [r]).drop (excess h.limit (h.size + 1)))
      (History.record { h with cursor := h.size } entry).1 r := by
  have whole := (view.at_cursor reached).record tracks
  have count : states.length = h.size + 1 := view.linked.length
  rwa [List.take_of_length_le (Nat.le_of_eq count)] at whole

end Ripple
