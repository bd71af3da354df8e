import Ripple.Store

/-!
# Stores as maps from identifiers

What a store is to its users is the function `find?`. Here each change of a store is described
by what it does to that function, and a store whose tables are in ascending order is shown to be
determined by it: two such stores in which every identifier leads to the same table are equal.
-/

namespace Ripple.Store

/-! ## Tables after a change -/

theorem find?_place (t : Table) (tables : List Table) (id : Ident) :
    (place t tables).find? (·.id = id) = if t.id = id then some t else tables.find? (·.id = id) := by
  induction tables with
  | nil => by_cases here : t.id = id <;> simp [place, here]
  | cons u rest ih =>
    unfold place
    split
    · next same => by_cases here : t.id = id <;> simp [here, ← same]
    · next differ =>
      split
      · by_cases here : t.id = id <;> simp [here]
      · rw [List.find?_cons, List.find?_cons, ih]
        by_cases there : u.id = id
        · have elsewhere : t.id ≠ id := fun here => differ (here.trans there.symm)
          simp [there, elsewhere]
        · simp [there]

/-- After a table was put into a store, its identifier leads to it and the others lead where
they led before. -/
theorem find?_put (s : Store) (t : Table) (id : Ident) :
    (s.put t).find? id = if t.id = id then some t else s.find? id :=
  find?_place t s.tables id

/-- After a table was removed, its identifier leads nowhere and the others lead where they led
before. -/
theorem find?_erase (s : Store) (gone id : Ident) :
    (s.erase gone).find? id = if gone = id then none else s.find? id := by
  unfold find? erase
  rw [List.find?_filter]
  split
  · next same =>
    subst same
    exact List.find?_eq_none.2 fun t _ => by simp
  · next differ =>
    congr 1
    funext t
    by_cases here : t.id = id
    · simp [here, Ne.symm differ]
    · simp [here]

/-- The last table put under an identifier is the one that counts. -/
theorem place_place {t u : Table} (same : t.id = u.id) (tables : List Table) :
    place u (place t tables) = place u tables := by
  induction tables with
  | nil => simp [place, same]
  | cons v rest ih =>
    by_cases here : u.id = v.id
    · simp [place, same, here]
    · by_cases before : u.id < v.id <;> simp [place, same, here, before, ih]

theorem put_put (s : Store) {t u : Table} (same : t.id = u.id) : (s.put t).put u = s.put u :=
  congrArg Store.mk (place_place same s.tables)

theorem find?_empty (id : Ident) : empty.find? id = none := rfl

/-- A store contains the identifiers that lead to a table. -/
theorem contains_eq_isSome_find? (s : Store) (id : Ident) :
    s.contains id = (s.find? id).isSome := by
  rw [Bool.eq_iff_iff, contains, find?, List.any_eq_true, List.find?_isSome]

/-- The table that an identifier leads to has that identifier. -/
theorem id_of_find? {s : Store} {id : Ident} {t : Table} (h : s.find? id = some t) : t.id = id := by
  simpa using List.find?_some h

/-! ## Ascending order -/

/-- The tables stand in ascending order of their identifiers, so that no two have the same. -/
def Ascending (s : Store) : Prop := s.tables.Pairwise fun a b => a.id < b.id

theorem ascending_empty : empty.Ascending := List.Pairwise.nil

theorem ident_lt_of_not_le {a b : Ident} (differ : a ≠ b) (h : ¬ a < b) : b < a := by
  have raw : a.raw ≠ b.raw := fun same => differ (by cases a; cases b; exact congrArg Ident.mk same)
  exact UInt64.lt_of_le_of_ne (UInt64.not_lt.1 h) raw.symm

/-- Tables with different identifiers can be put in either order. -/
theorem place_comm {t u : Table} (apart : t.id ≠ u.id) (tables : List Table) :
    place t (place u tables) = place u (place t tables) := by
  have trans {a b c : Ident} : a < b → b < c → a < c := UInt64.lt_trans
  have irrefl {a : Ident} : ¬ a < a := UInt64.lt_irrefl _
  have total {a b : Ident} : a ≠ b → ¬ a < b → b < a := ident_lt_of_not_le
  induction tables with
  | nil => grind [place]
  | cons v rest ih => grind [place]

theorem put_comm (s : Store) {t u : Table} (apart : t.id ≠ u.id) :
    (s.put u).put t = (s.put t).put u :=
  congrArg Store.mk (place_comm apart s.tables)

theorem mem_place {t u : Table} {tables : List Table} (h : u ∈ place t tables) :
    u = t ∨ u ∈ tables := by
  induction tables with
  | nil => exact .inl (List.mem_singleton.1 h)
  | cons v rest ih =>
    unfold place at h
    split at h
    · rcases List.mem_cons.1 h with same | later
      · exact .inl same
      · exact .inr (List.mem_cons_of_mem v later)
    · split at h
      · exact List.mem_cons.1 h
      · rcases List.mem_cons.1 h with same | later
        · exact .inr (same ▸ List.mem_cons_self)
        · exact (ih later).imp id (List.mem_cons_of_mem v)

theorem pairwise_place (t : Table) {tables : List Table}
    (h : tables.Pairwise fun a b => a.id < b.id) :
    (place t tables).Pairwise fun a b => a.id < b.id := by
  induction tables with
  | nil => exact List.pairwise_singleton _ t
  | cons u rest ih =>
    obtain ⟨first, later⟩ := List.pairwise_cons.1 h
    unfold place
    split
    · next same => exact List.pairwise_cons.2 ⟨fun v member => same ▸ first v member, later⟩
    · next differ =>
      split
      · next before =>
        refine List.pairwise_cons.2 ⟨fun v member => ?_, h⟩
        rcases List.mem_cons.1 member with same | member
        · exact same ▸ before
        · exact UInt64.lt_trans before (first v member)
      · next notBefore =>
        refine List.pairwise_cons.2 ⟨fun v member => ?_, ih later⟩
        rcases mem_place member with same | member
        · exact same ▸ ident_lt_of_not_le differ notBefore
        · exact first v member

theorem ascending_put {s : Store} (h : s.Ascending) (t : Table) : (s.put t).Ascending :=
  pairwise_place t h

theorem ascending_erase {s : Store} (h : s.Ascending) (id : Ident) : (s.erase id).Ascending :=
  h.filter _

/-- The least identifier of an ascending list leads to its first table. -/
theorem find?_of_mem {tables : List Table} (h : tables.Pairwise fun a b => a.id < b.id) {t : Table}
    (member : t ∈ tables) : tables.find? (·.id = t.id) = some t := by
  induction tables with
  | nil => cases member
  | cons u rest ih =>
    obtain ⟨first, later⟩ := List.pairwise_cons.1 h
    rcases List.mem_cons.1 member with same | member
    · simp [same]
    · have differ : u.id ≠ t.id := fun same => UInt64.lt_irrefl _ (same ▸ first t member)
      rw [List.find?_cons_of_neg (by simpa using differ)]
      exact ih later member

theorem mem_tables_iff {s : Store} (h : s.Ascending) {t : Table} :
    t ∈ s.tables ↔ s.find? t.id = some t :=
  ⟨find?_of_mem h, List.mem_of_find?_eq_some⟩

theorem eq_of_mem_iff {xs ys : List Table} (hx : xs.Pairwise fun a b => a.id < b.id)
    (hy : ys.Pairwise fun a b => a.id < b.id) (same : ∀ t, t ∈ xs ↔ t ∈ ys) : xs = ys := by
  induction xs generalizing ys with
  | nil => exact (List.eq_nil_iff_forall_not_mem.2 fun t member => by simpa using (same t).2 member).symm
  | cons x xs ih =>
    obtain ⟨firstX, laterX⟩ := List.pairwise_cons.1 hx
    cases ys with
    | nil => simpa using (same x).1 List.mem_cons_self
    | cons y ys =>
      obtain ⟨firstY, laterY⟩ := List.pairwise_cons.1 hy
      have heads : x = y := by
        rcases List.mem_cons.1 ((same x).1 List.mem_cons_self) with found | inY
        · exact found
        · rcases List.mem_cons.1 ((same y).2 List.mem_cons_self) with found | inX
          · exact found.symm
          · exact absurd (UInt64.lt_trans (firstX y inX) (firstY x inY)) (UInt64.lt_irrefl _)
      subst heads
      have apart {zs : List Table} (first : ∀ z ∈ zs, x.id < z.id) : x ∉ zs := fun member =>
        UInt64.lt_irrefl _ (first x member)
      refine congrArg (x :: ·) (ih laterX laterY fun t => ⟨fun member => ?_, fun member => ?_⟩)
      · rcases List.mem_cons.1 ((same t).1 (List.mem_cons_of_mem x member)) with found | inY
        · exact absurd (found ▸ member) (apart firstX)
        · exact inY
      · rcases List.mem_cons.1 ((same t).2 (List.mem_cons_of_mem x member)) with found | inX
        · exact absurd (found ▸ member) (apart firstY)
        · exact inX

/-- Ascending stores are determined by the tables that identifiers lead to. -/
theorem eq_of_find?_eq {s r : Store} (hs : s.Ascending) (hr : r.Ascending)
    (h : ∀ id, s.find? id = r.find? id) : s = r := by
  have tables : s.tables = r.tables := eq_of_mem_iff hs hr fun t => by
    rw [mem_tables_iff hs, mem_tables_iff hr, h]
  cases s
  exact congrArg Store.mk tables

end Ripple.Store
