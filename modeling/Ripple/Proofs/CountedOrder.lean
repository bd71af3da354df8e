import Mathlib.Data.Finset.Card
import Ripple.Graph.Condensation
import Ripple.Proofs.ComponentOrder

/-!
Counting places components in the order in which `placeComponents` does, which looks at all edges anew
before each step. After some components were placed, the count of every component is the number of
those not placed yet that lead into it, and the queue holds those for which this is zero, the least
first (`Placing.Stands`). What is counted are the edges between components, each once
(`Condensation.Counts`), so that the counts come down to zero exactly when `isReady` holds.
-/

namespace Ripple.Graph

variable {succ : Successors} {count : Nat} {cs : List (List Nat)}

/-! ## Numbers of components -/

theorem numberNodes_eq (numbers : Nat → Nat) (c : List Nat) (i v : Nat) :
    numberNodes numbers (c, i) v = if v ∈ c then i else numbers v := by
  unfold numberNodes
  induction c generalizing numbers with
  | nil => simp
  | cons w c ih =>
    simp only [List.foldl_cons] at ih ⊢
    rw [ih]
    by_cases here : v = w <;> simp [assign, here]

theorem foldl_numberNodes_of_not_mem {v : Nat} (absent : ∀ c ∈ cs, v ∉ c) (first : Nat)
    (numbers : Nat → Nat) : (cs.zipIdx first).foldl numberNodes numbers v = numbers v := by
  induction cs generalizing first numbers with
  | nil => rfl
  | cons c cs ih =>
    obtain ⟨here, later⟩ := List.forall_mem_cons.mp absent
    rw [List.zipIdx_cons, List.foldl_cons, ih later, numberNodes_eq, if_neg here]

/-- Components without a node in common keep their numbers. -/
theorem componentNumbers_eq (apart : cs.Pairwise List.Disjoint) {i v : Nat} {c : List Nat}
    (there : cs[i]? = some c) (member : v ∈ c) : componentNumbers cs v = i := by
  have numbered (first : Nat) (numbers : Nat → Nat) :
      (cs.zipIdx first).foldl numberNodes numbers v = first + i := by
    induction cs generalizing i first numbers with
    | nil => simp at there
    | cons d cs ih =>
      obtain ⟨others, apart⟩ := List.pairwise_cons.mp apart
      rw [List.zipIdx_cons, List.foldl_cons]
      cases i with
      | zero =>
        obtain rfl : d = c := by simpa using there
        rw [foldl_numberNodes_of_not_mem fun e inRest twice => others e inRest member twice,
          numberNodes_eq, if_pos member]
        rfl
      | succ i =>
        rw [ih apart (by simpa using there)]
        omega
  simpa [componentNumbers] using numbered 0 _

/-- A component has one place only. -/
theorem Classes.place_eq (classes : Classes succ count cs) {i j : Nat} {c : List Nat}
    (first : cs[i]? = some c) (second : cs[j]? = some c) : i = j := by
  have inside := (List.getElem?_eq_some_iff.mp first).1
  exact (List.getElem?_inj inside classes.nodup).mp (first.trans second.symm)

/-! ## Edges between components -/

/-- The components that lead into one. -/
def sources (targets : Nat → List Nat) (size t : Nat) : Finset Nat :=
  (Finset.range size).filter fun c => t ∈ targets c

@[simp] theorem mem_sources {targets : Nat → List Nat} {size t c : Nat} :
    c ∈ sources targets size t ↔ c < size ∧ t ∈ targets c := by
  simp [sources]

namespace Condensation

variable {d : Condensation} {size source target : Nat} {edges : List (Nat × Nat)}

/-- The edges between different components are listed, each once, and counted where they lead. -/
structure Counts (size : Nat) (edges : List (Nat × Nat)) (d : Condensation) : Prop where
  mem_iff : ∀ c t, t ∈ d.targets c ↔ c ≠ t ∧ (c, t) ∈ edges
  nodup : ∀ c, (d.targets c).Nodup
  degrees : ∀ t < size, d.degrees[t]? = some (sources d.targets size t).card

theorem counts_start (size : Nat) : (start size).Counts size [] where
  mem_iff c t := by simp [start]
  nodup c := List.nodup_nil
  degrees t below := by simp [start, sources, below]

theorem mem_targets_link (c t : Nat) :
    t ∈ (d.link source target).targets c ↔
      t ∈ d.targets c ∨ source ≠ target ∧ c = source ∧ t = target := by
  unfold link
  split
  · next known =>
    refine ⟨.inl, ?_⟩
    rintro (old | ⟨differ, rfl, rfl⟩)
    · exact old
    · exact known.resolve_left differ
  · next fresh =>
    have differ := (not_or.mp fresh).1
    by_cases here : c = source <;> simp [assign, here, differ]

theorem Counts.link (counts : d.Counts size edges) (below : source < size) :
    (d.link source target).Counts size (edges ++ [(source, target)]) := by
  refine ⟨fun c t => ?_, fun c => ?_, fun t inside => ?_⟩
  · rw [mem_targets_link, counts.mem_iff, List.mem_append, List.mem_singleton, Prod.mk.injEq]
    constructor
    · rintro (⟨differ, old⟩ | ⟨differ, rfl, rfl⟩)
      · exact ⟨differ, .inl old⟩
      · exact ⟨differ, .inr ⟨rfl, rfl⟩⟩
    · rintro ⟨differ, old | ⟨rfl, rfl⟩⟩
      · exact .inl ⟨differ, old⟩
      · exact .inr ⟨differ, rfl, rfl⟩
  · unfold Condensation.link
    split
    · exact counts.nodup c
    · next fresh =>
      by_cases here : c = source
      · have absent : ∀ t ∈ d.targets source, t ≠ target := by
          rintro t old rfl
          exact fresh (.inr old)
        simpa [assign, here, List.nodup_append, counts.nodup] using absent
      · simpa [assign, here] using counts.nodup c
  · by_cases counted : source = target ∨ target ∈ d.targets source
    · rw [Condensation.link, if_pos counted]
      exact counts.degrees t inside
    · have fresh : source ∉ sources d.targets size target := by
        simpa [below] using (not_or.mp counted).2
      have differ := (not_or.mp counted).1
      have leading : sources (d.link source target).targets size t =
          if target = t then insert source (sources d.targets size t)
          else sources d.targets size t := by
        ext c
        rw [mem_sources, mem_targets_link]
        split
        · next same =>
          subst same
          rw [Finset.mem_insert, mem_sources]
          constructor
          · rintro ⟨inRange, old | ⟨-, here, -⟩⟩
            · exact .inr ⟨inRange, old⟩
            · exact .inl here
          · rintro (rfl | ⟨inRange, old⟩)
            · exact ⟨below, .inr ⟨differ, rfl, rfl⟩⟩
            · exact ⟨inRange, .inl old⟩
        · next other => simp [Ne.symm other]
      rw [leading, Condensation.link, if_neg counted]
      simp only [List.getElem?_modify, counts.degrees t inside]
      split
      · next same =>
        subst same
        rw [Finset.card_insert_of_notMem fresh]
        rfl
      · rfl

theorem Counts.foldl_link (counts : d.Counts size edges) {more : List (Nat × Nat)}
    (below : ∀ e ∈ more, e.1 < size) :
    (more.foldl (fun d e => d.link e.1 e.2) d).Counts size (edges ++ more) := by
  induction more generalizing d edges with
  | nil => simpa using counts
  | cons e more ih =>
    obtain ⟨first, later⟩ := List.forall_mem_cons.mp below
    have linked : (d.link e.1 e.2).Counts size (edges ++ [(e.1, e.2)]) := counts.link first
    simpa using ih linked later

end Condensation

/-- The numbers of the components between which the edges of the graph lead. -/
def numberedEdges (succ : Successors) (count : Nat) (cs : List (List Nat)) : List (Nat × Nat) :=
  (List.range count).flatMap fun v =>
    (succ v).map fun w => (componentNumbers cs v, componentNumbers cs w)

theorem exists_place (covered : ∀ v < count, ∃ c ∈ cs, v ∈ c) {v : Nat} (below : v < count) :
    ∃ (i : Nat) (c : List Nat), cs[i]? = some c ∧ v ∈ c := by
  obtain ⟨c, member, here⟩ := covered v below
  obtain ⟨i, there⟩ := List.getElem?_of_mem member
  exact ⟨i, c, there, here⟩

theorem condense_counts (classes : Classes succ count cs)
    (covered : ∀ v < count, ∃ c ∈ cs, v ∈ c) :
    (condense succ count cs).Counts cs.length (numberedEdges succ count cs) := by
  have listed : condense succ count cs =
      (numberedEdges succ count cs).foldl (fun d e => d.link e.1 e.2) (.start cs.length) := by
    simp only [condense, numberedEdges, List.foldl_flatMap, List.foldl_map]
  rw [listed]
  refine (Condensation.counts_start cs.length).foldl_link ?_
  intro e member
  obtain ⟨v, inRange, edge⟩ := List.mem_flatMap.mp member
  obtain ⟨w, -, rfl⟩ := List.mem_map.mp edge
  obtain ⟨i, c, there, here⟩ := exists_place covered (List.mem_range.mp inRange)
  rw [componentNumbers_eq classes.disjoint there here]
  exact (List.getElem?_eq_some_iff.mp there).1

/-- The targets of a component are the others that it leads into, each once. -/
structure Targets (succ : Successors) (cs : List (List Nat)) (targets : Nat → List Nat) : Prop where
  mem_iff : ∀ (i j : Nat) c, cs[i]? = some c →
    (j ∈ targets i ↔ ∃ d, cs[j]? = some d ∧ i ≠ j ∧ leadsInto succ c d)
  nodup : ∀ i, (targets i).Nodup

theorem targets_condense (bounded : Bounded succ count) (classes : Classes succ count cs)
    (covered : ∀ v < count, ∃ c ∈ cs, v ∈ c) : Targets succ cs (condense succ count cs).targets := by
  refine ⟨fun i j c first => ?_, (condense_counts classes covered).nodup⟩
  have number {k v : Nat} {e : List Nat} (there : cs[k]? = some e) (here : v ∈ e) :
      componentNumbers cs v = k := componentNumbers_eq classes.disjoint there here
  have leads {d : List Nat} : leadsInto succ c d ↔ ∃ v ∈ c, ∃ w ∈ succ v, w ∈ d := by
    simp [leadsInto]
  rw [(condense_counts classes covered).mem_iff]
  constructor
  · rintro ⟨differ, listed⟩
    obtain ⟨v, inRange, edge⟩ := List.mem_flatMap.mp listed
    obtain ⟨w, step, same⟩ := List.mem_map.mp edge
    obtain ⟨source, target⟩ := Prod.mk.inj same
    have below := List.mem_range.mp inRange
    obtain ⟨i', c', there, inC⟩ := exists_place covered below
    obtain ⟨j', d, there', inD⟩ := exists_place covered (bounded v below w step)
    obtain rfl : i' = i := (number there inC).symm.trans source
    obtain rfl : j' = j := (number there' inD).symm.trans target
    obtain rfl := Option.some.inj (first.symm.trans there)
    exact ⟨d, there', differ, leads.mpr ⟨v, inC, w, step, inD⟩⟩
  · rintro ⟨d, second, differ, leading⟩
    obtain ⟨v, inC, w, step, inD⟩ := leads.mp leading
    have below := (classes.isClass c (List.mem_of_getElem? first)).below v inC
    refine ⟨differ, List.mem_flatMap.mpr ⟨v, List.mem_range.mpr below, ?_⟩⟩
    exact List.mem_map.mpr ⟨w, step, Prod.ext (number first inC) (number second inD)⟩

/-! ## The queue -/

theorem enqueue_perm (entry : Nat × Nat) (queue : List (Nat × Nat)) :
    (enqueue entry queue).Perm (entry :: queue) := by
  induction queue with
  | nil => exact .refl _
  | cons other rest ih =>
    unfold enqueue
    split
    · exact .refl _
    · exact (ih.cons other).trans (.swap entry other rest)

theorem ascending_enqueue {queue : List (Nat × Nat)} (entry : Nat × Nat)
    (ascending : queue.Pairwise fun a b => a.1 ≤ b.1) :
    (enqueue entry queue).Pairwise fun a b => a.1 ≤ b.1 := by
  induction queue with
  | nil => exact List.pairwise_singleton _ _
  | cons other rest ih =>
    obtain ⟨first, later⟩ := List.pairwise_cons.mp ascending
    unfold enqueue
    split
    · next ahead =>
      have least : entry.1 ≤ other.1 := by omega
      refine List.pairwise_cons.mpr ⟨fun x member => ?_, ascending⟩
      rcases List.mem_cons.mp member with rfl | inRest
      · exact least
      · exact Nat.le_trans least (first x inRest)
    · next behind =>
      have least : other.1 ≤ entry.1 := by omega
      refine List.pairwise_cons.mpr ⟨fun x member => ?_, ih later⟩
      rcases List.mem_cons.mp ((enqueue_perm entry rest).mem_iff.mp member) with rfl | inRest
      · exact least
      · exact first x inRest

/-- The queue holds some components, each once and behind its least node, in ascending order. -/
structure Queues (cs : List (List Nat)) (waiting : Finset Nat) (queue : List (Nat × Nat)) :
    Prop where
  ascending : queue.Pairwise fun a b => a.1 ≤ b.1
  nodup : queue.Nodup
  mem_iff : ∀ e, e ∈ queue ↔ e.1 = leastNode cs e.2 ∧ e.2 ∈ waiting

namespace Queues

variable {waiting : Finset Nat} {queue : List (Nat × Nat)} {k c : Nat}

theorem nil (cs : List (List Nat)) : Queues cs ∅ [] := ⟨.nil, .nil, by simp⟩

theorem enqueue (queues : Queues cs waiting queue) (fresh : c ∉ waiting) :
    Queues cs (insert c waiting) (Ripple.Graph.enqueue (leastNode cs c, c) queue) where
  ascending := ascending_enqueue _ queues.ascending
  nodup := by
    rw [(enqueue_perm _ queue).nodup_iff, List.nodup_cons, queues.mem_iff]
    exact ⟨fun there => fresh there.2, queues.nodup⟩
  mem_iff e := by
    rw [(enqueue_perm _ queue).mem_iff, List.mem_cons, queues.mem_iff, Finset.mem_insert]
    constructor
    · rintro (rfl | ⟨least, there⟩)
      · exact ⟨rfl, .inl rfl⟩
      · exact ⟨least, .inr there⟩
    · rintro ⟨least, here | there⟩
      · exact .inl (Prod.ext (here ▸ least) here)
      · exact .inr ⟨least, there⟩

theorem foldl_enqueue {nodes : List Nat} (distinct : nodes.Nodup)
    (queues : Queues cs waiting queue) (fresh : ∀ c ∈ nodes, c ∉ waiting) :
    Queues cs (waiting ∪ nodes.toFinset)
      (nodes.foldl (fun ready c => Ripple.Graph.enqueue (leastNode cs c, c) ready) queue) := by
  induction nodes generalizing waiting queue with
  | nil => simpa using queues
  | cons c nodes ih =>
    obtain ⟨once, distinct⟩ := List.nodup_cons.mp distinct
    obtain ⟨here, later⟩ := List.forall_mem_cons.mp fresh
    have next := ih distinct (queues.enqueue here) fun d member => by
      rw [Finset.mem_insert, not_or]
      exact ⟨fun same => once (same ▸ member), later d member⟩
    rw [List.toFinset_cons, Finset.union_insert, ← Finset.insert_union]
    exact next

/-- The first entry is a component with the least node, and the others are behind it. -/
theorem uncons (queues : Queues cs waiting ((k, c) :: queue)) :
    c ∈ waiting ∧ (∀ d ∈ waiting, leastNode cs c ≤ leastNode cs d) ∧
      Queues cs (waiting.erase c) queue := by
  obtain ⟨first, ascending⟩ := List.pairwise_cons.mp queues.ascending
  obtain ⟨once, nodup⟩ := List.nodup_cons.mp queues.nodup
  obtain ⟨least, here⟩ := (queues.mem_iff (k, c)).mp List.mem_cons_self
  dsimp only at least here
  subst least
  refine ⟨here, ?_, ascending, nodup, ?_⟩
  · intro d there
    rcases List.mem_cons.mp ((queues.mem_iff (leastNode cs d, d)).mpr ⟨rfl, there⟩) with same | behind
    · obtain ⟨-, rfl⟩ := Prod.mk.inj same
      exact Nat.le_refl _
    · exact first _ behind
  · intro e
    have whole := queues.mem_iff e
    rw [List.mem_cons] at whole
    rw [Finset.mem_erase]
    constructor
    · intro behind
      obtain ⟨least, there⟩ := whole.mp (.inr behind)
      refine ⟨least, ?_, there⟩
      rintro rfl
      rw [← least] at once
      exact once behind
    · rintro ⟨least, differ, there⟩
      rcases whole.mpr ⟨least, there⟩ with rfl | behind
      · exact absurd rfl differ
      · exact behind

end Queues

/-! ## Counting down -/

namespace Placing

variable {targets : Nat → List Nat} {placed waiting : Finset Nat} {s : Placing} {left : Nat → Nat}

/-- The counts and the queue of a state. -/
structure Shows (cs : List (List Nat)) (left : Nat → Nat) (waiting : Finset Nat) (s : Placing) :
    Prop where
  degrees : ∀ t < cs.length, s.degrees[t]? = some (left t)
  queues : Queues cs waiting s.ready

theorem Shows.release (shows : s.Shows cs left waiting) {c : Nat} (below : c < cs.length)
    (counted : 0 < left c) (fresh : c ∉ waiting) :
    (s.release cs c).Shows cs (fun t => if t = c then left t - 1 else left t)
      (if left c = 1 then insert c waiting else waiting) := by
  obtain ⟨fewer, count⟩ := Nat.exists_eq_add_of_lt counted
  rw [Nat.zero_add] at count
  have found := shows.degrees c below
  rw [count] at found
  have inside : c < s.degrees.length := (List.getElem?_eq_some_iff.mp found).1
  have released : s.release cs c =
      ⟨s.degrees.set c fewer, if fewer = 0 then enqueue (leastNode cs c, c) s.ready else s.ready⟩ := by
    unfold Placing.release
    rw [found]
  rw [released]
  refine ⟨fun t inRange => ?_, ?_⟩
  · by_cases here : t = c
    · subst here
      simp [inside, count]
    · simp [here, Ne.symm here, shows.degrees t inRange]
  · by_cases last : fewer = 0
    · simpa [count, last] using shows.queues.enqueue fresh
    · simpa [count, last] using shows.queues

theorem Shows.foldl_release {ts : List Nat} (distinct : ts.Nodup)
    (shows : s.Shows cs left waiting) (below : ∀ t ∈ ts, t < cs.length)
    (counted : ∀ t ∈ ts, 0 < left t) (fresh : ∀ t ∈ ts, t ∉ waiting) :
    (ts.foldl (Placing.release cs) s).Shows cs (fun t => if t ∈ ts then left t - 1 else left t)
      (waiting ∪ ts.toFinset.filter fun t => left t = 1) := by
  induction ts generalizing s left waiting with
  | nil => simpa using shows
  | cons c ts ih =>
    obtain ⟨once, distinct⟩ := List.nodup_cons.mp distinct
    obtain ⟨belowC, below⟩ := List.forall_mem_cons.mp below
    obtain ⟨countedC, counted⟩ := List.forall_mem_cons.mp counted
    obtain ⟨freshC, fresh⟩ := List.forall_mem_cons.mp fresh
    have other {t : Nat} (member : t ∈ ts) : t ≠ c := fun same => once (same ▸ member)
    have next := ih distinct (shows.release belowC countedC freshC) below
      (fun t member => by simpa [other member] using counted t member)
      (fun t member => by
        split
        · simpa [other member] using fresh t member
        · exact fresh t member)
    rw [List.foldl_cons]
    convert next using 1
    · funext t
      by_cases here : t = c
      · subst here
        simp [once]
      · simp [here]
    · ext t
      by_cases here : t = c
      · subst here
        by_cases last : left t = 1 <;> simp [last, once]
      · by_cases last : left c = 1 <;> simp [last, here]

/-- The components that are not placed although all that lead into them are. -/
def free (targets : Nat → List Nat) (size : Nat) (placed : Finset Nat) : Finset Nat :=
  (Finset.range size).filter fun t => t ∉ placed ∧ sources targets size t ⊆ placed

/-- The count of each component is the number of those not placed yet that lead into it, and the free
ones are in the queue. -/
structure Stands (cs : List (List Nat)) (targets : Nat → List Nat) (placed : Finset Nat)
    (s : Placing) : Prop where
  shows : s.Shows cs (fun t => (sources targets cs.length t \ placed).card)
    (free targets cs.length placed)
  settled : ∀ t ∈ placed, sources targets cs.length t ⊆ placed

/-- When one more component is placed, those become free that only it was in the way of. -/
theorem free_insert {c size : Nat} (isFree : c ∈ free targets size placed)
    (irreflexive : c ∉ targets c) (below : ∀ t ∈ targets c, t < size)
    (settled : ∀ t ∈ placed, sources targets size t ⊆ placed) :
    free targets size (insert c placed) =
      (free targets size placed).erase c ∪
        (targets c).toFinset.filter fun t => (sources targets size t \ placed).card = 1 := by
  obtain ⟨inRange, unplaced, -⟩ : c < size ∧ c ∉ placed ∧ _ := by simpa [free] using isFree
  ext t
  simp only [free, Finset.mem_union, Finset.mem_erase, Finset.mem_filter, Finset.mem_range,
    List.mem_toFinset, Finset.mem_insert, not_or]
  constructor
  · rintro ⟨inside, ⟨differ, open_⟩, ready⟩
    by_cases target : t ∈ targets c
    · refine .inr ⟨target, Finset.card_eq_one.mpr ⟨c, ?_⟩⟩
      ext x
      rw [Finset.mem_sdiff, Finset.mem_singleton]
      constructor
      · rintro ⟨leads, fresh⟩
        exact (Finset.mem_insert.mp (ready leads)).resolve_right fresh
      · rintro rfl
        exact ⟨mem_sources.mpr ⟨inRange, target⟩, unplaced⟩
    · refine .inl ⟨differ, inside, open_, fun x leads => ?_⟩
      rcases Finset.mem_insert.mp (ready leads) with rfl | old
      · exact absurd (mem_sources.mp leads).2 target
      · exact old
  · rintro (⟨differ, inside, open_, ready⟩ | ⟨target, last⟩)
    · exact ⟨inside, ⟨differ, open_⟩, ready.trans (Finset.subset_insert _ _)⟩
    · have leads : c ∈ sources targets size t := mem_sources.mpr ⟨inRange, target⟩
      obtain ⟨only, single⟩ := Finset.card_eq_one.mp last
      have here : c ∈ sources targets size t \ placed := Finset.mem_sdiff.mpr ⟨leads, unplaced⟩
      obtain rfl : c = only := Finset.mem_singleton.mp (single ▸ here)
      refine ⟨below t target, ⟨?_, fun old => unplaced (settled t old leads)⟩, fun x source => ?_⟩
      · rintro rfl
        exact irreflexive target
      · rw [Finset.mem_insert, or_iff_not_imp_right]
        intro fresh
        exact Finset.mem_singleton.mp (single ▸ Finset.mem_sdiff.mpr ⟨source, fresh⟩)

/-- Placing the first component of the queue counts down those that it leads into. -/
theorem Stands.place (stands : s.Stands cs targets placed)
    {k c : Nat} {rest : List (Nat × Nat)} (queue : s.ready = (k, c) :: rest)
    (distinct : (targets c).Nodup) (irreflexive : c ∉ targets c)
    (below : ∀ t ∈ targets c, t < cs.length) :
    ((targets c).foldl (release cs) ⟨s.degrees, rest⟩).Stands cs targets (insert c placed) := by
  have queues := stands.shows.queues
  rw [queue] at queues
  obtain ⟨isFree, -, others⟩ := queues.uncons
  obtain ⟨inRange, unplaced, ready⟩ : c < cs.length ∧ c ∉ placed ∧ _ := by
    simpa [free] using isFree
  have leads {t : Nat} : c ∈ sources targets cs.length t \ placed ↔ t ∈ targets c := by
    simp [inRange, unplaced]
  have shows : Shows cs (fun t => (sources targets cs.length t \ placed).card)
      ((free targets cs.length placed).erase c) ⟨s.degrees, rest⟩ :=
    ⟨stands.shows.degrees, others⟩
  have counted : ∀ t ∈ targets c, 0 < (sources targets cs.length t \ placed).card :=
    fun t target => Finset.card_pos.mpr ⟨c, leads.mpr target⟩
  have waits : ∀ t ∈ targets c, t ∉ (free targets cs.length placed).erase c := by
    intro t target there
    have all : sources targets cs.length t ⊆ placed :=
      (Finset.mem_filter.mp (Finset.mem_erase.mp there).2).2.2
    exact unplaced (all (Finset.mem_sdiff.mp (leads.mpr target)).1)
  have next := shows.foldl_release distinct below counted waits
  refine ⟨?_, ?_⟩
  · convert next using 1
    · funext t
      rw [Finset.sdiff_insert, Finset.card_erase_eq_ite]
      simp only [leads]
    · exact free_insert isFree irreflexive below stands.settled
  · intro t member
    rcases Finset.mem_insert.mp member with rfl | old
    · exact ready.trans (Finset.subset_insert _ _)
    · exact (stands.settled t old).trans (Finset.subset_insert _ _)

theorem start_stands {d : Condensation} {edges : List (Nat × Nat)}
    (counts : d.Counts cs.length edges) : (start cs d.degrees).Stands cs d.targets ∅ where
  shows.degrees t below := by simpa [start] using counts.degrees t below
  shows.queues := by
    have distinct : ((List.range cs.length).filter (d.degrees.getD · 0 = 0)).Nodup :=
      List.nodup_range.filter _
    convert (Queues.nil cs).foldl_enqueue distinct (by simp) using 1
    swap
    · rfl
    ext t
    simp only [free, Finset.mem_filter, Finset.mem_range, Finset.notMem_empty, not_false_eq_true,
      true_and, Finset.subset_empty, Finset.mem_union, false_or, List.mem_toFinset, List.mem_filter,
      List.mem_range, decide_eq_true_eq]
    refine and_congr_right fun below => ?_
    rw [List.getD_eq_getElem?_getD, counts.degrees t below, Option.getD_some, Finset.card_eq_zero]
  settled t none := by simp at none

/-- A component is ready among those not placed when all that lead into it are placed. -/
theorem isReady_iff (classes : Classes succ count cs)
    (leads : Targets succ cs targets)
    {unplaced : List (List Nat)}
    (rest : ∀ d, d ∈ unplaced ↔ ∃ i : Nat, i ∉ placed ∧ cs[i]? = some d) {t : Nat} {c : List Nat}
    (there : cs[t]? = some c) : isReady succ unplaced c ↔ sources targets cs.length t ⊆ placed := by
  unfold isReady
  simp only [List.all_eq_true, Bool.or_eq_true, decide_eq_true_eq, Bool.not_eq_true']
  constructor
  · intro ready x source
    obtain ⟨below, target⟩ := mem_sources.mp source
    by_contra fresh
    have found := List.getElem?_eq_getElem below
    obtain ⟨d, there', differ, leading⟩ := (leads.mem_iff x t _ found).mp target
    obtain rfl := Option.some.inj (there.symm.trans there')
    rcases ready cs[x] ((rest _).mpr ⟨x, fresh, found⟩) with same | none
    · exact differ (classes.place_eq (same ▸ found) there)
    · exact absurd leading (by simp [none])
  · intro ready d member
    obtain ⟨i, fresh, found⟩ := (rest d).mp member
    refine or_iff_not_imp_left.mpr fun differ => Bool.eq_false_iff.mpr fun leading => fresh ?_
    refine ready (mem_sources.mpr ⟨(List.getElem?_eq_some_iff.mp found).1, ?_⟩)
    refine (leads.mem_iff i t d found).mpr ⟨c, there, ?_, leading⟩
    rintro rfl
    exact differ (Option.some.inj (found.symm.trans there))

/-- A component that is ready is in the queue. -/
theorem Stands.mem_ready (stands : s.Stands cs targets placed) (classes : Classes succ count cs)
    (leads : Targets succ cs targets)
    {unplaced : List (List Nat)}
    (rest : ∀ d, d ∈ unplaced ↔ ∃ i : Nat, i ∉ placed ∧ cs[i]? = some d) {c : List Nat}
    (member : c ∈ unplaced) (ready : isReady succ unplaced c) :
    ∃ t, cs[t]? = some c ∧ (leastNode cs t, t) ∈ s.ready := by
  obtain ⟨t, fresh, there⟩ := (rest c).mp member
  refine ⟨t, there, (stands.shows.queues.mem_iff _).mpr ⟨rfl, Finset.mem_filter.mpr ⟨?_, fresh, ?_⟩⟩⟩
  · exact Finset.mem_range.mpr (List.getElem?_eq_some_iff.mp there).1
  · exact (isReady_iff classes leads rest there).mp ready

/-- Of the components that are ready the one at the head of the queue has the least node. -/
theorem Stands.find?_isReady (stands : s.Stands cs targets placed) (classes : Classes succ count cs)
    (leads : Targets succ cs targets)
    {unplaced : List (List Nat)} (sorted : unplaced.Pairwise fun a b => a.headD 0 < b.headD 0)
    (rest : ∀ d, d ∈ unplaced ↔ ∃ i : Nat, i ∉ placed ∧ cs[i]? = some d)
    {k c : Nat} {behind : List (Nat × Nat)} (queue : s.ready = (k, c) :: behind) :
    ∃ d, cs[c]? = some d ∧ unplaced.find? (isReady succ unplaced) = some d := by
  have queues := stands.shows.queues
  rw [queue] at queues
  obtain ⟨isFree, least, -⟩ := queues.uncons
  obtain ⟨inRange, fresh, ready⟩ : c < cs.length ∧ c ∉ placed ∧ _ := by simpa [free] using isFree
  have there := List.getElem?_eq_getElem inRange
  have member : cs[c] ∈ unplaced := (rest _).mpr ⟨c, fresh, there⟩
  obtain ⟨before, after, split⟩ := List.append_of_mem member
  refine ⟨cs[c], there, List.find?_eq_some_iff_append.mpr
    ⟨(isReady_iff classes leads rest there).mpr ready, before, after, split, ?_⟩⟩
  intro d earlier
  rw [Bool.not_eq_true', Bool.eq_false_iff]
  intro other
  have inside : d ∈ unplaced := split ▸ List.mem_append_left _ earlier
  obtain ⟨t, there', waits⟩ := stands.mem_ready classes leads rest inside other
  have more := least t ((stands.shows.queues.mem_iff _).mp waits).2
  rw [split] at sorted
  have fewer := (List.pairwise_append.mp sorted).2.2 d earlier _ List.mem_cons_self
  simp only [leastNode, List.getD_eq_getElem?_getD, there, there', Option.getD_some] at more
  omega

/-- Without a component there are left those that are not placed when it is. -/
theorem mem_erase_iff_unplaced (classes : Classes succ count cs) {unplaced : List (List Nat)}
    (once : unplaced.Nodup) (rest : ∀ d, d ∈ unplaced ↔ ∃ i : Nat, i ∉ placed ∧ cs[i]? = some d)
    {c : Nat} {d : List Nat} (there : cs[c]? = some d) (e : List Nat) :
    e ∈ unplaced.erase d ↔ ∃ i : Nat, i ∉ insert c placed ∧ cs[i]? = some e := by
  rw [once.mem_erase_iff, rest]
  constructor
  · rintro ⟨differ, i, old, found⟩
    refine ⟨i, Finset.mem_insert.not.mpr (not_or.mpr ⟨?_, old⟩), found⟩
    rintro rfl
    exact differ (Option.some.inj (found.symm.trans there))
  · rintro ⟨i, old, found⟩
    obtain ⟨differ, old⟩ := not_or.mp (Finset.mem_insert.not.mp old)
    refine ⟨?_, i, old, found⟩
    rintro rfl
    exact differ (classes.place_eq found there)

/-- From every state that placing comes to, counting places what `placeComponents` does. -/
theorem run_eq_placeComponents (classes : Classes succ count cs)
    (leads : Targets succ cs targets)
    (stands : s.Stands cs targets placed)
    {unplaced : List (List Nat)} (sorted : unplaced.Pairwise fun a b => a.headD 0 < b.headD 0)
    (rest : ∀ d, d ∈ unplaced ↔ ∃ i : Nat, i ∉ placed ∧ cs[i]? = some d) :
    run cs targets s = placeComponents succ unplaced := by
  fun_induction run cs targets s generalizing placed unplaced with
  | case1 s queue =>
    unfold placeComponents
    split
    · rfl
    · next c chosen =>
      obtain ⟨t, -, waits⟩ := stands.mem_ready classes leads rest (List.mem_of_find?_eq_some chosen)
        (List.find?_some chosen)
      rw [queue] at waits
      cases waits
  | case2 s k c behind queue ih =>
    obtain ⟨d, there, chosen⟩ := stands.find?_isReady classes leads sorted rest queue
    have below : ∀ t ∈ targets c, t < cs.length := by
      intro t target
      obtain ⟨d, there', -, -⟩ := (leads.mem_iff c t _ there).mp target
      exact (List.getElem?_eq_some_iff.mp there').1
    have irreflexive : c ∉ targets c := by
      intro target
      obtain ⟨d, -, differ, -⟩ := (leads.mem_iff c c _ there).mp target
      exact differ rfl
    have once : unplaced.Nodup := by
      refine sorted.imp ?_
      rintro a b fewer rfl
      exact Nat.lt_irrefl _ fewer
    rw [placeComponents, chosen, List.getD_eq_getElem?_getD, there, Option.getD_some]
    exact congrArg (d ++ ·) (ih (stands.place queue (leads.nodup c) irreflexive below)
      (sorted.sublist List.erase_sublist) (mem_erase_iff_unplaced classes once rest there))

end Placing

/-- Counting places all components in the evaluation order. -/
theorem condensationOrder_eq (bounded : Bounded succ count) :
    condensationOrder succ count (components succ count) = evaluationOrder succ count := by
  obtain ⟨classes, covered⟩ := components_classes bounded
  have counts := condense_counts classes covered
  refine Placing.run_eq_placeComponents classes (targets_condense bounded classes covered)
    (Placing.start_stands counts) (byLeast_sorted bounded) fun d => ?_
  rw [(List.mergeSort_perm _ _).mem_iff, List.mem_iff_getElem?]
  simp

end Ripple.Graph
