import Ripple.Proofs.LowLinks

/-!
The two searches complete the same components in the same order. The search by low links leaves
nodes in the order in which the recursive search finishes them: its frames are what the recursive
search still has to do (`resume`). A node that is left with its component is the last of it to be
finished, and this is the one by which `components` lists the component.
-/

namespace Ripple.Graph

variable {succ : Successors} {count : Nat} {v w : Nat}

/-! ## The recursive search -/

theorem visit_of_seen {trail : Trail} (depth : Nat) (seen : v ∈ trail.seen) :
    visit succ depth trail v = trail := by
  cases depth with
  | zero => rfl
  | succ depth => exact if_pos seen

theorem seen_of_unseen_eq_zero {trail : Trail} (none : unseen count trail ≤ 0) (below : v < count) :
    v ∈ trail.seen := by
  simpa using List.countP_eq_zero.mp (Nat.le_zero.mp none) v (List.mem_range.mpr below)

theorem foldl_visit_depth {depth other : Nat}
    (same : ∀ trail v, unseen count trail ≤ depth → unseen count trail ≤ other → v < count →
      visit succ depth trail v = visit succ other trail v)
    {nodes : List Nat} (inside : ∀ v ∈ nodes, v < count) {trail : Trail}
    (enough : unseen count trail ≤ depth) (enoughToo : unseen count trail ≤ other) :
    nodes.foldl (visit succ depth) trail = nodes.foldl (visit succ other) trail := by
  induction nodes generalizing trail with
  | nil => rfl
  | cons v nodes ih =>
    obtain ⟨below, inside⟩ := List.forall_mem_cons.mp inside
    have fewer := @unseen_le count _ _ (@grows_visit succ other trail v)
    rw [List.foldl_cons, List.foldl_cons, same trail v enough enoughToo below]
    exact ih inside (Nat.le_trans fewer enough) (Nat.le_trans fewer enoughToo)

/-- How deep a search may go does not matter if it is as deep as there are unseen nodes. -/
theorem visit_depth (bounded : Bounded succ count) (depth other : Nat) (trail : Trail) (v : Nat)
    (enough : unseen count trail ≤ depth) (enoughToo : unseen count trail ≤ other)
    (below : v < count) : visit succ depth trail v = visit succ other trail v := by
  induction depth generalizing other trail v with
  | zero =>
    have seen := seen_of_unseen_eq_zero enough below
    rw [visit_of_seen _ seen, visit_of_seen _ seen]
  | succ depth ih =>
    cases other with
    | zero =>
      have seen := seen_of_unseen_eq_zero enoughToo below
      rw [visit_of_seen _ seen, visit_of_seen _ seen]
    | succ other =>
      unfold visit
      split
      · rfl
      · next fresh =>
        have fewer := unseen_enter below fresh
        rw [foldl_visit_depth (fun trail v => ih other trail v) (bounded v below) (by omega)
          (by omega)]

/-- A new node is entered, its edges are taken, and it is left. -/
theorem visit_of_fresh (bounded : Bounded succ count) {trail : Trail} (below : v < count)
    (fresh : v ∉ trail.seen) :
    visit succ count trail v =
      let after := (succ v).foldl (visit succ count) ⟨v :: trail.seen, trail.finished⟩
      ⟨after.seen, v :: after.finished⟩ := by
  have fewer := unseen_enter below fresh
  have all := @unseen_le_count count trail
  rw [visit_depth bounded count (count + 1) trail v all (Nat.le_succ_of_le all) below]
  exact if_neg fresh

/-- What the recursive search does with frames that are left to it. -/
def resume (succ : Successors) (count : Nat) : List Frame → Trail → Trail
  | [], trail => trail
  | frame :: frames, trail =>
    let after := frame.rest.foldl (visit succ count) trail
    resume succ count frames ⟨after.seen, frame.node :: after.finished⟩

theorem resume_enter (bounded : Bounded succ count) {frames : List Frame} {trail : Trail}
    (below : v < count) (fresh : v ∉ trail.seen) :
    resume succ count (⟨v, succ v⟩ :: frames) ⟨v :: trail.seen, trail.finished⟩ =
      resume succ count frames (visit succ count trail v) := by
  rw [visit_of_fresh bounded below fresh]
  rfl

/-! ## Listing by the last node -/

/-- A class in ascending order is listed by any of its nodes. -/
theorem component_eq (bounded : Bounded succ count) {c : List Nat} (isClass : IsClass succ count c)
    (ascending : c.Pairwise (· < ·)) (member : v ∈ c) :
    component (reachTable succ count) count v = c := by
  have below := isClass.below v member
  have sorted : (component (reachTable succ count) count v).Pairwise (· < ·) :=
    List.pairwise_lt_range.filter _
  have own := (mem_component_iff bounded below).mpr ⟨below, .refl v⟩
  exact List.Perm.eq_of_pairwise (fun a b _ _ less more => absurd less (Nat.not_lt.mpr more.le))
    sorted ascending ((isClass_component bounded below).perm isClass own member)

namespace Search

variable {s : Search} {trail : Trail} {nodes : List Nat}

/-- The recursive search stands where the search by low links stands: it has seen the nodes that
have numbers, what it still does leads to the finish order, and listing the components of the nodes
finished so far gives the complete ones, provided that components listed before take up the nodes
whose components are not complete. -/
structure Alongside (succ : Successors) (count : Nat) (nodes : List Nat) (s : Search)
    (trail : Trail) : Prop where
  seen_iff : ∀ x, x ∈ trail.seen ↔ (s.number? x).isSome
  finished_seen : ∀ x ∈ trail.finished, x ∈ trail.seen
  resumes : (nodes.foldl (visit succ count) (resume succ count s.frames trail)).finished =
    finishOrder succ count
  covers : ∀ later : List (List Nat),
    (∀ x ∈ trail.finished, later.any (x ∈ ·) = true ↔ x ∉ s.emitted.flatten) →
      trail.finished.foldl (cover succ count) later = s.emitted ++ later

/-- A node is entered from the frames that are left to the recursive search. -/
theorem Alongside.enter {others : List Nat} {frames : List Frame}
    (along : s.Alongside succ count nodes trail)
    (resumes : (others.foldl (visit succ count) (resume succ count (⟨v, succ v⟩ :: frames)
      ⟨v :: trail.seen, trail.finished⟩)).finished = finishOrder succ count) :
    (({ s with frames := frames } : Search).enter succ v).Alongside succ count others
      ⟨v :: trail.seen, trail.finished⟩ where
  seen_iff x := by
    by_cases here : x = v
    · simp [Search.enter, assign, here]
    · simp [Search.enter, assign, here, along.seen_iff]
  finished_seen x left := List.mem_cons_of_mem v (along.finished_seen x left)
  resumes := resumes
  covers := along.covers

theorem emitted_leave (stacked : v ∈ s.stack) :
    (s.leave v).emitted = s.emitted ∨ ∃ c, (s.leave v).emitted = s.emitted ++ [c] ∧ v ∈ c := by
  obtain ⟨above, below, -, popped⟩ := popTo_eq stacked
  have emit {t : Search} (same : t.stack = s.stack) :
      (t.emit v).emitted = t.emitted ++ [(above ++ [v]).mergeSort] := by
    simp only [emit, same, popped]
  have inside : v ∈ (above ++ [v]).mergeSort :=
    (List.mergeSort_perm _ _).mem_iff.mpr (by simp)
  unfold leave
  cases s.frames with
  | nil =>
    dsimp only
    split
    · exact .inr ⟨_, emit rfl, inside⟩
    · exact .inl rfl
  | cons parent frames =>
    dsimp only
    split
    · exact .inr ⟨_, emit (t := s.lower parent.node (s.low v)) rfl, inside⟩
    · exact .inl rfl

/-- If the component of a node that is left is not complete, it is listed by a node that is left
later; if it is complete now, this node is the one by which it is listed. -/
theorem Alongside.covers_leave {after : List (List Nat)} (bounded : Bounded succ count)
    (along : s.Alongside succ count nodes trail) (complete : Complete succ count after)
    (new : v ∉ s.emitted.flatten)
    (completed : after = s.emitted ∨ ∃ c, after = s.emitted ++ [c] ∧ v ∈ c)
    (later : List (List Nat))
    (listed : ∀ x ∈ v :: trail.finished, later.any (x ∈ ·) = true ↔ x ∉ after.flatten) :
    (v :: trail.finished).foldl (cover succ count) later = after ++ later := by
  obtain ⟨own, others⟩ := List.forall_mem_cons.mp listed
  rw [List.foldl_cons]
  rcases completed with rfl | ⟨c, rfl, inside⟩
  · rw [cover, if_pos (own.mpr new)]
    exact along.covers later others
  · have missing : ¬ later.any (v ∈ ·) = true := fun old => own.mp old (by simp [inside])
    have isClass := complete.isClass c (by simp)
    have ascending := complete.ascending c (by simp)
    have apart : ∀ x ∈ c, x ∉ s.emitted.flatten := by
      intro x there old
      obtain ⟨d, before, common⟩ := List.mem_flatten.mp old
      exact (List.pairwise_append.mp complete.disjoint).2.2 d before c List.mem_cons_self common
        there
    rw [cover, if_neg missing, component_eq bounded isClass ascending inside, along.covers,
      List.append_assoc, List.singleton_append]
    intro x left
    rw [List.any_cons, Bool.or_eq_true, decide_eq_true_eq, others x left, List.flatten_append,
      List.flatten_singleton, List.mem_append, not_or]
    constructor
    · rintro (there | ⟨uncovered, -⟩)
      · exact apart x there
      · exact uncovered
    · intro uncovered
      by_cases there : x ∈ c
      · exact .inl there
      · exact .inr ⟨uncovered, there⟩

theorem Alongside.leave {frames : List Frame} (bounded : Bounded succ count)
    (inv : Inv succ count s) (top : s.frames = ⟨v, []⟩ :: frames)
    (along : s.Alongside succ count nodes trail) :
    (({ s with frames := frames } : Search).leave v).Alongside succ count nodes
      ⟨trail.seen, v :: trail.finished⟩ := by
  have stacked : v ∈ s.stack := inv.shaped.active_stacked (mem_active_of_top top)
  have complete := (inv_leave inv top).complete
  refine ⟨?_, ?_, ?_, ?_⟩
  · intro x
    rw [number?_leave]
    exact along.seen_iff x
  · refine List.forall_mem_cons.mpr ⟨(along.seen_iff v).mpr ?_, along.finished_seen⟩
    exact (inv.shaped.numbered_iff v).mpr (.inr stacked)
  · have resumes := along.resumes
    rw [top] at resumes
    rw [frames_leave]
    exact resumes
  · exact along.covers_leave bounded complete (inv.shaped.apart v stacked)
      (emitted_leave (s := { s with frames := frames }) stacked)

/-- Each step of the search by low links is one of the recursive search. -/
theorem alongside_step (bounded : Bounded succ count) (inv : Inv succ count s)
    (along : s.Alongside succ count nodes trail) :
    ∃ later, (s.step succ count).Alongside succ count nodes later := by
  unfold step
  split
  · exact ⟨trail, along⟩
  · next v frames top => exact ⟨_, along.leave bounded inv top⟩
  · next v w rest frames top =>
    have isActive := mem_active_of_top top
    have source : v < count := inv.shaped.stacked_lt (inv.shaped.active_stacked isActive)
    have edge : w ∈ succ v := inv.linked.edges ⟨v, w :: rest⟩ (by simp [top]) w List.mem_cons_self
    have below : w < count := bounded v source w edge
    have resumes := along.resumes
    rw [top] at resumes
    unfold follow
    dsimp only
    split
    · next fresh =>
      have unseen : w ∉ trail.seen := by rw [along.seen_iff, fresh]; exact Bool.false_ne_true
      rw [if_pos below]
      refine ⟨_, along.enter ?_⟩
      rw [resume_enter bounded below unseen]
      exact resumes
    · next number known =>
      have seen : w ∈ trail.seen := (along.seen_iff w).mpr (by rw [known]; rfl)
      have passed : (nodes.foldl (visit succ count)
          (resume succ count (⟨v, rest⟩ :: frames) trail)).finished = finishOrder succ count := by
        rw [← resumes, resume, resume, List.foldl_cons, visit_of_seen _ seen]
      split <;> exact ⟨trail, along.seen_iff, along.finished_seen, passed, along.covers⟩

/-! ## The whole search -/

/-- What a step preserves holds at the end, when all nodes entered are left. -/
theorem run_preserves {P : Search → Prop} (step : ∀ s, P s → P (s.step succ count)) (holds : P s) :
    P (s.run succ count) ∧ (s.run succ count).frames = [] := by
  induction s using run.induct succ count with
  | case1 s done =>
    rw [run, dif_pos done]
    exact ⟨holds, done⟩
  | case2 s work ih =>
    rw [run, dif_neg work]
    exact ih (step s holds)

/-- From every state on, the steps come to an end. -/
theorem exists_iterate_done (s : Search) : ∃ n, ((step succ count)^[n] s).frames = [] := by
  induction s using run.induct succ count with
  | case1 s done => exact ⟨0, done⟩
  | case2 s work ih =>
    obtain ⟨n, done⟩ := ih
    exact ⟨n + 1, done⟩

theorem stack_eq_nil (inv : Inv succ count s) (idle : s.frames = []) : s.stack = [] := by
  refine List.eq_nil_iff_forall_not_mem.mpr ?_
  intro x stacked
  obtain ⟨v, isActive, -⟩ := inv.shaped.owned x stacked
  simp [active, idle] at isActive

theorem root_correct (bounded : Bounded succ count) (below : v < count) (inv : Inv succ count s)
    (idle : s.frames = []) (along : s.Alongside succ count (v :: nodes) trail) :
    Inv succ count (s.root succ count v) ∧ (s.root succ count v).frames = [] ∧
      ∃ later, (s.root succ count v).Alongside succ count nodes later := by
  have resumes := along.resumes
  rw [idle] at resumes
  unfold root
  split
  · next known =>
    have seen := (along.seen_iff v).mpr known
    refine ⟨inv, idle, trail, along.seen_iff, along.finished_seen, ?_, along.covers⟩
    rw [idle, ← resumes, List.foldl_cons, resume, visit_of_seen _ seen]
  · next unknown =>
    have fresh : s.number? v = none := by simpa using unknown
    have unseen : v ∉ trail.seen := fun seen => unknown ((along.seen_iff v).mp seen)
    have entered := inv_enter inv fresh below (by simp [active, idle])
    have follows : (s.enter succ v).Alongside succ count nodes
        ⟨v :: trail.seen, trail.finished⟩ := by
      refine along.enter ?_
      rw [idle, resume_enter bounded below unseen]
      exact resumes
    have kept (t : Search) (held : Inv succ count t ∧ ∃ trail, t.Alongside succ count nodes trail) :
        Inv succ count (t.step succ count) ∧
          ∃ trail, (t.step succ count).Alongside succ count nodes trail := by
      obtain ⟨inv, _, along⟩ := held
      exact ⟨inv_step bounded inv, alongside_step bounded inv along⟩
    obtain ⟨⟨final, along⟩, done⟩ := run_preserves
      (P := fun s => Inv succ count s ∧ ∃ trail, s.Alongside succ count nodes trail) kept
      ⟨entered, _, follows⟩
    exact ⟨final, done, along⟩

theorem roots_correct (bounded : Bounded succ count) (inside : ∀ v ∈ nodes, v < count)
    (inv : Inv succ count s) (idle : s.frames = []) (along : s.Alongside succ count nodes trail) :
    let all := nodes.foldl (root succ count) s
    Inv succ count all ∧ all.frames = [] ∧ ∃ later, all.Alongside succ count [] later := by
  induction nodes generalizing s trail with
  | nil => exact ⟨inv, idle, trail, along⟩
  | cons v nodes ih =>
    obtain ⟨below, inside⟩ := List.forall_mem_cons.mp inside
    obtain ⟨inv, idle, later, along⟩ := root_correct bounded below inv idle along
    exact ih inside inv idle along

end Search

/-- The low links complete the components that `components` lists. -/
theorem lowLinkComponents_complete (bounded : Bounded succ count) :
    lowLinkComponents succ count = components succ count ∧
      Complete succ count (components succ count) := by
  have along : Search.start.Alongside succ count (List.range count) ⟨[], []⟩ :=
    ⟨by simp [Search.start], by simp, rfl, fun later _ => rfl⟩
  obtain ⟨inv, idle, trail, along⟩ := Search.roots_correct bounded (fun v => List.mem_range.mp)
    Search.inv_start rfl along
  have stack := Search.stack_eq_nil inv idle
  have finished := along.resumes
  rw [idle] at finished
  have same : components succ count = lowLinkComponents succ count := by
    rw [components_eq, ← finished]
    refine (along.covers [] ?_).trans (List.append_nil _)
    intro x left
    have numbered := (along.seen_iff x).mp (along.finished_seen x left)
    have emitted := (inv.shaped.numbered_iff x).mp numbered
    rw [stack] at emitted
    simpa using emitted
  exact ⟨same.symm, same ▸ inv.complete⟩

/-- **The search by low links partitions the nodes into strongly connected components.** Its loop
ends from every state. If all edges lead to nodes, then its components are those that `components`
lists, in the same order; every node is in one of them, once; each is ascending; two nodes share one
exactly if each can be reached from the other; and edges lead to earlier components only. -/
theorem lowLinkComponents_correct (bounded : Bounded succ count) :
    (∀ s : Search, ∃ n, ((Search.step succ count)^[n] s).frames = []) ∧
      lowLinkComponents succ count = components succ count ∧
      (lowLinkComponents succ count).flatten.Perm (List.range count) ∧
      (∀ c ∈ lowLinkComponents succ count, c ≠ [] ∧ c.Pairwise (· < ·)) ∧
      (∀ v < count, ∀ w < count, (∃ c ∈ lowLinkComponents succ count, v ∈ c ∧ w ∈ c) ↔
        Reaches succ v w ∧ Reaches succ w v) ∧
      (lowLinkComponents succ count).Pairwise fun earlier later =>
        ∀ v ∈ earlier, ∀ w ∈ succ v, w ∉ later := by
  obtain ⟨same, complete⟩ := lowLinkComponents_complete bounded
  obtain ⟨-, covered⟩ := components_classes bounded
  rw [same]
  refine ⟨Search.exists_iterate_done, rfl, components_perm bounded, ?_, ?_, complete.backward⟩
  · intro c member
    exact ⟨(complete.isClass c member).nonempty, complete.ascending c member⟩
  · intro v belowV w belowW
    constructor
    · rintro ⟨c, member, first, second⟩
      exact ((complete.isClass c member).mem_iff v first w belowW).mp second
    · intro mutual_
      obtain ⟨c, member, first⟩ := covered v belowV
      exact ⟨c, member, first, ((complete.isClass c member).mem_iff v first w belowW).mpr mutual_⟩

/-- Two cycles, an edge between them and one to a node with an edge to itself. -/
theorem lowLinkComponents_correct_cycles :
    let succ : Successors := fun v => [[1, 3], [2], [0, 4], [3], [5], [4, 5]].getD v []
    Bounded succ 6 ∧ lowLinkComponents succ 6 = [[4, 5], [3], [0, 1, 2]] := by
  intro succ
  have bounded : Bounded succ 6 := by unfold Bounded; decide
  have listed : components succ 6 = [[4, 5], [3], [0, 1, 2]] := by decide
  obtain ⟨-, same, -⟩ := lowLinkComponents_correct bounded
  exact ⟨bounded, same.trans listed⟩

end Ripple.Graph
