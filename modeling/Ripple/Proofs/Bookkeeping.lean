import Ripple.Proofs.CheckedCounts
import Ripple.Proofs.HeldView

/-!
What a history keeps account of. The numbers of the entries that are kept are some of those that were
given to transactions since the program was loaded, in the same order (`History.Numbers`), and a commit
gives the next number whatever became of earlier entries (`Enters`). While a session is live its cursor
is at the newest entry (`Timeline.AtTip`). Together with the limit and the cursor, which the timeline
accounts for, this is so after any operations (`history_accounts`).
-/

namespace Ripple

/-- The numbers that were given to transactions, oldest first: they ascend up to the next one, and the
entries that are kept are numbered by some of them. -/
structure History.Numbers (h : History) (given : List Nat) : Prop where
  ascending : given.Pairwise (· < ·)
  below : ∀ n ∈ given, n < h.nextSeq
  kept : (h.entries.map Entry.seq).Sublist given
  changed : ∀ entry ∈ h.entries, entry.effects ≠ []

/-- The number of a committed transaction, if one is recorded. -/
def seqOf? : Except Fault (Option Entry) → Option Nat
  | .ok (some entry) => some entry.seq
  | _ => none

/-- The number that an operation gives to a transaction, if it commits one. -/
def Session.number? (s : Session) : Operation → Option Nat
  | .request .commit => seqOf? s.commit.2
  | _ => none

/-- Whether an operation gives up the universe. -/
def Session.renews (s : Session) : Operation → Bool
  | .compile text => (s.compile text).2.isOk
  | .load program => (s.load program).2.isOk
  | .clear => true
  | _ => false

/-- The numbers given in the present universe, after an operation. -/
def Session.numbersAfter (s : Session) (given : List Nat) (operation : Operation) : List Nat :=
  if s.renews operation then [] else given ++ (s.number? operation).toList

/-- Operations one after the other, with the numbers given in the present universe. -/
def Session.account (s : Session) (given : List Nat) : List Operation → Session × List Nat
  | [] => (s, given)
  | operation :: rest => (s.perform operation).1.account (s.numbersAfter given operation) rest

variable {s : Session} {t : Timeline} {h after : History} {given : List Nat} {changes : List Change}

/-! ## Numbers -/

theorem History.numbers_new (limit : Option Nat) : (History.new limit).Numbers [] where
  ascending := .nil
  below _ member := absurd member List.not_mem_nil
  kept := .slnil
  changed _ member := absurd member List.not_mem_nil

theorem History.Numbers.congr (numbers : h.Numbers given) (entries : after.entries = h.entries)
    (next : after.nextSeq = h.nextSeq) : after.Numbers given where
  ascending := numbers.ascending
  below := next ▸ numbers.below
  kept := entries ▸ numbers.kept
  changed := entries ▸ numbers.changed

/-- What a commit does to the entries: nothing, or it adds one with the next number after some of those
that were there. -/
inductive Enters (h after : History) : Except Fault (Option Entry) → Prop
  | nothing {result : Except Fault (Option Entry)} (none : ∀ entry, result ≠ .ok (some entry))
      (entries : after.entries = h.entries) (next : after.nextSeq = h.nextSeq)  :
      Enters h after result
  | added {entry : Entry} (number : entry.seq = h.nextSeq) (changed : entry.effects ≠ [])
      (entries : after.entries.Sublist (h.entries ++ [entry])) (next : after.nextSeq = h.nextSeq + 1) :
      Enters h after (.ok (some entry))

variable {result : Except Fault (Option Entry)}

theorem Session.Records.enters (records : Records h after result) (inside : h.cursor ≤ h.size) :
    Enters h after result := by
  cases records with
  | failed => exact .nothing (by simp) rfl rfl
  | same => exact .nothing (by simp) rfl rfl
  | recorded entry changed =>
    refine .added rfl changed ?_ ?_
    · rw [History.record_eq entry inside]
      exact (List.drop_sublist ..).trans ((List.take_sublist ..).append_right _)
    · rw [History.record_eq entry inside]

/-- Where the cursor is makes no difference to the entries. -/
theorem Enters.congr {h' after' : History} (enters : Enters h after result)
    (before : h.entries = h'.entries) (counted : h.nextSeq = h'.nextSeq)
    (entries : after'.entries = after.entries) (next : after'.nextSeq = after.nextSeq) :
    Enters h' after' result := by
  cases enters with
  | nothing none same also =>
    exact .nothing none (entries.trans (same.trans before)) (next.trans (also.trans counted))
  | added number changed some also =>
    refine .added (number.trans counted) changed ?_ (next.trans (counted ▸ also))
    rw [entries, ← before]
    exact some

/-- A number that is given is greater than all those before. -/
theorem History.Numbers.enter (numbers : h.Numbers given) (enters : Enters h after result) :
    after.Numbers (given ++ (seqOf? result).toList) := by
  cases enters with
  | nothing none entries next =>
    have same : seqOf? result = .none := by
      unfold seqOf?
      split
      · next entry => exact absurd rfl (none entry)
      · rfl
    rw [same, Option.toList_none, List.append_nil]
    exact numbers.congr entries next
  | @added entry number changed entries next =>
    constructor
    · refine List.pairwise_append.mpr ⟨numbers.ascending, List.pairwise_singleton .., ?_⟩
      intro n old m new
      rw [List.mem_singleton.mp new, number]
      exact numbers.below n old
    · intro n member
      rw [next]
      rcases List.mem_append.mp member with old | new
      · exact Nat.lt_succ_of_lt (numbers.below n old)
      · rw [List.mem_singleton.mp new, number]
        exact Nat.lt_succ_self _
    · refine (entries.map Entry.seq).trans ?_
      rw [List.map_append]
      exact numbers.kept.append_right _
    · intro e member
      rcases List.mem_append.mp (entries.subset member) with old | new
      · exact numbers.changed e old
      · exact List.mem_singleton.mp new ▸ changed

/-! ## Commits -/

theorem commitChanges_enters (inside : s.history.cursor ≤ s.history.size) (changes : List Change)
    (visible : Bool) :
    Enters s.history (s.commitChanges changes visible).1.history
      (s.commitChanges changes visible).2 :=
  (s.commitChanges_records changes visible).enters inside

theorem commitBranch_enters (inside : s.history.cursor ≤ s.history.size) :
    Enters s.history (s.commitBranch changes).1.history (s.commitBranch changes).2 := by
  have enters := commitChanges_enters inside changes true
  unfold Session.commitBranch
  generalize s.commitChanges changes true = answer at enters
  obtain ⟨last, fault | _ | entry⟩ := answer
  · exact enters
  · exact enters
  · simpa only [Session.tellCursor, Session.history_tell] using enters

/-- Going to the newest state and back sets nothing but the cursor, so that a commit behind the state
that is shown enters what it enters there. -/
theorem commitBehind_enters (follows : Follows s t) :
    Enters s.history (s.commitBehind changes).1.history (s.commitBehind changes).2 := by
  have inside := follows.view.cursor_le
  cases answered : (s.commitBehind changes).2 with
  | error fault =>
    rw [commitBehind_of_refused follows answered]
    exact .nothing (by simp) rfl rfl
  | ok recorded =>
    obtain ⟨cursor, within, moved⟩ := Session.history_seek inside s.history.size
    unfold Session.commitBehind at answered ⊢
    dsimp only at answered ⊢
    generalize s.seek s.history.size = there at moved answered ⊢
    obtain ⟨newest, fault | ⟨⟩⟩ := there
    · cases answered
    · dsimp only at moved answered ⊢
      have kept : newest.history.cursor ≤ newest.history.size := by rw [moved]; exact within
      have enters := commitChanges_enters kept changes false
      have landed := ((newest.commitChanges_records changes false).counts kept).1
      generalize newest.commitChanges changes false = done at enters landed answered ⊢
      obtain ⟨middle, result⟩ := done
      dsimp only at enters landed answered ⊢
      generalize sought : middle.seek _ = here at answered ⊢
      obtain ⟨position, -, back⟩ := sought ▸ Session.history_seek landed _
      obtain ⟨last, fault | ⟨⟩⟩ := here
      · cases answered
      · dsimp only at back answered ⊢
        subst answered
        exact enters.congr (by rw [moved]) (by rw [moved]) (by rw [back]) (by rw [back])

theorem commit_enters (follows : Follows s t) :
    Enters s.history s.commit.1.history s.commit.2 := by
  have discarded : Follows s.discard t.discard := follows.discard
  have inside := discarded.view.cursor_le
  rcases s.commit_cases with ⟨_, same⟩ | ⟨-, same⟩ | ⟨-, -, same⟩ | ⟨-, -, same⟩
  · rw [same]
    exact .nothing (by simp) rfl rfl
  · rw [same]
    exact commitChanges_enters (s := s.discard) inside _ true
  · rw [same]
    exact commitBranch_enters (s := s.discard) inside
  · rw [same]
    exact commitBehind_enters discarded

/-- Whatever is asked, the numbers go on as they were given. -/
theorem numbers_serve (follows : Follows s t) (numbers : s.history.Numbers given)
    (request : Request) :
    (s.serve request).1.history.Numbers (given ++ (s.number? (.request request)).toList) := by
  have inside := follows.view.cursor_le
  by_cases commits : request = .commit
  · subst commits
    exact numbers.enter (commit_enters follows)
  · have none : s.number? (.request request) = none := by
      cases request with
      | commit => exact absurd rfl commits
      | _ => rfl
    rw [none, Option.toList_none, List.append_nil]
    obtain ⟨cursor, paused, same⟩ := Session.history_serve inside commits
    rw [same]
    exact numbers.congr rfl rfl

/-! ## The newest entry -/

namespace Timeline

/-- Unless the timeline is paused, its newest state is shown. -/
def AtTip (t : Timeline) : Prop := t.paused = false → t.cursor = t.last

theorem atTip_record (t : Timeline) (r : Store) : (t.record r).AtTip := by
  intro _
  have here := t.inside
  have bound := excess_le t.settings.maxEntries (t.cursor + 1)
  rw [last, record_cursor, record_states]
  simp only [List.length_drop, List.length_append, List.length_take, List.length_singleton]
  omega

theorem AtTip.seek (tip : t.AtTip) (paused : t.paused = true) (position : Nat) :
    (t.seek position).1.AtTip := by
  unfold Timeline.seek
  split
  · intro live
    cases paused.symm.trans live
  · exact tip

/-- Only setting the cursor to a position would leave the newest state while not paused. -/
theorem AtTip.serve (tip : t.AtTip) {request : Request} (other : ∀ position, request ≠ .seek position) :
    (t.serve request).1.AtTip := by
  have discarded : t.discard.AtTip := tip
  cases request with
  | seek position => exact absurd rfl (other position)
  | queueWrite =>
    simp only [Timeline.serve]
    split <;> exact tip
  | commit =>
    simp only [Timeline.serve, Timeline.commit]
    split
    · exact tip
    · split
      · exact tip
      · split
        · next held =>
          generalize t.outcome t.newest = result
          obtain fault | _ | r := result
          · exact tip
          · exact tip
          · intro live
            cases held.1.symm.trans live
        · generalize t.outcome t.shown = result
          obtain fault | _ | r := result
          · exact tip
          · exact tip
          · exact t.discard.atTip_record r
  | pause =>
    intro live
    cases live
  | resume => exact fun _ => rfl
  | stepBack =>
    simp only [Timeline.serve]
    split
    · exact tip
    · next held =>
      split
      · exact tip
      · exact tip.seek (by simpa using held) _
  | stepForward =>
    simp only [Timeline.serve]
    split
    · exact tip
    · next held => exact tip.seek (by simpa using held) _
  | _ => exact tip

end Timeline

/-! ## Runs -/

theorem history_of_load {program : Program} {loaded : Session}
    (done : s.load program = (loaded, .ok ())) : loaded.history = .new s.settings.maxEntries := by
  unfold Session.load at done
  split at done
  · cases done
  · dsimp only at done
    split at done
    · cases done
    · cases done
      exact Session.history_tell _ _

/-- Nothing is committed as long as no program is loaded. -/
theorem number?_of_idle (unready : s.ready = false) (request : Request) :
    s.number? (.request request) = none := by
  cases request with
  | commit =>
    have discarded : s.discard.ready = false := unready
    simp [Session.number?, Session.commit, discarded, seqOf?]
  | _ => rfl

/-- The state of the books: the session is one that can be reached, with its limit kept to and its
newest state shown while it is live, and the numbers ascend. -/
structure Session.Accounted (s : Session) (given : List Nat) : Prop where
  grounded : Grounded (fun t => t.Within ∧ t.AtTip) s
  numbers : s.history.Numbers given

theorem Session.accounted_fresh (settings : Settings) (compiler : Compiler) :
    (Session.withCompiler settings compiler).Accounted [] where
  grounded := .idle rfl rfl rfl
  numbers := History.numbers_new settings.maxEntries

theorem numbers_perform (grounded : Grounded (fun t => t.Within ∧ t.AtTip) s)
    (numbers : s.history.Numbers given) (operation : Operation) :
    (s.perform operation).1.history.Numbers (s.numbersAfter given operation) := by
  have same : given ++ (none : Option Nat).toList = given := List.append_nil given
  cases operation with
  | compile text =>
    rcases compile_cases s text with ⟨e, failed⟩ | ⟨program, after, -, loaded, compiled⟩
    · simpa only [Session.perform, Session.numbersAfter, Session.renews, failed, Except.isOk,
        Except.toBool, Bool.false_eq_true, reduceIte, Session.number?, same] using numbers
    · simpa only [Session.perform, Session.numbersAfter, Session.renews, compiled, Except.isOk,
        Except.toBool, reduceIte, history_of_load loaded] using History.numbers_new _
  | load program =>
    rcases load_cases s program with ⟨fault, failed⟩ | ⟨after, loaded⟩
    · simpa only [Session.perform, Session.numbersAfter, Session.renews, failed, Except.isOk,
        Except.toBool, Bool.false_eq_true, reduceIte, Session.number?, same] using numbers
    · simpa only [Session.perform, Session.numbersAfter, Session.renews, loaded, Except.isOk,
        Except.toBool, reduceIte, history_of_load loaded] using History.numbers_new _
  | clear => exact History.numbers_new _
  | subscribe =>
    rw [← same] at numbers
    exact numbers
  | unsubscribe =>
    rw [← same] at numbers
    exact numbers
  | request request =>
    cases grounded with
    | loaded t follows _ => exact numbers_serve follows numbers request
    | idle unready none start =>
      have kept : (s.serve request).1.history = s.history := by
        by_cases dropped : request = .discard
        · subst dropped
          rfl
        · rw [serve_of_idle unready none start dropped]
          rcases s.afterRefusal_cases (.request request) with here | here
          · rw [here]
          · rw [here]
            rfl
      change (s.serve request).1.history.Numbers (given ++ (s.number? (.request request)).toList)
      rw [kept, number?_of_idle unready, same]
      exact numbers

/-- Every operation keeps the books, if it does not set the cursor to a position. -/
theorem Session.Accounted.perform (accounted : s.Accounted given) {operation : Operation}
    (unsought : ∀ position, operation ≠ .request (.seek position)) :
    (s.perform operation).1.Accounted (s.numbersAfter given operation) where
  grounded := by
    refine accounted.grounded.perform operation ?_ ?_
    · exact fun _ after _ _ => ⟨Timeline.within_start _ _ after.store, fun _ => rfl⟩
    · rintro t request rfl ⟨within, tip⟩
      exact ⟨within.serve request, tip.serve fun position same => unsought position (same ▸ rfl)⟩
  numbers := numbers_perform accounted.grounded accounted.numbers operation

theorem Session.Accounted.account (accounted : s.Accounted given) {operations : List Operation}
    (unsought : ∀ position, .request (.seek position) ∉ operations) :
    (s.account given operations).1.Accounted (s.account given operations).2 ∧
      (s.account given operations).1.setup = s.setup := by
  induction operations generalizing s given with
  | nil => exact ⟨accounted, rfl⟩
  | cons operation rest ih =>
    have here (position : Nat) : operation ≠ .request (.seek position) := fun same =>
      unsought position (same ▸ List.mem_cons_self)
    obtain ⟨books, setup⟩ := ih (accounted.perform here) fun position later =>
      unsought position (List.mem_cons_of_mem _ later)
    exact ⟨books, setup.trans (setup_perform s operation)⟩

/-- Where the books say that the cursor and the entries are. -/
theorem Session.Accounted.counts (accounted : s.Accounted given) :
    s.history.cursor ≤ s.history.size ∧
      (∀ limit, s.settings.maxEntries = some limit → s.history.size ≤ limit) ∧
      (s.mode = .live → s.history.cursor = s.history.size) := by
  cases accounted.grounded with
  | idle unready none start =>
    have size : s.history.size = 0 := List.length_eq_zero_iff.mpr none
    refine ⟨by omega, fun limit _ => by omega, fun _ => by omega⟩
  | loaded t follows held =>
    have size := follows.size_eq
    refine ⟨follows.view.cursor_le, ?_, ?_⟩
    · intro limit bounded
      rw [size]
      exact held.1 limit (follows.settings ▸ bounded)
    · intro live
      have running : t.paused = false := by
        rw [← follows.paused]
        unfold Session.mode at live
        split at live
        · cases live
        · split at live
          · cases live
          · next held => simpa using held
      rw [follows.cursor, size]
      exact held.2 running

/-- **What a history accounts for.** After any operations on a session, with any settings and programs,
but without setting the cursor to a position, which clients cannot ask for: the cursor is inside the
history, which keeps to its limit, and at its end while the session is live. The numbers given since the
program was loaded ascend up to the next one, so that none is given twice, and those of the kept entries
are among them in the same order; every kept entry has an effect. And whatever is asked next, no
difference of counts that serving it takes is negative. -/
theorem history_accounts (settings : Settings) (compiler : Compiler) {operations : List Operation}
    (unsought : ∀ position, .request (.seek position) ∉ operations) :
    let (s, given) := (Session.withCompiler settings compiler).account [] operations
    s.history.cursor ≤ s.history.size ∧
      (∀ limit, settings.maxEntries = some limit → s.history.size ≤ limit) ∧
      (s.mode = .live → s.history.cursor = s.history.size) ∧
      (given.Pairwise (· < ·) ∧ ∀ n ∈ given, n < s.history.nextSeq) ∧
      ((s.history.entries.map Entry.seq).Pairwise (· < ·) ∧
        (s.history.entries.map Entry.seq).Sublist given) ∧
      (∀ entry ∈ s.history.entries, entry.seq < s.history.nextSeq ∧ entry.effects ≠ []) ∧
      ∀ request, s.serve? request = some (s.serve request) := by
  obtain ⟨accounted, setup⟩ := (Session.accounted_fresh settings compiler).account unsought
  generalize (Session.withCompiler settings compiler).account [] operations = run at accounted setup
  obtain ⟨s, given⟩ := run
  obtain ⟨inside, within, tip⟩ := accounted.counts
  have numbers := accounted.numbers
  have own : s.settings = settings := congrArg Prod.fst setup
  refine ⟨inside, own ▸ within, tip, ⟨numbers.ascending, numbers.below⟩,
    ⟨numbers.ascending.sublist numbers.kept, numbers.kept⟩, ?_, Session.serve?_eq inside⟩
  intro entry member
  exact ⟨numbers.below _ (numbers.kept.subset (List.mem_map_of_mem member)),
    numbers.changed entry member⟩

/-- A session that remembers two transactions and goes on from the state that is shown. -/
def branching : Settings := { Settings.default with pausedCommits := .branch, maxEntries := some 2 }

/-- The number of `counter` is set to another one in a transaction. -/
def setTo (n : Number) : List Operation :=
  [.request (.queue (.set ⟨1⟩ 0 (.position 1) (.number n))), .request .commit]

/-- Two transactions, of which the second one is taken back and replaced, and one more. -/
def replaced : List Operation :=
  .load counter :: setTo .one ++ setTo .zero ++ [.request .pause, .request .stepBack] ++
    setTo .infinity ++ [.request .resume] ++ setTo .notANumber

/-- The number of the replaced transaction is not given again, and neither is that of the oldest one,
which the fourth one drops. -/
theorem history_accounts_replaced :
    let (s, given) := (Session.withCompiler branching Program.compile).account [] replaced
    (∀ position, .request (.seek position) ∉ replaced) ∧ given = [1, 2, 3, 4] ∧
      s.history.entries.map Entry.seq = [3, 4] ∧ s.history.cursor = s.history.size ∧
      s.serve? .stepBack = some (s.serve .stepBack) := by
  have unsought : ∀ position, .request (.seek position) ∉ replaced := by
    simp [replaced, setTo]
  obtain ⟨-, -, tip, -, -, -, counts⟩ := history_accounts branching Program.compile unsought
  exact ⟨unsought, by cbv, by cbv, tip (by cbv), counts .stepBack⟩

end Ripple
