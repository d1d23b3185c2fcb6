/-
  Tasks and block at one board, in any order of their steps.

  Every look at a flag, every flag that is set and every access to the entries is
  an atomic step of its own, so between any two of them anyone else may act. A
  schedule is the list of who acts next. What it takes for the board to come out
  empty is a condition on each index alone, `Tidy`; a step at one index leaves the
  conditions of the others as they are.
-/
import Mathlib
import BlockExecution.Speculation.Speculate

namespace BlockExecution

variable {γ : Type} {n i j : Nat}

/-! ## The board, index by index -/

namespace Board

variable {b : Board γ} {entry : γ}

@[simp] theorem isClaimed_start (n i : Nat) : (({} : Board γ).start n).isClaimed i = false := by
  simp [start, isClaimed]

@[simp] theorem published?_start (n i : Nat) : (({} : Board γ).start n).published? i = none := by
  simp [start, published?]

theorem isClaimed_claim (h : b.run = some n) (hj : j < n) :
    (b.claim j).isClaimed i = (decide (j = i) || b.isClaimed i) := by
  have hrun : b.run.any (j < ·) = true := by simp [h, hj]
  simp [claim, if_pos hrun, isClaimed, Std.ExtTreeMap.contains_insert, beq_eq_decide]

@[simp] theorem run_claim : (b.claim j).run = b.run := by
  rw [claim]
  split <;> rfl

@[simp] theorem published?_claim : (b.claim j).published? i = b.published? i := by
  rw [claim]
  split <;> rfl

@[simp] theorem isClaimed_publish : (b.publish j entry).isClaimed i = b.isClaimed i := rfl

@[simp] theorem isClaimed_withdraw : (b.withdraw j).isClaimed i = b.isClaimed i := rfl

@[simp] theorem isClaimed_clear : b.clear.isClaimed i = b.isClaimed i := rfl

@[simp] theorem published?_clear : b.clear.published? i = none := by
  simp [clear, published?]

theorem published?_publish :
    (b.publish j entry).published? i = if j = i then some entry else b.published? i := by
  simp [publish, published?, Std.ExtTreeMap.getElem?_insert]

theorem published?_withdraw :
    (b.withdraw j).published? i = if j = i then none else b.published? i := by
  simp [withdraw, published?, Std.ExtTreeMap.getElem?_erase]

/-- Nothing is pending when there is no entry at any index. -/
theorem pendingCount_eq_zero (h : ∀ i, b.published? i = none) : b.pendingCount = 0 := by
  have hempty : b.pending = ∅ := Std.ExtTreeMap.ext_getElem? fun i => by
    rw [Std.ExtTreeMap.getElem?_empty]
    exact h i
  rw [pendingCount, hempty, Std.ExtTreeMap.size_empty]

end Board

/-! ## Steps -/

/-- Where a task stands. -/
inductive TaskPhase (γ : Type) where
  /-- It has not looked at its flag yet. -/
  | waiting
  /-- It saw no claim and executes its transaction. -/
  | running
  /-- It has found something and not published it yet. -/
  | holding (entry : γ)
  /-- It has published and not looked at its flag again yet. -/
  | published
  /-- It saw the claim and has not taken its entry off yet. -/
  | revoking
  | finished

instance (phase : TaskPhase γ) : Decidable (phase = .finished) :=
  match phase with
  | .finished => isTrue rfl
  | .waiting | .running | .holding _ | .published | .revoking => isFalse nofun

/-- Where the block stands. -/
inductive BlockPhase where
  /-- Between two calls. -/
  | idle
  /-- It has claimed an index and not taken its entry off yet. -/
  | taking (index : Nat)
  /-- It has set the flags below `count`, on its way to setting all of them. -/
  | cancelling (count : Nat)
  deriving DecidableEq

/-- The board of a run together with everyone at work on it. -/
structure BoardRun (γ : Type) where
  board : Board γ
  tasks : Nat → TaskPhase γ := fun _ => .waiting
  block : BlockPhase := .idle
  /-- The least index that the block may still take. -/
  next : Nat := 0
  /-- The indices at which the block is done with taking entries off. -/
  released : Nat → Bool := fun _ => false
  /-- What the block was given at the indices it took, in the order of the calls. -/
  handed : List (Nat × γ) := []

/-- Who acts next. -/
inductive BoardAction where
  /-- The next step of a task. -/
  | task (index : Nat)
  /-- The block begins to take an index. -/
  | take (index : Nat)
  /-- The block begins to cancel what remains. -/
  | cancel
  /-- The next step of what the block has begun. -/
  | proceed

namespace BoardRun

variable {r : BoardRun γ} {found : Nat → Option γ} {entry : γ}

/-- A run of `n` tasks before anyone has acted. -/
def start (γ : Type) (n : Nat) : BoardRun γ := { board := ({} : Board γ).start n }

/-- The number of tasks. -/
def size (r : BoardRun γ) : Nat := r.board.run.getD 0

/-- A task moves on. -/
def moveTask (r : BoardRun γ) (i : Nat) (phase : TaskPhase γ) : BoardRun γ :=
  { r with tasks := Function.update r.tasks i phase }

/-- The next step of a task; `found` says what executing ahead yields at each index. -/
def stepTask (found : Nat → Option γ) (r : BoardRun γ) (i : Nat) : BoardRun γ :=
  match r.tasks i with
  | .waiting => r.moveTask i (if r.board.isClaimed i then .finished else .running)
  | .running =>
    r.moveTask i
      (match found i with
      | none => .finished
      | some entry => .holding entry)
  | .holding entry => { r.moveTask i .published with board := r.board.publish i entry }
  | .published => r.moveTask i (if r.board.isClaimed i then .revoking else .finished)
  | .revoking => { r.moveTask i .finished with board := r.board.withdraw i }
  | .finished => r

/-- The block takes the entry of an index that it has claimed. -/
def handOver (r : BoardRun γ) (i : Nat) : BoardRun γ :=
  { r with
    board := r.board.withdraw i
    block := .idle
    released := Function.update r.released i true
    handed := r.handed ++ ((r.board.published? i).map (i, ·)).toList }

/-- The next step of what the block has begun. -/
def stepBlock (r : BoardRun γ) : BoardRun γ :=
  match r.block with
  | .idle => r
  | .taking i => r.handOver i
  | .cancelling count =>
    if count < r.size then
      { r with board := r.board.claim count, block := .cancelling (count + 1) }
    else
      { r with board := r.board.clear, block := .idle, released := r.board.isClaimed }

/-- One step. The block begins a call only between two calls, and it takes indices in increasing
order; whoever cannot act leaves everything as it is. -/
def perform (found : Nat → Option γ) (r : BoardRun γ) : BoardAction → BoardRun γ
  | .task i => if i < r.size then r.stepTask found i else r
  | .take i =>
    if r.block = .idle ∧ r.next ≤ i ∧ i < r.size then
      { r with board := r.board.claim i, block := .taking i, next := i + 1 }
    else r
  | .cancel => if r.block = .idle then { r with block := .cancelling 0 } else r
  | .proceed => r.stepBlock

/-- The steps of a schedule, one after the other. -/
def performAll (found : Nat → Option γ) (r : BoardRun γ) (schedule : List BoardAction) :
    BoardRun γ :=
  schedule.foldl (perform found) r

/-! ## One index -/

/-- Whether the block has claimed an index and has yet to take its entry off. -/
def Owes (r : BoardRun γ) (i : Nat) : Prop :=
  match r.block with
  | .idle => False
  | .taking j => i = j
  | .cancelling count => i < count

/-- What holds at an index at any moment. -/
structure Tidy (found : Nat → Option γ) (r : BoardRun γ) (i : Nat) : Prop where
  held : ∀ entry, r.tasks i = .holding entry → found i = some entry
  entry : ∀ entry, r.board.published? i = some entry →
    found i = some entry ∧
      (r.tasks i = .published ∨ r.tasks i = .revoking ∨ r.tasks i = .finished)
  claimed : r.board.isClaimed i = true ↔ r.released i = true ∨ r.Owes i
  revoking : r.tasks i = .revoking → r.board.isClaimed i = true
  gone : r.released i = true → r.tasks i = .finished → r.board.published? i = none
  kept : r.board.isClaimed i = false → r.tasks i = .published ∨ r.tasks i = .finished →
    r.board.published? i = found i

/-- Two states of a run that do not differ at an index. -/
structure SameAt (r r' : BoardRun γ) (i : Nat) : Prop where
  tasks : r'.tasks i = r.tasks i
  entry : r'.board.published? i = r.board.published? i
  claimed : r'.board.isClaimed i = r.board.isClaimed i
  released : r'.released i = r.released i
  owes : r'.Owes i ↔ r.Owes i

variable {r' : BoardRun γ}

theorem SameAt.refl (r : BoardRun γ) (i : Nat) : SameAt r r i := ⟨rfl, rfl, rfl, rfl, Iff.rfl⟩

theorem Tidy.of_same (h : Tidy found r i) (hsame : SameAt r r' i) : Tidy found r' i where
  held := by rw [hsame.tasks]; exact h.held
  entry := by rw [hsame.tasks, hsame.entry]; exact h.entry
  claimed := by rw [hsame.claimed, hsame.released, hsame.owes]; exact h.claimed
  revoking := by rw [hsame.tasks, hsame.claimed]; exact h.revoking
  gone := by rw [hsame.released, hsame.tasks, hsame.entry]; exact h.gone
  kept := by rw [hsame.claimed, hsame.tasks, hsame.entry]; exact h.kept

/-- A task that has published nothing yet has no entry on the board. -/
theorem Tidy.published?_eq_none (h : Tidy found r i)
    (hphase : r.tasks i = .waiting ∨ r.tasks i = .running ∨ ∃ e, r.tasks i = .holding e) :
    r.board.published? i = none := by
  rw [Option.eq_none_iff_forall_ne_some]
  intro e he
  obtain ⟨-, hlate⟩ := h.entry e he
  rcases hphase with hp | hp | ⟨e', hp⟩ <;> simp [hp] at hlate

@[simp] theorem board_moveTask {phase : TaskPhase γ} : (r.moveTask i phase).board = r.board := rfl

@[simp] theorem released_moveTask {phase : TaskPhase γ} :
    (r.moveTask i phase).released = r.released := rfl

@[simp] theorem tasks_moveTask {phase : TaskPhase γ} : (r.moveTask i phase).tasks i = phase :=
  Function.update_self _ _ _

theorem sameAt_moveTask {phase : TaskPhase γ} (hne : i ≠ j) : SameAt r (r.moveTask j phase) i where
  tasks := Function.update_of_ne hne _ _
  entry := rfl
  claimed := rfl
  released := rfl
  owes := Iff.rfl

/-- A step of another task. -/
theorem sameAt_stepTask (hne : i ≠ j) : SameAt r (r.stepTask found j) i := by
  have hmove : ∀ phase, (r.moveTask j phase).tasks i = r.tasks i := fun phase =>
    (sameAt_moveTask hne).tasks
  rw [stepTask]
  split
  case h_1 | h_2 | h_4 => exact sameAt_moveTask hne
  case h_3 entry _ =>
    exact ⟨hmove _, by simp [Board.published?_publish, hne.symm], rfl, rfl, Iff.rfl⟩
  case h_5 =>
    exact ⟨hmove _, by simp [Board.published?_withdraw, hne.symm], rfl, rfl, Iff.rfl⟩
  case h_6 => exact .refl r i

/-- A step of a task keeps the size of the run, and all that belongs to the block. -/
theorem stepTask_keeps (found : Nat → Option γ) (r : BoardRun γ) (j : Nat) :
    (r.stepTask found j).board.run = r.board.run ∧ (r.stepTask found j).block = r.block ∧
      (r.stepTask found j).next = r.next ∧ (r.stepTask found j).handed = r.handed := by
  rw [stepTask]
  split <;> exact ⟨rfl, rfl, rfl, rfl⟩

/-- A task only moves between phases in which its entry is or is not on the board as it was. -/
theorem Tidy.moveTask {phase : TaskPhase γ} (h : Tidy found r i)
    (hheld : ∀ e, phase = .holding e → found i = some e)
    (hentry : ∀ e, r.board.published? i = some e →
      phase = .published ∨ phase = .revoking ∨ phase = .finished)
    (hrevoking : phase = .revoking → r.board.isClaimed i = true)
    (hgone : r.released i = true → phase = .finished → r.board.published? i = none)
    (hkept : r.board.isClaimed i = false → phase = .published ∨ phase = .finished →
      r.board.published? i = found i) :
    Tidy found (r.moveTask i phase) i where
  held := by simpa using hheld
  entry := by simpa using fun e he => ⟨(h.entry e he).1, hentry e he⟩
  claimed := h.claimed
  revoking := by simpa using hrevoking
  gone := by simpa using hgone
  kept := by simpa using hkept

/-- A step of the task at this index. -/
theorem Tidy.stepTask (h : Tidy found r i) : Tidy found (r.stepTask found i) i := by
  rw [BoardRun.stepTask]
  split
  -- One case for each phase; until the entry is published there is none on the board.
  case h_1 hphase =>
    have hnone := h.published?_eq_none (.inl hphase)
    cases hclaimed : r.board.isClaimed i <;> apply h.moveTask <;> simp [hnone, hclaimed]
  case h_2 hphase =>
    have hnone := h.published?_eq_none (.inr (.inl hphase))
    cases hfound : found i <;> apply h.moveTask <;> simp [hnone, hfound]
  case h_3 e hphase =>
    have hfound := h.held e hphase
    exact
      { held := by simp
        entry := by simp [Board.published?_publish, hfound]
        claimed := h.claimed
        revoking := by simp
        gone := by simp
        kept := by simp [Board.published?_publish, hfound] }
  case h_4 hphase =>
    cases hclaimed : r.board.isClaimed i with
    | true => apply h.moveTask <;> simp [hclaimed]
    | false =>
      have hreleased : r.released i = false := by
        have := h.claimed
        simp_all
      have hkept := h.kept hclaimed (.inl hphase)
      apply h.moveTask <;> simp [hclaimed, hreleased, hkept]
  case h_5 hphase =>
    have hclaimed := h.revoking hphase
    exact
      { held := by simp
        entry := by simp [Board.published?_withdraw]
        claimed := h.claimed
        revoking := by simp
        gone := by simp [Board.published?_withdraw]
        kept := by simp [hclaimed] }
  case h_6 => exact h

/-- Claiming an index, for which the block then owes that its entry is taken off. -/
theorem Tidy.claim (h : Tidy found r i) (hrun : r.board.run = some n) (hj : j < n)
    (htasks : r'.tasks = r.tasks) (hboard : r'.board = r.board.claim j)
    (hreleased : r'.released = r.released)
    (howes : r'.Owes i ↔ i = j ∨ r.Owes i) : Tidy found r' i := by
  have hclaimed : r'.board.isClaimed i = (decide (j = i) || r.board.isClaimed i) := by
    rw [hboard, Board.isClaimed_claim hrun hj]
  have hentry : r'.board.published? i = r.board.published? i := by
    rw [hboard, Board.published?_claim]
  refine ⟨?_, ?_, ?_, ?_, ?_, ?_⟩
  · rw [htasks]
    exact h.held
  · rw [htasks, hentry]
    exact h.entry
  · have := h.claimed
    simp only [hclaimed, hreleased, howes, Bool.or_eq_true, decide_eq_true_eq, this]
    tauto
  · rw [htasks, hclaimed]
    exact fun hrevoking => by simp [h.revoking hrevoking]
  · rw [hreleased, htasks, hentry]
    exact h.gone
  · rw [hclaimed, htasks, hentry]
    exact fun hunclaimed => h.kept (Bool.or_eq_false_iff.mp hunclaimed).2

/-- The block takes the entry of this index. -/
theorem Tidy.handOver (h : Tidy found r i) (hblock : r.block = .taking i) :
    Tidy found (r.handOver i) i := by
  have hclaimed : r.board.isClaimed i = true := h.claimed.mpr (.inr (by simp [Owes, hblock]))
  have hnone : (r.handOver i).board.published? i = none := by
    simp [BoardRun.handOver, Board.published?_withdraw]
  have hkeep : (r.handOver i).board.isClaimed i = true := hclaimed
  exact
    { held := h.held
      entry := by simp [hnone]
      claimed := iff_of_true hclaimed (.inl (Function.update_self _ _ _))
      revoking := fun _ => hclaimed
      gone := fun _ _ => hnone
      kept := by simp [hkeep] }

/-- The block takes the entry of another index. -/
theorem sameAt_handOver (hblock : r.block = .taking j) (hne : i ≠ j) :
    SameAt r (r.handOver j) i where
  tasks := rfl
  entry := by simp [handOver, Board.published?_withdraw, hne.symm]
  claimed := rfl
  released := Function.update_of_ne hne _ _
  owes := by simp [Owes, hblock, hne, handOver]

/-- The block takes every entry off, with every flag set. -/
theorem Tidy.clear (h : Tidy found r i)
    (hclaimed : r.board.isClaimed i = true ∨ r.tasks i = .waiting) :
    Tidy found
      { r with board := r.board.clear, block := .idle, released := r.board.isClaimed } i where
  held := h.held
  entry := by simp
  claimed := by simp [Owes]
  revoking := h.revoking
  gone := by simp
  kept := by
    intro hunclaimed hphase
    rcases hclaimed with hc | hc
    · rw [Board.isClaimed_clear, hc] at hunclaimed
      cases hunclaimed
    · simp [hc] at hphase

/-! ## The whole run -/

/-- What holds of a run at any moment. -/
structure Orderly (found : Nat → Option γ) (n : Nat) (r : BoardRun γ) : Prop where
  run : r.board.run = some n
  outside : ∀ i, n ≤ i → r.tasks i = .waiting
  tidy : ∀ i, Tidy found r i
  taking : ∀ i, r.block = .taking i → r.next = i + 1
  cancelling : ∀ count, r.block = .cancelling count → count ≤ n
  handed_found : ∀ x ∈ r.handed, found x.1 = some x.2
  handed_below : ∀ x ∈ r.handed, x.1 < r.next ∧ ∀ i, r.block = .taking i → x.1 < i
  handed_increasing : (r.handed.map Prod.fst).Pairwise (· < ·)

theorem Orderly.size_eq (h : Orderly found n r) : r.size = n := by
  rw [size, h.run, Option.getD_some]

theorem orderly_start (found : Nat → Option γ) (n : Nat) : Orderly found n (start γ n) where
  run := rfl
  outside _ _ := rfl
  tidy i :=
    { held := nofun
      entry := by simp [start]
      claimed := by simp [start, Owes]
      revoking := nofun
      gone := nofun
      kept := by simp [start] }
  taking := nofun
  cancelling := nofun
  handed_found := nofun
  handed_below := nofun
  handed_increasing := .nil

/-- A step of a task keeps the flags, the block and what was handed over. -/
theorem Orderly.stepTask (h : Orderly found n r) (hj : j < n) :
    Orderly found n (r.stepTask found j) := by
  have htidy : ∀ i, Tidy found (r.stepTask found j) i := by
    intro i
    by_cases hij : i = j
    · subst hij
      exact (h.tidy i).stepTask
    · exact (h.tidy i).of_same (sameAt_stepTask hij)
  have houtside : ∀ i, n ≤ i → (r.stepTask found j).tasks i = .waiting := by
    intro i hi
    rw [(sameAt_stepTask (by omega)).tasks]
    exact h.outside i hi
  obtain ⟨hrun, hblock, hnext, hhanded⟩ := stepTask_keeps found r j
  exact
    { run := hrun ▸ h.run
      outside := houtside
      tidy := htidy
      taking := by rw [hblock, hnext]; exact h.taking
      cancelling := by rw [hblock]; exact h.cancelling
      handed_found := by rw [hhanded]; exact h.handed_found
      handed_below := by rw [hhanded, hblock, hnext]; exact h.handed_below
      handed_increasing := by rw [hhanded]; exact h.handed_increasing }

/-- The block takes the entry of the index it has claimed. -/
theorem Orderly.handOver (h : Orderly found n r) (hblock : r.block = .taking j) :
    Orderly found n (r.handOver j) := by
  have hnext : r.next = j + 1 := h.taking j hblock
  have hbelow : ∀ x ∈ r.handed, x.1 < j := fun x hx => (h.handed_below x hx).2 j hblock
  have hnew : ∀ x ∈ ((r.board.published? j).map (j, ·)).toList, x.1 = j ∧ found x.1 = some x.2 := by
    intro x hx
    obtain ⟨entry, hentry, rfl⟩ := Option.map_eq_some_iff.mp (Option.mem_toList.mp hx)
    exact ⟨rfl, ((h.tidy j).entry entry hentry).1⟩
  -- Indices are taken in increasing order, so the new entry comes after all others.
  refine ⟨h.run, h.outside, ?_, nofun, nofun, ?_, ?_, ?_⟩
  · intro i
    by_cases hij : i = j
    · subst hij
      exact (h.tidy i).handOver hblock
    · exact (h.tidy i).of_same (sameAt_handOver hblock hij)
  · intro x hx
    rcases List.mem_append.mp hx with hx | hx
    · exact h.handed_found x hx
    · exact (hnew x hx).2
  · intro x hx
    refine ⟨?_, nofun⟩
    show x.1 < r.next
    rcases List.mem_append.mp hx with hx | hx
    · exact (h.handed_below x hx).1
    · have := (hnew x hx).1
      omega
  · show ((r.handed ++ _).map Prod.fst).Pairwise (· < ·)
    rw [List.map_append, List.pairwise_append]
    refine ⟨h.handed_increasing, ?_, ?_⟩
    · cases r.board.published? j <;> simp
    · intro a ha b hb
      obtain ⟨x, hx, rfl⟩ := List.mem_map.mp ha
      obtain ⟨y, hy, rfl⟩ := List.mem_map.mp hb
      rw [(hnew y hy).1]
      exact hbelow x hx

/-- A step of what the block has begun. -/
theorem Orderly.stepBlock (h : Orderly found n r) : Orderly found n r.stepBlock := by
  rw [BoardRun.stepBlock]
  split
  case h_1 => exact h
  case h_2 j hblock => exact h.handOver hblock
  case h_3 count hblock =>
    have hcount : count ≤ n := h.cancelling count hblock
    have hbelow : ∀ x ∈ r.handed, x.1 < r.next := fun x hx => (h.handed_below x hx).1
    rw [h.size_eq]
    split
    case isTrue hlt =>
      refine ⟨by rw [Board.run_claim]; exact h.run, h.outside, ?_, nofun, ?_, h.handed_found,
        fun x hx => ⟨hbelow x hx, nofun⟩, h.handed_increasing⟩
      · intro i
        refine (h.tidy i).claim h.run hlt rfl rfl rfl ?_
        simp only [Owes, hblock]
        omega
      · intro count' hcount'
        obtain rfl : count + 1 = count' := BlockPhase.cancelling.inj hcount'
        omega
    case isFalse hge =>
      refine ⟨h.run, h.outside, ?_, nofun, nofun, h.handed_found,
        fun x hx => ⟨hbelow x hx, nofun⟩, h.handed_increasing⟩
      -- Every index has its flag set, or there is no task for it.
      intro i
      refine (h.tidy i).clear ?_
      by_cases hi : i < n
      · refine .inl ((h.tidy i).claimed.mpr (.inr ?_))
        simp only [Owes, hblock]
        omega
      · exact .inr (h.outside i (by omega))

/-- A step of anyone. -/
theorem Orderly.perform (h : Orderly found n r) (a : BoardAction) :
    Orderly found n (r.perform found a) := by
  cases a with
  | task j =>
    simp only [BoardRun.perform, h.size_eq]
    split
    case isTrue hj => exact h.stepTask hj
    case isFalse => exact h
  | take j =>
    simp only [BoardRun.perform, h.size_eq]
    split
    case isFalse => exact h
    case isTrue hj =>
      -- From the flag on, the removal is owed.
      obtain ⟨hidle, hnext, hj⟩ := hj
      refine ⟨by rw [Board.run_claim]; exact h.run, h.outside, ?_, ?_, nofun, h.handed_found, ?_,
        h.handed_increasing⟩
      · intro i
        refine (h.tidy i).claim h.run hj rfl rfl rfl ?_
        simp [Owes, hidle]
      · intro i hi
        rw [BlockPhase.taking.inj hi]
      · intro x hx
        have hlt : x.1 < r.next := (h.handed_below x hx).1
        refine ⟨?_, fun i hi => ?_⟩
        · show x.1 < j + 1
          omega
        · obtain rfl : j = i := BlockPhase.taking.inj hi
          omega
  | cancel =>
    simp only [BoardRun.perform]
    split
    case isFalse => exact h
    case isTrue hidle =>
      refine ⟨h.run, h.outside, ?_, nofun, ?_, h.handed_found,
        fun x hx => ⟨(h.handed_below x hx).1, nofun⟩, h.handed_increasing⟩
      · intro i
        refine (h.tidy i).of_same ⟨rfl, rfl, rfl, rfl, ?_⟩
        simp [Owes, hidle]
      · intro count hcount
        obtain rfl : 0 = count := BlockPhase.cancelling.inj hcount
        omega
  | proceed => exact h.stepBlock

/-- A whole schedule. -/
theorem Orderly.performAll (h : Orderly found n r) (schedule : List BoardAction) :
    Orderly found n (r.performAll found schedule) := by
  induction schedule generalizing r with
  | nil => exact h
  | cons a rest ih => exact ih (h.perform a)

/-- A run holds together under every schedule. -/
theorem orderly_performAll_start (found : Nat → Option γ) (n : Nat)
    (schedule : List BoardAction) : Orderly found n ((start γ n).performAll found schedule) :=
  (orderly_start found n).performAll schedule

/-! ## Steps with nothing in between -/

theorem performAll_replicate_task (hi : i < r.size) (steps : Nat) :
    r.performAll found (List.replicate steps (.task i)) =
      (fun r : BoardRun γ => r.stepTask found i)^[steps] r := by
  induction steps generalizing r with
  | zero => rfl
  | succ steps ih =>
    have hsize : i < (r.stepTask found i).size := by
      rw [size, (stepTask_keeps _ _ i).1]
      exact hi
    rw [Function.iterate_succ_apply, ← ih hsize]
    simp only [performAll, List.replicate_succ, List.foldl_cons, perform, if_pos hi]

/-- The steps of a task in a row are its run on the board. -/
theorem board_performAll_task (hi : i < r.size) (hwaiting : r.tasks i = .waiting) :
    (r.performAll found (List.replicate 5 (.task i))).board = r.board.runTask i (found i) := by
  rw [performAll_replicate_task hi]
  simp only [Function.iterate_succ_apply, Function.iterate_zero, id]
  cases hclaimed : r.board.isClaimed i with
  | true => simp [stepTask, hwaiting, hclaimed, Board.runTask]
  | false =>
    cases hfound : found i with
    | none => simp [stepTask, hwaiting, hclaimed, hfound, Board.runTask]
    | some entry => simp [stepTask, hwaiting, hclaimed, hfound, Board.runTask, Board.recheck]

/-- Claiming an index and taking its entry in a row is a call of the block. -/
theorem board_performAll_take (hi : i < r.size) (hidle : r.block = .idle) (hnext : r.next ≤ i) :
    let after := r.performAll found [.take i, .proceed]
    after.board = (r.board.take i).2 ∧
      after.handed = r.handed ++ ((r.board.take i).1.map (i, ·)).toList := by
  simp [performAll, perform, hi, hidle, hnext, stepBlock, handOver, Board.take]

theorem board_performAll_cancelling (count : Nat) (hblock : r.block = .cancelling j)
    (hsize : r.size = j + count) :
    (r.performAll found (List.replicate (count + 1) .proceed)).board =
      ((List.range' j count).foldl Board.claim r.board).clear := by
  induction count generalizing r j with
  | zero =>
    have hend : ¬ j < r.size := by omega
    simp [performAll, perform, stepBlock, hblock, hend]
  | succ count ih =>
    have hlt : j < r.size := by omega
    have hstep : r.perform found .proceed =
        { r with board := r.board.claim j, block := .cancelling (j + 1) } := by
      simp only [perform, stepBlock, hblock, if_pos hlt]
    rw [List.replicate_succ, performAll, List.foldl_cons, hstep, List.range'_succ, List.foldl_cons]
    refine ih rfl ?_
    have hrun : (r.board.claim j).run = r.board.run := Board.run_claim
    show (r.board.claim j).run.getD 0 = j + 1 + count
    rw [hrun]
    exact hsize.trans (by omega)

/-- Setting every flag and clearing the board in a row is the cancellation of what remains. -/
theorem board_performAll_cancel (hidle : r.block = .idle) :
    (r.performAll found (.cancel :: List.replicate (r.size + 1) .proceed)).board =
      r.board.cancel := by
  have hbegin : r.perform found .cancel = { r with block := .cancelling 0 } := by
    simp only [perform, if_pos hidle]
  rw [performAll, List.foldl_cons, hbegin]
  refine (board_performAll_cancelling (r := { r with block := .cancelling 0 }) r.size rfl
    (Nat.zero_add _).symm).trans ?_
  rw [Board.cancel, List.range_eq_range', size]

/-! ## Nothing lost, nothing left -/

/-- Under every schedule, what a task found is handed over at its own index only, and at most
once; at an index where the block and the task are done, nothing is left on the board; and once
they are done everywhere, the board is empty. -/
theorem contexts_handed_once_none_left (n : Nat) (found : Nat → Option SpeculativeContext)
    (hindex : ∀ i c, found i = some c → c.index = i) (schedule : List BoardAction) :
    let r := (start SpeculativeContext n).performAll found schedule
    (∀ i c, (i, c) ∈ r.handed → c.index = i ∧ found i = some c) ∧
      (r.handed.map Prod.fst).Nodup ∧
      (r.handed.map fun x => x.2.index).Nodup ∧
      (∀ i, r.board.isClaimed i = false → r.tasks i = .finished →
        r.board.published? i = found i) ∧
      (∀ i, r.board.isClaimed i = true → r.released i = true → r.tasks i = .finished →
        r.board.published? i = none) ∧
      (r.block = .idle → (∀ i < n, r.tasks i = .finished ∧ r.board.isClaimed i = true) →
        r.board.pendingCount = 0) := by
  intro r
  have h : Orderly found n r := orderly_performAll_start found n schedule
  have hown : ∀ i c, (i, c) ∈ r.handed → c.index = i ∧ found i = some c := by
    intro i c hmem
    have hfound : found i = some c := h.handed_found (i, c) hmem
    exact ⟨hindex i c hfound, hfound⟩
  have honce : (r.handed.map Prod.fst).Nodup :=
    h.handed_increasing.imp fun hlt => Nat.ne_of_lt hlt
  have hsame : (r.handed.map fun x => x.2.index) = r.handed.map Prod.fst :=
    List.map_congr_left fun x hx => (hown x.1 x.2 hx).1
  have hgone : ∀ i, r.released i = true → r.tasks i = .finished → r.board.published? i = none :=
    fun i => (h.tidy i).gone
  refine ⟨hown, honce, hsame ▸ honce, fun i hunclaimed hfinished =>
    (h.tidy i).kept hunclaimed (.inr hfinished), fun i _ => hgone i, fun hidle hall =>
    Board.pendingCount_eq_zero fun i => ?_⟩
  -- An idle block owes no removal, so it is done with every index it has claimed.
  by_cases hi : i < n
  · obtain ⟨hfinished, hclaimed⟩ := hall i hi
    have hdone : r.released i = true ∨ r.Owes i := (h.tidy i).claimed.mp hclaimed
    rw [Owes, hidle, or_false] at hdone
    exact hgone i hdone hfinished
  · exact (h.tidy i).published?_eq_none (.inl (h.outside i (by omega)))

/-- What each of three tasks finds on a state without accounts. -/
def threeFound (i : Nat) : Option SpeculativeContext :=
  some
    { index := i
      world := .ofView (WorldState.view ∅)
      result := .successful 21000 []
      reward := 0
      beneficiaryTouched := false }

/-- The first task publishes between the claim of its index and the removal, the second after
the removal, and the third while everything is being cancelled. -/
def lateSchedule : List BoardAction :=
  [.task 0, .task 0, .take 0, .task 0, .proceed, .task 0, .task 0,
    .task 1, .task 1, .take 1, .proceed, .task 1, .task 1, .task 1,
    .task 2, .task 2, .cancel, .proceed, .proceed, .proceed, .task 2, .task 2, .proceed, .task 2]

theorem contexts_handed_once_none_left_late :
    let r := (start SpeculativeContext 3).performAll threeFound lateSchedule
    r.handed.map (fun x => (x.1, x.2.index)) = [(0, 0)] ∧
      (r.handed.map fun x => x.2.index).Nodup ∧
      (∀ i < 3, r.tasks i = .finished ∧ r.board.isClaimed i = true ∧
        r.board.published? i = none) ∧
      r.board.pendingCount = 0 := by
  intro r
  have h := contexts_handed_once_none_left 3 threeFound
    (fun i c hc => by cases hc; rfl) lateSchedule
  obtain ⟨-, -, honce, -, hgone, hempty⟩ := h
  have hdone : ∀ i < 3, r.tasks i = .finished ∧ r.board.isClaimed i = true ∧
      r.released i = true := by decide +kernel
  refine ⟨by decide +kernel, honce, fun i hi => ?_, hempty (by decide +kernel) fun i hi => ?_⟩
  · obtain ⟨hfinished, hclaimed, hreleased⟩ := hdone i hi
    exact ⟨hfinished, hclaimed, hgone i hclaimed hreleased hfinished⟩
  · exact ⟨(hdone i hi).1, (hdone i hi).2.1⟩

end BoardRun

end BlockExecution
