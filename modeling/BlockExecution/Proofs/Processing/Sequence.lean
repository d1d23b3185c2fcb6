/-
  Transactions one after the other, over a state.

  Each transaction is committed before the next one starts. What a list of them
  does depends on the values that it starts from and on nothing else, so it does
  the same on an accumulator in use and on a fresh one over a state that has these
  values.
-/
import BlockExecution.Proofs.Processing.Lawful
import BlockExecution.Proofs.State.Persistence

namespace BlockExecution

namespace Processor

variable {p : Processor} {ctx : BlockContext} {t : Transaction} {v : Validation}
  {view view' : WorldView} {w q b : Accumulator}

/-- Runs transactions one after the other and makes the writes of each one final. -/
def processEach (p : Processor) (ctx : BlockContext) (v : Validation) :
    List Transaction → Execution (List ProcessingResult)
  | [] => return []
  | t :: rest => do
    let result ← p.process ctx t v
    modify (·.commit)
    return result :: (← p.processEach ctx v rest)

/-- Runs transactions on an accumulator over a state and applies its changes: the results and the
new state. -/
def runOver (p : Processor) (ctx : BlockContext) (v : Validation) (s : WorldState)
    (transactions : List Transaction) : Except StateError (List ProcessingResult) × WorldState :=
  let (results, w) := (p.processEach ctx v transactions).runOn (.ofView s.view)
  (results, s.apply w.changes)

/-- Whether no transaction of a list, run on an accumulator, deletes an account that holds a
slot, whether or not the account comes back later. -/
def DeletesOnlyBare (p : Processor) (ctx : BlockContext) (v : Validation) :
    Accumulator → List Transaction → Prop
  | _, [] => True
  | w, t :: rest =>
    w.values.LeavesNoSlots ((p.process ctx t v).runOn w).2.values ∧
      p.DeletesOnlyBare ctx v ((p.process ctx t v).runOn w).2.commit rest

/-! ## Runs -/

/-- A transaction, its commit, and all the others. -/
theorem runOn_processEach_cons (rest : List Transaction) (w : Accumulator) :
    (p.processEach ctx v (t :: rest)).runOn w =
      match (p.process ctx t v).runOn w with
      | (.error e, w') => (.error e, w')
      | (.ok result, w') =>
        (((p.processEach ctx v rest).runOn w'.commit).1.map (result :: ·),
          ((p.processEach ctx v rest).runOn w'.commit).2) := by
  -- A commit always goes through, so only the first transaction can stop the list here.
  have hcommit : ∀ w' : Accumulator, (modify (·.commit) : Execution Unit).runOn w' =
      (.ok (), w'.commit) := fun _ => rfl
  rw [processEach, Execution.runOn_bind]
  rcases (p.process ctx t v).runOn w with ⟨answer, w'⟩
  cases answer with
  | error e => rfl
  | ok result =>
    dsimp only
    rw [Execution.runOn_bind_of_ok (hcommit w'), Execution.runOn_bind]
    rcases (p.processEach ctx v rest).runOn w'.commit with ⟨answer', w''⟩
    cases answer' <;> rfl

/-- A list that goes through: its first transaction does, and so do the others after it. -/
theorem processEach_cons_ok {rest : List Transaction} {results : List ProcessingResult}
    {w' : Accumulator} (h : (p.processEach ctx v (t :: rest)).runOn w = (.ok results, w')) :
    ∃ result w₁ results', (p.process ctx t v).runOn w = (.ok result, w₁) ∧
      (p.processEach ctx v rest).runOn w₁.commit = (.ok results', w') ∧
      results = result :: results' := by
  rw [runOn_processEach_cons] at h
  rcases hfirst : (p.process ctx t v).runOn w with ⟨answer, w₁⟩
  rw [hfirst] at h
  cases answer with
  | error e => cases h
  | ok result =>
    dsimp only at h
    rcases hrest : (p.processEach ctx v rest).runOn w₁.commit with ⟨answer', w₂⟩
    rw [hrest] at h
    cases answer' with
    | error e => cases h
    | ok results' =>
      obtain ⟨hresults, rfl⟩ := Prod.mk.inj h
      exact ⟨result, w₁, results', rfl, hrest, (Except.ok.inj hresults).symm⟩

/-- A list that goes through can be followed by another one. -/
theorem runOn_processEach_append {xs : List Transaction} {results : List ProcessingResult}
    {w' : Accumulator} (h : (p.processEach ctx v xs).runOn w = (.ok results, w'))
    (ys : List Transaction) :
    (p.processEach ctx v (xs ++ ys)).runOn w =
      (((p.processEach ctx v ys).runOn w').1.map (results ++ ·),
        ((p.processEach ctx v ys).runOn w').2) := by
  induction xs generalizing w results with
  | nil =>
    obtain ⟨hresults, rfl⟩ := Prod.mk.inj h
    obtain rfl := Except.ok.inj hresults
    rcases hrun : (p.processEach ctx v ys).runOn w with ⟨answer, w''⟩
    cases answer <;> exact hrun
  | cons t rest ih =>
    obtain ⟨result, w₁, results', hfirst, hrest, rfl⟩ := processEach_cons_ok h
    rw [List.cons_append, runOn_processEach_cons, hfirst]
    dsimp only
    rw [ih hrest]
    rcases (p.processEach ctx v ys).runOn w' with ⟨answer, w''⟩
    cases answer <;> rfl

/-- The condition on two lists is that on the first, and that on the second where the first ends. -/
theorem deletesOnlyBare_append {xs : List Transaction} {results : List ProcessingResult}
    {w' : Accumulator} (h : (p.processEach ctx v xs).runOn w = (.ok results, w'))
    (ys : List Transaction) :
    p.DeletesOnlyBare ctx v w (xs ++ ys) ↔
      p.DeletesOnlyBare ctx v w xs ∧ p.DeletesOnlyBare ctx v w' ys := by
  induction xs generalizing w results with
  | nil =>
    obtain rfl := (Prod.mk.inj h).2
    exact (and_iff_right trivial).symm
  | cons t rest ih =>
    obtain ⟨result, w₁, results', hfirst, hrest, rfl⟩ := processEach_cons_ok h
    simp only [List.cons_append, DeletesOnlyBare, hfirst, ih hrest, and_assoc]

/-! ## Runs from the same values -/

theorem Lawful.processEach_congr (hp : p.Lawful) (ctx : BlockContext) (v : Validation)
    (xs : List Transaction) (hq : q.StandsOn view) (hr : view.Readable) (hb : b.StandsOn view')
    (hr' : view'.Readable) (hvalues : b.values = q.values) :
    ((p.processEach ctx v xs).runOn b).1 = ((p.processEach ctx v xs).runOn q).1 ∧
      ((p.processEach ctx v xs).runOn b).2.values =
        ((p.processEach ctx v xs).runOn q).2.values := by
  induction xs generalizing q b with
  | nil => exact ⟨rfl, hvalues⟩
  | cons t rest ih =>
    -- One transaction leaves the same values on both sides, from which the others start.
    obtain ⟨hanswer, hafter⟩ := hp.process_congr ctx t v hq hr hb hr' hvalues
    have hq' := hp.standsOn_process ctx t v hq hr
    have hb' := hp.standsOn_process ctx t v hb hr'
    rw [runOn_processEach_cons, runOn_processEach_cons]
    rcases hqrun : (p.process ctx t v).runOn q with ⟨answer, q₁⟩
    rcases hbrun : (p.process ctx t v).runOn b with ⟨answer', b₁⟩
    rw [hqrun, hbrun] at hanswer hafter
    rw [hqrun] at hq'
    rw [hbrun] at hb'
    obtain rfl : answer' = answer := hanswer
    cases answer' with
    | error e => exact ⟨rfl, hafter⟩
    | ok result =>
      obtain ⟨hresults, hlast⟩ := ih hq'.commit hb'.commit hafter
      exact ⟨congrArg (·.map (result :: ·)) hresults, hlast⟩

end Processor

end BlockExecution
