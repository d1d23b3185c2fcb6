/-
  The interpreter credits the reward last.

  Up to the reward it has asked about accounts that are in use alone. The
  beneficiary is then in use as well or is read, and what it is found to be shows
  in its own entry of the diff only.
-/
import BlockExecution.Interpreter.Transact
import BlockExecution.Proofs.Evm.Engine
import BlockExecution.Proofs.Interpreter.Machine

namespace BlockExecution.Interpreter

open BlockExecution.Evm (Engine Input Nested Reading Refusal Returned payReward)

variable {i : Input} {l : Ledger} {asked : Set Address}

/-! ## Bodies -/

theorem Ledger.answers_calledCode (h : asked ⊆ l.inUse) (a : Address) :
    (l.calledCode a).Answers asked fun result s => l.Reaches result.2 s := by
  unfold calledCode
  dsimp only
  split
  · exact .pure (.refl h)
  · apply (answers_load h _).bind
    rintro l' s ⟨hreach, -⟩
    exact .pure hreach

theorem tracks_call (h : asked ⊆ l.inUse) (recipient : Address) (gas : Nat) :
    (call i recipient gas l).Tracks asked fun o s => s ⊆ o.ledger.inUse := by
  unfold call
  apply (Ledger.answers_load h recipient).tracks.bind
  rintro l₁ s₁ ⟨hreach₁, hrecipient⟩
  apply (Ledger.answers_calledCode hreach₁.covers recipient).tracks.bind
  rintro ⟨code, l₂⟩ s₂ hreach₂
  have hbegin : (Call.begin ⟨i.tx.sender, recipient, i.tx.value, code, i.tx.input, gas⟩ l₂
      []).Standing s₂ :=
    Call.standing_begin hreach₂.covers (hreach₂.keeps hrecipient) fun w hw => nomatch hw
  apply (Progress.tracks_run hbegin gas).bind
  intro o s ho
  refine .pure ?_
  rw [Ledger.inUse_congr (o.fetched_keepOrUndo l₂.effects)]
  exact ho

theorem Outcome.fetched_deposit (o : Outcome) (created : Address) :
    (o.deposit created).ledger.fetched = o.ledger.fetched := by
  unfold deposit
  split
  · dsimp only
    split_ifs <;> rfl
  · rfl

theorem tracks_construct {created : Address} (h : asked ⊆ l.inUse) (hcreated : created ∈ l.inUse)
    (gas : Nat) :
    (construct i created gas l).Tracks asked fun o s => s ⊆ o.ledger.inUse := by
  have hframe : (Progress.running
      { ledger := l
        frame :=
          { address := created
            caller := i.tx.sender
            value := i.tx.value
            input := []
            code := .ofBytes i.tx.input
            gas }
        waiting := [] }).Standing asked := ⟨h, hcreated, fun w hw => nomatch hw⟩
  unfold construct
  apply (Progress.tracks_run hframe gas).bind
  intro o s ho
  refine .pure ?_
  rw [Ledger.inUse_congr (o.fetched_deposit created)]
  exact ho

theorem tracks_create (h : asked ⊆ l.inUse) (gas : Nat) :
    (create i gas l).Tracks asked fun o s => s ⊆ o.ledger.inUse := by
  unfold create
  dsimp only
  split
  · exact .pure h
  · split
    · exact .pure h
    · apply Reading.Tracks.bind (Ledger.answers_load (l := l.setNonce _ _) h _).tracks
      rintro l₁ s₁ ⟨hreach, hcreated⟩
      split
      · exact .pure hreach.covers
      · split
        · exact .pure hreach.covers
        · rename_i founded hfounded
          -- Founding the account reads nothing more.
          have hsame := Ledger.inUse_congr (Ledger.fetched_found? hfounded)
          rw [← hsame] at hcreated
          refine Reading.Tracks.bind
            (tracks_construct (hsame ▸ hreach.covers) hcreated gas) ?_
          intro o s ho
          refine .pure ?_
          rw [Ledger.inUse_congr (o.fetched_keepOrUndo l₁.effects)]
          exact ho

theorem tracks_body (h : asked ⊆ l.inUse) (gas : Nat) :
    (body i gas l).Tracks asked fun o s => s ⊆ o.ledger.inUse := by
  unfold body
  split
  · exact tracks_call h _ gas
  · exact tracks_create h gas

/-! ## Up to the reward -/

theorem fetched_charge (i : Input) (l : Ledger) : (charge i l).fetched = l.fetched := by
  unfold charge
  dsimp only
  split <;> rfl

theorem tracks_execute (h : asked ⊆ l.inUse) :
    (execute i l).Tracks asked fun c s => s ⊆ c.ledger.inUse := by
  have hcharged : asked ⊆ (charge i l).inUse := by
    rw [Ledger.inUse_congr (fetched_charge i l)]
    exact h
  unfold execute
  apply (tracks_body hcharged _).bind
  intro o s ho
  split
  · exact (Ledger.answers_load ho _).tracks.bind fun _ _ _ => .throw _
  · refine .pure ?_
    rw [Outcome.close, Ledger.inUse_congr (Ledger.fetched_deposit _ _ _)]
    exact ho

/-- Up to the reward a transaction has asked about accounts in use alone. -/
theorem tracks_front (i : Input) :
    (front i).Tracks ∅ fun answer s => ∀ c, answer = .ok c → s ⊆ c.ledger.inUse := by
  -- A refused transaction closes nothing.
  have hrefused : ∀ (fault : Rejection) (s : Set Address),
      (pure (.error fault) : Reading (Except Rejection Closing)).Tracks s fun answer s =>
        ∀ c, answer = .ok c → s ⊆ c.ledger.inUse := fun fault s =>
    .pure fun c hc => nomatch hc
  unfold front
  split
  · exact hrefused _ _
  · apply (Ledger.answers_load (Set.empty_subset _) _).tracks.bind
    rintro l s ⟨hreach, -⟩
    split
    · exact hrefused _ _
    · apply (tracks_execute hreach.covers).bind
      intro c s' hc
      refine .pure ?_
      rintro _ ⟨⟩
      exact hc

/-! ## The reward -/

namespace Closing

/-- The ledger in which the beneficiary is in use, if it is found so where it has to be read. -/
def loaded (c : Closing) (beneficiary : Address) (found : Option Account) : Ledger :=
  if c.ledger.fetched.contains beneficiary then c.ledger.warm beneficiary
  else
    { c.ledger.warm beneficiary with
      fetched := c.ledger.fetched.insert beneficiary found }

/-- The transaction as one that has returned. -/
def returned (c : Closing) (beneficiary : Address) : Returned where
  result := c.result
  inner := []
  loaded := c.ledger.fetched.keys
  credited found := ((c.loaded beneficiary found).deposit beneficiary c.reward).diff

theorem finish_eq (c : Closing) (beneficiary : Address) :
    c.finish beneficiary = (c.returned beneficiary).pay beneficiary := by
  unfold finish Returned.pay
  by_cases h : c.ledger.fetched.contains beneficiary = true
  · have hmem : beneficiary ∈ (c.returned beneficiary).loaded :=
      Std.ExtTreeMap.mem_keys.mpr (Std.ExtTreeMap.mem_iff_contains.mpr h)
    rw [if_pos hmem, Ledger.load, Ledger.fetched_warm, if_pos h]
    simp only [pure_bind, run, Returned.run, returned, loaded, if_pos h]
    rfl
  · have hmem : beneficiary ∉ (c.returned beneficiary).loaded := fun hmem =>
      h (Std.ExtTreeMap.mem_iff_contains.mp (Std.ExtTreeMap.mem_keys.mp hmem))
    rw [if_neg hmem, Ledger.load_of_not_fetched ((Bool.not_eq_true _).mp h), bind_assoc]
    simp only [pure_bind, run, Returned.run, returned, loaded, if_neg h]
    rfl

/-- What the beneficiary is found to be, and its reward, show in its own entry only. -/
theorem sameBut_credited (c : Closing) (beneficiary : Address) (found : Option Account) :
    c.ledger.SameBut beneficiary ((c.loaded beneficiary found).deposit beneficiary c.reward) := by
  have hloaded : c.ledger.SameBut beneficiary (c.loaded beneficiary found) := by
    unfold loaded
    split <;> exact ⟨fun _ _ => rfl, rfl, rfl, rfl⟩
  exact hloaded.trans (Ledger.sameBut_deposit _ _ _)

theorem regular_returned {c : Closing} (h : asked ⊆ c.ledger.inUse) (beneficiary : Address) :
    (c.returned beneficiary).Regular beneficiary asked where
  nested := .nil
  loads _ ha := Std.ExtTreeMap.mem_keys.mpr (h ha)
  elsewhere _ found :=
    (c.sameBut_credited beneficiary found).diff_without.trans
      (c.sameBut_credited beneficiary none).diff_without.symm

end Closing

/-- A transaction up to the reward, as processing sees it. -/
def returning (i : Input) : Reading (Except Refusal Returned) :=
  front i >>= fun
    | .error fault => pure (.error (.transaction fault.message))
    | .ok c => pure (.ok (c.returned i.block.beneficiary))

theorem isFront_returning (i : Input) : Engine.IsFront engine i (returning i) where
  splits := by
    unfold engine returning
    rw [bind_assoc]
    apply bind_congr
    intro answer
    cases answer with
    | error fault => rfl
    | ok c =>
      dsimp only
      rw [c.finish_eq]
      rfl
  tracks := by
    apply (tracks_front i).bind
    intro answer s hanswer
    cases answer with
    | error fault => exact .pure fun r hr => nomatch hr
    | ok c =>
      refine .pure ?_
      rintro _ ⟨⟩
      exact Closing.regular_returned (hanswer c rfl) _

/-- The interpreter credits the reward after the outermost frame has returned. -/
theorem creditsLast_engine : Engine.CreditsLast engine := fun i => ⟨_, isFront_returning i⟩

end BlockExecution.Interpreter
