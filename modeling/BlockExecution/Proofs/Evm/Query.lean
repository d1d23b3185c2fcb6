/-
  Computations that ask for world state, from outside.

  A tracked computation asks for no code by its hash, and every end of it is known
  to be in a certain relation to the addresses asked about by then, whatever the
  answers are. Run on an accumulator, it is local, and it notes no more than what
  it asked for. Where only the values of an accumulator count, a computation can
  also be followed on them alone.
-/
import BlockExecution.Evm.Query
import BlockExecution.Proofs.State.Gives

namespace BlockExecution.Evm

variable {α β : Type} {blockHash? : U64 → Option Hash}

namespace Query

/-! ## Running -/

theorem run_bind (x : Query α) (f : α → Query β) (w : Accumulator) :
    Query.run blockHash? (x >>= f) w =
      Query.run blockHash? (f (Query.run blockHash? x w).1) (Query.run blockHash? x w).2 := by
  induction x generalizing w with
  | done a => rfl
  | account address next ih => exact ih _ _
  | slot key next ih => exact ih _ _
  | code codeHash next ih => exact ih _ _
  | blockHash number next ih => exact ih _ _

theorem run_account (address : Address) (next : Answer (Option Account) → Query α)
    (w : Accumulator) :
    Query.run blockHash? (.account address next) w =
      Query.run blockHash? (next ((Execution.account address).runOn w).1)
        ((Execution.account address).runOn w).2 := rfl

theorem run_slot (key : StorageKey) (next : Answer Word → Query α) (w : Accumulator) :
    Query.run blockHash? (.slot key next) w =
      Query.run blockHash? (next ((Execution.slot key).runOn w).1)
        ((Execution.slot key).runOn w).2 := rfl

theorem extends_run (blockHash? : U64 → Option Hash) (x : Query α) {w : Accumulator}
    (hw : w.Sound) : w.Extends (Query.run blockHash? x w).2 := by
  induction x generalizing w with
  | done a => exact .refl hw
  | account address next ih =>
    have hread := (Local.account address).grows w hw
    exact hread.trans (ih _ hread.sound)
  | slot key next ih =>
    have hread := (Local.slot key).grows w hw
    exact hread.trans (ih _ hread.sound)
  | code codeHash next ih => exact ih _ hw
  | blockHash number next ih => exact ih _ hw

/-! ## Tracked computations -/

/-- Every end of the computation satisfies `post` with the addresses asked about by then, those in
`asked` included, as long as no read of an account or a slot fails. Code is not asked for by its
hash. -/
def Tracks : Query α → Set Address → (α → Set Address → Prop) → Prop
  | .done a, asked, post => post a asked
  | .account address next, asked, post =>
    ∀ found, (next (.ok found)).Tracks (insert address asked) post
  | .slot key next, asked, post =>
    ∀ value, (next (.ok value)).Tracks (insert key.address asked) post
  | .code _ _, _, _ => False
  | .blockHash _ next, asked, post => ∀ answer, (next answer).Tracks asked post

variable {x : Query α} {asked asked' : Set Address} {post post' : α → Set Address → Prop}

theorem Tracks.mono (h : x.Tracks asked post) (himp : ∀ a s, post a s → post' a s) :
    x.Tracks asked post' := by
  induction x generalizing asked with
  | done a => exact himp a asked h
  | account address next ih => exact fun found => ih _ (h found)
  | slot key next ih => exact fun value => ih _ (h value)
  | code codeHash next ih => exact h.elim
  | blockHash number next ih => exact fun answer => ih _ (h answer)

theorem Tracks.bind {f : α → Query β} {after : β → Set Address → Prop} (h : x.Tracks asked post)
    (hf : ∀ a s, post a s → (f a).Tracks s after) : (x >>= f).Tracks asked after := by
  induction x generalizing asked with
  | done a => exact hf a asked h
  | account address next ih => exact fun found => ih _ (h found)
  | slot key next ih => exact fun value => ih _ (h value)
  | code codeHash next ih => exact h.elim
  | blockHash number next ih => exact fun answer => ih _ (h answer)

/-- An access to a cell that was asked about, and what comes after it. -/
theorem noted_subset_of_accessed {w w₁ w₂ : Accumulator} {c : Cell} {v : Snapshot}
    {writes : List JournalEntry} (hacc : w.Accessed c v writes w₁)
    (hasked : insert c.address asked ⊆ asked')
    (hnoted : w₂.noted ⊆ w₁.noted ∪ {d | d.address ∈ asked'}) :
    w₂.noted ⊆ w.noted ∪ {d | d.address ∈ asked'} := by
  rw [hacc.noted] at hnoted
  refine hnoted.trans (Set.union_subset ?_ Set.subset_union_right)
  rintro d (rfl | hd)
  · exact .inr (hasked (Set.mem_insert _ _))
  · exact .inl hd

/-- A tracked run notes only what it asked for. -/
theorem Tracks.run (h : x.Tracks asked post) (blockHash? : U64 → Option Hash) {w : Accumulator}
    (hw : w.Sound) (hr : w.base.Readable) :
    ∃ asked', asked ⊆ asked' ∧ post (Query.run blockHash? x w).1 asked' ∧
      (Query.run blockHash? x w).2.noted ⊆ w.noted ∪ {c | c.address ∈ asked'} := by
  induction x generalizing asked w with
  | done a => exact ⟨asked, subset_rfl, h, Set.subset_union_left⟩
  | account address next ih =>
    -- The read answers, so the computation goes on as it was tracked to.
    obtain ⟨w₁, hread, -, hacc⟩ := (Execution.isAccess_account address).answers hw hr
    obtain ⟨asked', hsub, hpost, hnoted⟩ :=
      ih (.ok (w.values.account address)) (h _) hacc.sound (hacc.base ▸ hr)
    rw [run_account, hread]
    exact ⟨asked', (Set.subset_insert _ _).trans hsub, hpost,
      noted_subset_of_accessed hacc hsub hnoted⟩
  | slot key next ih =>
    obtain ⟨w₁, hread, -, hacc⟩ := (Execution.isAccess_slot key).answers hw hr
    obtain ⟨asked', hsub, hpost, hnoted⟩ :=
      ih (.ok (w.values.slot key)) (h _) hacc.sound (hacc.base ▸ hr)
    rw [run_slot, hread]
    exact ⟨asked', (Set.subset_insert _ _).trans hsub, hpost,
      noted_subset_of_accessed hacc hsub hnoted⟩
  | code codeHash next ih => exact h.elim
  | blockHash number next ih => exact ih _ (h _) hw hr

/-- A tracked computation is local. -/
theorem Tracks.isLocal (h : x.Tracks asked post) (blockHash? : U64 → Option Hash) :
    Local (Query.run blockHash? x) := by
  induction x generalizing asked with
  | done a => exact Local.pure a
  | account address next ih =>
    apply (Local.account address).bind_of_answers fun answer w hw => extends_run _ (next answer) hw
    intro s hs hr
    obtain ⟨w, hread, -, -⟩ := (Execution.isAccess_account address).answers hs hr
    rw [hread]
    exact ih _ (h _)
  | slot key next ih =>
    apply (Local.slot key).bind_of_answers fun answer w hw => extends_run _ (next answer) hw
    intro s hs hr
    obtain ⟨w, hread, -, -⟩ := (Execution.isAccess_slot key).answers hs hr
    rw [hread]
    exact ih _ (h _)
  | code codeHash next ih => exact h.elim
  | blockHash number next ih => exact ih _ (h _)

/-! ## Computations on values -/

/-- What the computation ends with on the values `u`. There is no end if it asks for code by its
hash: the values alone do not tell where such code is found. -/
def on (blockHash? : U64 → Option Hash) (u : Snapshot) : Query α → Option α
  | .done a => some a
  | .account address next => (next (.ok (u.account address))).on blockHash? u
  | .slot key next => (next (.ok (u.slot key))).on blockHash? u
  | .code _ _ => none
  | .blockHash number next => (next (lookUpHash blockHash? number)).on blockHash? u

/-- A run ends as the computation does on the values, and changes none of them. -/
theorem run_of_on {a : α} {w : Accumulator} (h : x.on blockHash? w.values = some a)
    (hw : w.Sound) (hr : w.base.Readable) :
    ∃ w', Query.run blockHash? x w = (a, w') ∧ w.Extends w' ∧ w'.values = w.values := by
  induction x generalizing w with
  | done b => exact ⟨w, congrArg (·, w) (Option.some.inj h), .refl hw, rfl⟩
  | account address next ih =>
    obtain ⟨w₁, hread, hext, hacc⟩ := (Execution.isAccess_account address).answers hw hr
    obtain ⟨w₂, hrun, hext', hvalues⟩ := ih (.ok (w.values.account address))
      (by rw [hacc.values]; exact h) hacc.sound (hacc.base ▸ hr)
    rw [run_account, hread]
    exact ⟨w₂, hrun, hext.trans hext', hvalues.trans hacc.values⟩
  | slot key next ih =>
    obtain ⟨w₁, hread, hext, hacc⟩ := (Execution.isAccess_slot key).answers hw hr
    obtain ⟨w₂, hrun, hext', hvalues⟩ := ih (.ok (w.values.slot key))
      (by rw [hacc.values]; exact h) hacc.sound (hacc.base ▸ hr)
    rw [run_slot, hread]
    exact ⟨w₂, hrun, hext.trans hext', hvalues.trans hacc.values⟩
  | code codeHash next ih => cases h
  | blockHash number next ih => exact ih _ h hw hr

end Query

/-! ## Computations that end at a failed read -/

namespace Reading

theorem runOn_execute (x : Reading α) (w : Accumulator) :
    (execute blockHash? x).runOn w = Query.run blockHash? x.run w := rfl

theorem extends_execute (blockHash? : U64 → Option Hash) (x : Reading α) {w : Accumulator}
    (hw : w.Sound) : w.Extends ((execute blockHash? x).runOn w).2 :=
  Query.extends_run blockHash? x.run hw

theorem execute_bind (x : Reading α) (f : α → Reading β) :
    execute blockHash? (x >>= f) =
      execute blockHash? x >>= fun a => execute blockHash? (f a) := by
  funext w
  show (execute blockHash? (x >>= f)).runOn w = (execute blockHash? x >>= _).runOn w
  rw [Execution.runOn_bind]
  show Query.run blockHash? ((x.run : Query (Answer α)) >>= ExceptT.bindCont f) w = _
  rw [Query.run_bind, runOn_execute]
  rcases Query.run blockHash? x.run w with ⟨answer, w'⟩
  cases answer <;> rfl

/-- A tracked computation that does not fail as long as no read of an account or a slot does. -/
def Answers (x : Reading α) (asked : Set Address) (post : α → Set Address → Prop) : Prop :=
  (x.run : Query (Answer α)).Tracks asked fun answer s => ∃ a, answer = .ok a ∧ post a s

/-- What the computation ends with on the values `u`, unless it asks for code by its hash. -/
def on (blockHash? : U64 → Option Hash) (u : Snapshot) (x : Reading α) : Option (Answer α) :=
  Query.on blockHash? u x.run

theorem gives_of_on {x : Reading α} {u : Snapshot} {a : α}
    (h : x.on blockHash? u = some (.ok a)) : (execute blockHash? x).Gives u a u := by
  rintro w hw hr rfl
  obtain ⟨w', hrun, hext, hvalues⟩ := Query.run_of_on h hw hr
  exact ⟨a, w', hrun, hext, rfl, hvalues⟩

/-- A computation of which every end without a failure is tracked. -/
def Tracks (x : Reading α) (asked : Set Address) (post : α → Set Address → Prop) : Prop :=
  (x.run : Query (Answer α)).Tracks asked fun answer s => ∀ a, answer = .ok a → post a s

variable {x : Reading α} {asked : Set Address} {post : α → Set Address → Prop}

namespace Answers

theorem pure {a : α} (h : post a asked) : (Pure.pure a : Reading α).Answers asked post :=
  ⟨a, rfl, h⟩

theorem bind {f : α → Reading β} {after : β → Set Address → Prop} (h : x.Answers asked post)
    (hf : ∀ a s, post a s → (f a).Answers s after) : (x >>= f).Answers asked after := by
  apply Query.Tracks.bind h
  rintro _ s ⟨a, rfl, hpost⟩
  exact hf a s hpost

theorem account {address : Address} {post : Option Account → Set Address → Prop}
    (h : ∀ found, post found (insert address asked)) :
    (Reading.account address).Answers asked post := fun found => ⟨found, rfl, h found⟩

theorem slot {key : StorageKey} {post : Word → Set Address → Prop}
    (h : ∀ value, post value (insert key.address asked)) :
    (Reading.slot key).Answers asked post := fun value => ⟨value, rfl, h value⟩

theorem tracks (h : x.Answers asked post) : x.Tracks asked post := by
  apply Query.Tracks.mono h
  rintro _ s ⟨a, rfl, hpost⟩ _ ⟨⟩
  exact hpost

end Answers

namespace Tracks

theorem pure {a : α} (h : post a asked) : (Pure.pure a : Reading α).Tracks asked post :=
  (Answers.pure h).tracks

theorem throw (e : StateError) : (MonadExcept.throw e : Reading α).Tracks asked post := by
  rintro _ ⟨⟩

theorem bind {f : α → Reading β} {after : β → Set Address → Prop} (h : x.Tracks asked post)
    (hf : ∀ a s, post a s → (f a).Tracks s after) : (x >>= f).Tracks asked after := by
  apply Query.Tracks.bind h
  intro answer s hpost
  cases answer with
  | ok a => exact hf a s (hpost a rfl)
  | error e => exact throw e

theorem isLocal (h : x.Tracks asked post) (blockHash? : U64 → Option Hash) :
    Local (execute blockHash? x).runOn :=
  Query.Tracks.isLocal h blockHash?

end Tracks

end Reading

end BlockExecution.Evm
