/-
  Going back past forgotten addresses.

  A checkpoint is a length of the journal. Forgetting an address takes its writes
  off the journal, also those from before the checkpoint, and then as many of the
  oldest writes after the checkpoint are left standing when going back to it. So
  the other addresses are sure to be rolled back exactly if no write below the
  checkpoint belongs to the address.
-/
import BlockExecution.Proofs.State.History
import BlockExecution.Proofs.State.NetChange
import BlockExecution.Proofs.State.Record

namespace BlockExecution

open BlockExecution.Snapshot

/-! ## Undoing writes beside one address -/

/-- The cells of all other addresses. -/
def Cell.beside (a : Address) : Set Cell := {c | c.address ≠ a}

namespace Snapshot

variable {u v : Snapshot} {region : Set Cell} {a : Address}

theorem agreeAt_restore_of_ne {entry : JournalEntry} {c : Cell} (h : c ≠ entry.cell)
    (v : Snapshot) : (v.restore entry).AgreeAt v c := by
  cases entry with
  | account b previous => exact agreeAt_setAccount h v previous
  | slot k previous => exact agreeAt_setSlot h v previous

theorem agreeAt_restore_cell (u v : Snapshot) (entry : JournalEntry) :
    (u.restore entry).AgreeAt (v.restore entry) entry.cell := by
  cases entry with
  | account b previous =>
    exact (account_setAccount_self u b previous).trans (account_setAccount_self v b previous).symm
  | slot k previous =>
    exact (slot_setSlot_self u k previous).trans (slot_setSlot_self v k previous).symm

theorem AgreeOn.restore (h : AgreeOn region u v) (entry : JournalEntry) :
    AgreeOn region (u.restore entry) (v.restore entry) := by
  intro c hc
  by_cases hcell : c = entry.cell
  · rw [hcell]
    exact agreeAt_restore_cell u v entry
  · exact ((agreeAt_restore_of_ne hcell u).trans (h c hc)).trans
      (agreeAt_restore_of_ne hcell v).symm

/-- A write of the address makes no difference to the others. -/
theorem agreeOn_restore {entry : JournalEntry} (h : entry.address = a) (v : Snapshot) :
    AgreeOn (Cell.beside a) (v.restore entry) v := by
  intro c hc
  apply agreeAt_restore_of_ne
  rintro rfl
  exact hc (Accumulator.address_journalEntry entry ▸ h)

/-- Neither do all of them: whether they are undone or left out is the same elsewhere. -/
theorem AgreeOn.rewind_filter (h : AgreeOn (Cell.beside a) u v) (writes : List JournalEntry) :
    AgreeOn (Cell.beside a) (u.rewind (writes.filter (·.address != a))) (v.rewind writes) := by
  induction writes generalizing u v with
  | nil => exact h
  | cons entry rest ih =>
    by_cases hentry : entry.address = a
    · have hdrop : ¬ (entry.address != a) = true := by simp [hentry]
      simp only [List.filter_cons, if_neg hdrop]
      exact ih (h.trans (agreeOn_restore hentry v).symm)
    · have hkeep : (entry.address != a) = true := bne_iff_ne.mpr hentry
      simp only [List.filter_cons, if_pos hkeep]
      exact ih (h.restore entry)

end Snapshot

/-! ## Steps above a checkpoint -/

/-- Whether a step leaves a checkpoint live and forgets no address but `a`. -/
def Step.Above (a : Address) (c : Checkpoint) : Step → Prop
  | .operation _ | .checkpoint => True
  | .revertTo d => c.depth ≤ d.depth
  | .forget b => b = a
  | .commit | .importChanges _ | .importPrior _ => False

namespace Accumulator

variable {view : WorldView} {w w' : Accumulator} {a : Address}

/-- An accumulator reached from a checkpoint at `w`: its journal is the one from there, perhaps
without the writes of `a`, under newer writes that lead back to the values from there beside
`a`. -/
structure LeadsBack (w : Accumulator) (a : Address) (w' : Accumulator) : Prop where
  sound : w'.Sound
  journal : ∃ newer older, w'.journal = newer ++ older ∧
    (older = w.journal ∨ older = w.journal.filter (·.address != a)) ∧
    AgreeOn (Cell.beside a) (w'.values.rewind newer) w.values

theorem leadsBack_refl (hs : w.Sound) (a : Address) : w.LeadsBack a w where
  sound := hs
  journal := ⟨[], w.journal, rfl, .inl rfl, AgreeOn.refl _ _⟩

/-- Going back to a depth above the older part of the journal leaves the oldest of the newer
writes standing, so many that the depth is reached. -/
theorem exists_left_revertTo (hs : w.Sound) {newer older : List JournalEntry}
    (hjournal : w.journal = newer ++ older) {d : Checkpoint} (hd : older.length ≤ d.depth) :
    ∃ left, (w.revertTo d).Sound ∧ (w.revertTo d).journal = left ++ older ∧
      left.length ≤ d.depth - older.length ∧
      (w.revertTo d).values.rewind left = w.values.rewind newer := by
  have hrewound := rewound_revertTo_depth hs d
  -- Going back so far only, none of the older writes is undone.
  have hcount : w.journal.length - d.depth ≤ newer.length := by
    rw [hjournal, List.length_append]
    omega
  have htake : w.journal.take (w.journal.length - d.depth) =
      newer.take (w.journal.length - d.depth) := by
    rw [hjournal] at hcount ⊢
    exact List.take_append_of_le_length hcount
  have hdrop : w.journal.drop (w.journal.length - d.depth) =
      newer.drop (w.journal.length - d.depth) ++ older := by
    rw [hjournal] at hcount ⊢
    exact List.drop_append_of_le_length hcount
  refine ⟨newer.drop (w.journal.length - d.depth), hrewound.sound, ?_, ?_, ?_⟩
  · rw [hrewound.journal, hdrop]
  · rw [List.length_drop, hjournal, List.length_append]
    omega
  · rw [hrewound.values, htake, ← rewind_append, List.take_append_drop]

/-- An operation puts on the journal what leads back to the values before it. -/
theorem LeadsBack.operation (h : w.LeadsBack a w') (op : Operation) :
    w.LeadsBack a (op.execution.runOn w').2 := by
  obtain ⟨newer, older, hjournal, holder, hback⟩ := h.journal
  have hgrown := op.grows h.sound
  obtain ⟨writes, hwrites, hundone⟩ := hgrown.journal
  refine ⟨hgrown.sound, writes ++ newer, older, ?_, holder, ?_⟩
  · rw [hwrites, hjournal, List.append_assoc]
  · rw [rewind_append, hundone]
    exact hback

/-- Going back to a depth above the checkpoint undoes newer writes only. -/
theorem LeadsBack.revertTo (h : w.LeadsBack a w') {d : Checkpoint}
    (hd : w.journal.length ≤ d.depth) : w.LeadsBack a (w'.revertTo d) := by
  obtain ⟨newer, older, hjournal, holder, hback⟩ := h.journal
  have hlength : older.length ≤ w.journal.length := by
    rcases holder with rfl | rfl
    · exact le_rfl
    · exact List.length_filter_le ..
  obtain ⟨left, hsound, hleft, -, hsame⟩ :=
    exists_left_revertTo h.sound hjournal (hlength.trans hd)
  exact ⟨hsound, left, older, hleft, holder, hsame ▸ hback⟩

/-- Forgetting the address takes its writes off both parts of the journal, and values elsewhere do
not depend on them. -/
theorem LeadsBack.forget (h : w.LeadsBack a w') : w.LeadsBack a (w'.forget a) := by
  obtain ⟨newer, older, hjournal, holder, hback⟩ := h.journal
  have hfiltered : older.filter (·.address != a) = w.journal.filter (·.address != a) := by
    rcases holder with rfl | rfl
    · rfl
    · rw [List.filter_filter]
      simp only [Bool.and_self]
  refine ⟨sound_forget h.sound a, newer.filter (·.address != a), older.filter (·.address != a),
    ?_, .inr hfiltered, ?_⟩
  · show w'.journal.filter (·.address != a) = _
    rw [hjournal, List.filter_append]
  · have hvalues : AgreeOn (Cell.beside a) (w'.forget a).values w'.values :=
      fun c hc => values_forget_of_ne w' hc
    exact (hvalues.rewind_filter newer).trans hback

theorem LeadsBack.perform (h : w.LeadsBack a w') {step : Step}
    (hstep : step.Above a w.checkpoint) : w.LeadsBack a (w'.perform step).2 := by
  cases step with
  | operation op => exact h.operation op
  | checkpoint => exact h
  | revertTo d => exact h.revertTo hstep
  | forget b =>
    obtain rfl : b = a := hstep
    exact h.forget
  | commit => exact hstep.elim
  | importChanges source => exact hstep.elim
  | importPrior source => exact hstep.elim

theorem LeadsBack.performSteps (h : w.LeadsBack a w') {steps : List Step}
    (hsteps : ∀ step ∈ steps, step.Above a w.checkpoint) :
    w.LeadsBack a (w'.performSteps steps).2 := by
  induction steps generalizing w' with
  | nil => exact h
  | cons step rest ih =>
    exact ih (h.perform (hsteps step List.mem_cons_self)) fun s hs =>
      hsteps s (List.mem_cons_of_mem _ hs)

/-! ## Going back to the checkpoint -/

/-- Going back leaves at most as many writes standing as writes of the address were below the
checkpoint. They are the newest on the journal, and undoing them too leads to the values from the
checkpoint beside the address. -/
theorem LeadsBack.exists_left (h : w.LeadsBack a w') :
    ∃ left older, (w'.revertTo w.checkpoint).journal = left ++ older ∧
      left.length ≤ (w.journal.filter (·.address == a)).length ∧
      AgreeOn (Cell.beside a) ((w'.revertTo w.checkpoint).values.rewind left) w.values := by
  obtain ⟨newer, older, hjournal, holder, hback⟩ := h.journal
  have hlengths : older.length ≤ w.journal.length ∧
      w.journal.length ≤ older.length + (w.journal.filter (·.address == a)).length := by
    rcases holder with rfl | rfl
    · exact ⟨le_rfl, Nat.le_add_right ..⟩
    · have hparts := List.length_eq_length_filter_add (l := w.journal) (·.address == a)
      exact ⟨List.length_filter_le .., (hparts.trans (Nat.add_comm ..)).le⟩
  have hdepth : older.length ≤ w.checkpoint.depth := hlengths.1
  obtain ⟨left, -, hleft, hcount, hsame⟩ := exists_left_revertTo h.sound hjournal hdepth
  refine ⟨left, older, hleft, hcount.trans ?_, hsame ▸ hback⟩
  exact Nat.sub_le_iff_le_add'.mpr hlengths.2

/-- Whatever is done while the present checkpoint is live, `a` being forgotten any number of times,
going back gives all cells of other addresses their present values. -/
def RollsBackBeside (w : Accumulator) (a : Address) : Prop :=
  ∀ steps : List Step, (∀ step ∈ steps, step.Above a w.checkpoint) →
    AgreeOn (Cell.beside a) ((w.performSteps steps).2.revertTo w.checkpoint).values w.values

theorem rollsBackBeside_of_journal (hs : w.Sound) (h : ∀ entry ∈ w.journal, entry.address ≠ a) :
    w.RollsBackBeside a := by
  intro steps hsteps
  obtain ⟨left, older, -, hleft, hback⟩ := ((leadsBack_refl hs a).performSteps hsteps).exists_left
  -- No write below the checkpoint can be taken off, so none above it is left.
  have hnone : w.journal.filter (·.address == a) = [] := by
    rw [List.filter_eq_nil_iff]
    intro entry hentry
    simpa using h entry hentry
  have hempty : left = [] := by
    rw [hnone] at hleft
    exact List.length_eq_zero_iff.mp (Nat.le_zero.mp hleft)
  rw [hempty] at hback
  exact hback

/-- At a depth that the journal does not exceed nothing is undone. -/
theorem revertTo_eq_self {c : Checkpoint} (h : w.journal.length ≤ c.depth) : w.revertTo c = w := by
  rw [Accumulator.revertTo, Nat.sub_eq_zero_of_le h]
  rfl

/-- With a write of the address on the journal, forgetting it makes room for one new write. -/
theorem length_journal_forget_le {entry new : JournalEntry} (hentry : entry ∈ w.journal)
    (haddress : entry.address = a) (hnew : w'.journal = new :: w.journal) :
    (w'.forget a).journal.length ≤ w.journal.length := by
  have hfewer : (w.journal.filter (·.address != a)).length < w.journal.length := by
    rw [List.length_filter_lt_length_iff_exists]
    exact ⟨entry, hentry, by simp [haddress]⟩
  show (w'.journal.filter (·.address != a)).length ≤ w.journal.length
  rw [hnew, List.filter_cons]
  split
  · exact hfewer
  · exact hfewer.le

/-- Raises the nonce of an account, which is new if there is none. -/
def raisedNonce (x : Option Account) : Account :=
  { x.getD {} with nonce := (x.getD {}).nonce + 1 }

theorem raisedNonce_ne (x : Option Account) : some (raisedNonce x) ≠ x := by
  intro h
  cases x with
  | none => cases h
  | some x =>
    have hnonce : x.nonce + 1 = x.nonce := congrArg Account.nonce (Option.some.inj h)
    simp at hnonce

/-- If a write below the checkpoint belongs to the address, a write to another account stays when
the address is forgotten: no more is on the journal then than at the checkpoint. -/
theorem not_rollsBackBeside (hs : w.Sound) (hr : w.base.Readable) {entry : JournalEntry}
    (hentry : entry ∈ w.journal) (haddress : entry.address = a) : ¬ w.RollsBackBeside a := by
  have hother : a + 1 ≠ a := by simp
  let op : Operation := .updateAccount (a + 1) fun x => { x with nonce := x.nonce + 1 }
  have hfault : w.base.fault? op.cell = none := hr.fault?_eq_none op.cell
  obtain ⟨written, hrun, hused⟩ := op.isUse.runs hs hfault
  have hrecorded := op.records w hs hfault
  rw [hrun] at hrecorded
  -- Only as much is on the journal as at the checkpoint, so going back leaves the write standing.
  have hstays : (written.forget a).revertTo w.checkpoint = written.forget a :=
    revertTo_eq_self (length_journal_forget_le hentry haddress hrecorded.journal)
  have hvalue : (written.forget a).values.account (a + 1) =
      some (raisedNonce (w.values.account (a + 1))) := by
    have hframe : (written.forget a).values.account (a + 1) = written.values.account (a + 1) :=
      values_forget_of_ne written (c := .account (a + 1)) hother
    rw [hframe, hused.values]
    exact account_setAccount_self ..
  have hsteps : ∀ step ∈ [Step.operation op, .forget a], step.Above a w.checkpoint := by
    intro step hstep
    rcases List.mem_pair.mp hstep with rfl | rfl
    · trivial
    · rfl
  have hrunSteps : (w.performSteps [.operation op, .forget a]).2 = written.forget a := by
    simp only [Accumulator.performSteps, Accumulator.perform, hrun]
  intro h
  have hback := h _ hsteps (.account (a + 1)) hother
  rw [hrunSteps, hstays] at hback
  exact raisedNonce_ne _ (hvalue.symm.trans hback)

/-- Forgetting an address in between is without effect on the rollback of all others, whatever else
is done, exactly if nothing of it is on the journal at the checkpoint. -/
theorem Reached.rollsBackBeside_iff (hr : view.Readable) (h : Reached view w) (a : Address) :
    w.RollsBackBeside a ↔ ∀ entry ∈ w.journal, entry.address ≠ a := by
  obtain ⟨hs, hview⟩ := h.sound_base
  constructor
  · intro hback entry hentry haddress
    exact not_rollsBackBeside hs (hview ▸ hr) hentry haddress hback
  · exact rollsBackBeside_of_journal hs

/-- A payment is on the journal: the paid account may not be forgotten, any other may. -/
theorem rollsBackBeside_payer :
    hollowState.view.Readable ∧ payer.RollsBackBeside 3 ∧ ¬ payer.RollsBackBeside 2 := by
  have hiff := Reached.rollsBackBeside_iff hollowState.readable_view reached_payer
  have hjournal : payer.journal.map (·.address) = [2] := by decide +kernel
  have haddress : ∀ entry ∈ payer.journal, entry.address = 2 := by
    intro entry hentry
    have hmem := List.mem_map_of_mem (f := (·.address)) hentry
    rw [hjournal] at hmem
    exact List.mem_singleton.mp hmem
  refine ⟨hollowState.readable_view, (hiff 3).mpr ?_, fun hback => ?_⟩
  · intro entry hentry
    rw [haddress entry hentry]
    decide
  · obtain ⟨entry, hentry⟩ : ∃ entry, entry ∈ payer.journal := by
      apply List.exists_mem_of_ne_nil
      intro hnil
      rw [hnil] at hjournal
      cases hjournal
    exact (hiff 2).mp hback entry hentry (haddress entry hentry)

/-- After the paid account is forgotten, going back to the checkpoint leaves the payment to another
account that was made after it. -/
theorem payment_stays_after_forgetting :
    hollowState.view.Readable ∧ Reached hollowState.view payer ∧
      payer.values.account 3 = none ∧
      ((payer.performSteps [.operation (.increaseBalance 3 4), .forget 2]).2.revertTo
        payer.checkpoint).values.account 3 = some (.plain 0 4) :=
  ⟨hollowState.readable_view, reached_payer, by decide +kernel, by decide +kernel⟩

end Accumulator

end BlockExecution
