/-
  Computations that keep to certain addresses.

  Such a computation is local, answers whenever the view can be read, and notes
  cells that belong to these addresses. The accesses keep to the address that
  they name.
-/
import BlockExecution.Proofs.State.Execution

namespace BlockExecution.Execution

variable {α β : Type} {x : Execution α} {addresses : Set Address} {a : Address}

/-- The computation is local, and over a readable view it answers and notes cells at `addresses`
only. -/
structure Confined (x : Execution α) (addresses : Set Address) : Prop where
  isLocal : Local x.runOn
  answers : ∀ w : Accumulator, w.Sound → w.base.Readable →
    ∃ y w', x.runOn w = (.ok y, w') ∧ w'.noted ⊆ w.noted ∪ {c | c.address ∈ addresses}

namespace Confined

theorem pure (y : α) (addresses : Set Address) :
    (Pure.pure y : Execution α).Confined addresses where
  isLocal := .executionPure y
  answers w _ _ := ⟨y, w, rfl, Set.subset_union_left⟩

theorem bind (hx : x.Confined addresses) {f : α → Execution β}
    (hf : ∀ y, (f y).Confined addresses) : (x >>= f).Confined addresses where
  isLocal := .executionBind hx.isLocal fun y => (hf y).isLocal
  answers w hw hr := by
    obtain ⟨y, w₁, hrun, hnoted⟩ := hx.answers w hw hr
    have hext := hx.isLocal.grows w hw
    rw [hrun] at hext
    obtain ⟨z, w₂, hrun', hnoted'⟩ := (hf y).answers w₁ hext.sound (hext.base ▸ hr)
    exact ⟨z, w₂, (runOn_bind_of_ok hrun).trans hrun',
      hnoted'.trans (Set.union_subset hnoted Set.subset_union_right)⟩

theorem forM {γ : Type} {items : List γ} {f : γ → Execution Unit}
    (hf : ∀ item ∈ items, (f item).Confined addresses) : (items.forM f).Confined addresses := by
  induction items with
  | nil => exact pure () _
  | cons item rest ih =>
    exact (hf item List.mem_cons_self).bind fun _ =>
      ih fun item' h => hf item' (List.mem_cons_of_mem _ h)

/-- What a confined computation does after a mere read of `c` is what it does without it, but for
the note of the read. -/
theorem run_after_read {w w' : Accumulator} {c : Cell} (hx : x.Confined addresses) (hw : w.Sound)
    (hr : w.base.Readable) (hacc : w.Accessed c w.values [] w') :
    ∃ y w₁ w₂, x.runOn w = (.ok y, w₁) ∧ x.runOn w' = (.ok y, w₂) ∧
      w.Extends w₁ ∧ w₁.noted ⊆ w.noted ∪ {c | c.address ∈ addresses} ∧
      w₂.base = w₁.base ∧ w₂.values = w₁.values ∧ w₂.noted = insert c w₁.noted := by
  have hr' : w'.base.Readable := hacc.base ▸ hr
  obtain ⟨y, w₁, hrun, hnoted⟩ := hx.answers w hw hr
  obtain ⟨y', w₂, hrun', -⟩ := hx.answers w' hacc.sound hr'
  have hext := hx.isLocal.grows w hw
  have hext' := hx.isLocal.grows w' hacc.sound
  -- The read has changed no value, so the computation does the same on both.
  obtain ⟨hanswer, hvalues, region, hmine, hother⟩ :=
    hx.isLocal.of_values_eq hw hr hacc.sound hr' hacc.values
  rw [hrun] at hext hmine
  rw [hrun'] at hext' hother
  rw [hrun, hrun'] at hanswer hvalues
  rw [hacc.noted, Set.insert_union, ← hmine] at hother
  obtain rfl := Except.ok.inj hanswer
  exact ⟨y', w₁, w₂, hrun, hrun', hext, hnoted,
    hext'.base.trans (hacc.base.trans hext.base.symm), hvalues, hother⟩

/-! ## Accesses -/

/-- An access keeps to the address of its cell. -/
theorem of_isAccess {c : Cell} {answer : Snapshot → α} {effect : Snapshot → Snapshot}
    {writes : Snapshot → List JournalEntry} (hx : x.IsAccess c answer effect writes)
    (hc : c.address ∈ addresses) : x.Confined addresses where
  isLocal := hx.isLocal
  answers w hw hr := by
    obtain ⟨w', hrun, -, hacc⟩ := hx.answers hw hr
    refine ⟨_, w', hrun, ?_⟩
    rw [hacc.noted]
    rintro d (rfl | hd)
    · exact .inr hc
    · exact .inl hd

theorem account (h : a ∈ addresses) : (Execution.account a).Confined addresses :=
  of_isAccess (isAccess_account a) h

theorem writeAccount (h : a ∈ addresses) (f : Option Account → Option Account) :
    (ofWrite (·.writeAccount a f)).Confined addresses :=
  of_isAccess (isAccess_writeAccount a f) h

theorem updateAccount (h : a ∈ addresses) (f : Account → Account) :
    (Execution.updateAccount a f).Confined addresses :=
  writeAccount h _

theorem deleteAccount (h : a ∈ addresses) : (Execution.deleteAccount a).Confined addresses :=
  writeAccount h _

theorem setSlot {k : StorageKey} (h : k.address ∈ addresses) (value : Word) :
    (Execution.setSlot k value).Confined addresses :=
  of_isAccess (isAccess_setSlot k value) h

theorem deleteIfEmpty (h : a ∈ addresses) : (Execution.deleteIfEmpty a).Confined addresses where
  isLocal := .deleteIfEmpty a
  answers w hw hr := by
    have htwo : (Execution.account a >>= fun found : Option Account =>
        if found.any (·.isEmpty) then Execution.deleteAccount a
        else Pure.pure ()).Confined addresses := by
      apply (account h).bind
      intro found
      split
      · exact deleteAccount h
      · exact pure () _
    rw [runOn_deleteIfEmpty hw]
    exact htwo.answers w hw hr

end Confined

end BlockExecution.Execution
