/-
  Operations on different cells in either order.

  What an accumulator shows are its values and the accesses that it has noted.
  An operation changes both at its own cell only, and what it does there depends
  on nothing else. Operations on different cells may therefore be swapped, and so
  may whole sequences of operations that have no cell in common.
-/
import BlockExecution.Proofs.State.NetChange
import BlockExecution.Proofs.State.Record

namespace BlockExecution

open BlockExecution.Snapshot

/-! ## Swapping steps of a fold -/

/-- A map may be applied before a fold instead of after it, if it may be moved past each step. -/
theorem map_foldl_of_comm {σ ι : Type} {f : σ → ι → σ} {g : σ → σ} {items : List ι}
    (h : ∀ s, ∀ i ∈ items, g (f s i) = f (g s) i) (s : σ) :
    g (items.foldl f s) = items.foldl f (g s) := by
  induction items generalizing s with
  | nil => rfl
  | cons i rest ih =>
    rw [List.foldl_cons, List.foldl_cons, ← h s i List.mem_cons_self]
    exact ih (fun s j hj => h s j (List.mem_cons_of_mem _ hj)) (f s i)

/-- Two folds may be swapped if any two of their steps may. -/
theorem foldl_foldl_comm {σ ι κ : Type} {f : σ → ι → σ} {g : σ → κ → σ} {items : List ι}
    {others : List κ} (h : ∀ s, ∀ i ∈ items, ∀ j ∈ others, g (f s i) j = f (g s j) i) (s : σ) :
    others.foldl g (items.foldl f s) = items.foldl f (others.foldl g s) :=
  map_foldl_of_comm (g := fun s => others.foldl g s)
    (fun s i hi =>
      (map_foldl_of_comm (g := fun s => f s i) (fun s j hj => (h s i hi j hj).symm) s).symm) s

/-! ## Notes of accesses -/

theorem Table.alter_some_right_comm {K V : Type} [Ord K] [Std.TransOrd K] [Std.LawfulEqOrd K]
    (t : Table K V) (k l : K) (f g : Option V → V)
    (h : ∀ old, g (some (f old)) = f (some (g old))) :
    (t.alter k fun old => some (f old)).alter l (fun old => some (g old)) =
      (t.alter l fun old => some (g old)).alter k fun old => some (f old) := by
  apply Std.ExtTreeMap.ext_getElem?
  intro a
  simp only [Std.ExtTreeMap.getElem?_alter, Std.LawfulEqOrd.compare_eq_iff_eq]
  by_cases hk : k = a
  · by_cases hl : l = a
    · -- Both change the one entry.
      subst hk hl
      simp [h]
    · simp [hk, hl]
  · by_cases hl : l = a <;> simp [hk, hl]

/-- The order in which accesses are noted is not kept. -/
theorem TouchTracker.record_right_comm (t : TouchTracker) (c d : Cell) (x y : Access) :
    (t.record c x).record d y = (t.record d y).record c x := by
  cases c with
  | account a =>
    cases d with
    | account b =>
      have htables := Table.alter_some_right_comm t.accounts a b
        (fun old => (old.getD {}).record x) (fun old => (old.getD {}).record y)
        fun old => Touch.record_right_comm (old.getD {}) x y
      simp only [record, recordAccount, htables]
    | slot k => rfl
  | slot k =>
    cases d with
    | account b => rfl
    | slot l =>
      have htables := Table.alter_some_right_comm t.slots k l
        (fun old => (old.getD {}).record x) (fun old => (old.getD {}).record y)
        fun old => Touch.record_right_comm (old.getD {}) x y
      simp only [record, recordSlot, htables]

/-! ## Operations on what is shown -/

/-- What an accumulator shows: the value of every cell, and the accesses noted so far. -/
structure Shown where
  values : Snapshot
  tracker : TouchTracker

/-- What an accumulator shows. -/
def Accumulator.shown (w : Accumulator) : Shown := ⟨w.values, w.tracker⟩

namespace Operation

variable {op op' : Operation} {u v : Snapshot}

/-- An operation changes no cell but its own. -/
theorem effect_frame (op : Operation) (u : Snapshot) {c : Cell} (hc : c ≠ op.cell) :
    (op.effect u).AgreeAt u c := by
  cases op with
  | account a => exact .refl u c
  | slot k => exact .refl u c
  | updateAccount a f => exact agreeAt_setAccount hc u _
  | increaseBalance a amount => exact agreeAt_setAccount hc u _
  | setSlot k value => exact agreeAt_setSlot hc u value
  | deleteAccount a => exact agreeAt_setAccount hc u none
  | deleteIfEmpty a =>
    simp only [effect, clear]
    split
    · exact agreeAt_setAccount hc u none
    · exact .refl u c

/-- What becomes of the cell depends on what is there. -/
theorem effect_congr (op : Operation) (h : u.AgreeAt v op.cell) :
    (op.effect u).AgreeAt (op.effect v) op.cell := by
  cases op with
  | account a => exact h
  | slot k => exact h
  | updateAccount a f =>
    have hvalue : u.account a = v.account a := h
    simp [AgreeAt, cell, effect, update, hvalue]
  | increaseBalance a amount =>
    have hvalue : u.account a = v.account a := h
    simp [AgreeAt, cell, effect, credit, update, hvalue]
  | setSlot k value => simp [AgreeAt, cell, effect]
  | deleteAccount a => simp [AgreeAt, cell, effect]
  | deleteIfEmpty a =>
    have hvalue : u.account a = v.account a := h
    simp only [AgreeAt, cell, effect, clear, hvalue]
    split
    · simp
    · exact hvalue

/-- So does what it notes. -/
theorem accesses_congr (op : Operation) (h : u.AgreeAt v op.cell) :
    op.accesses u = op.accesses v := by
  cases op with
  | deleteIfEmpty a =>
    have hvalue : u.account a = v.account a := h
    simp only [accesses, hvalue]
  | _ => rfl

/-- Operations on different cells leave the same values in either order. -/
theorem effect_comm (h : op.cell ≠ op'.cell) (u : Snapshot) :
    op'.effect (op.effect u) = op.effect (op'.effect u) := by
  have hother : (op'.effect u).AgreeAt u op.cell := op'.effect_frame u h
  have hown : (op.effect u).AgreeAt u op'.cell := op.effect_frame u h.symm
  apply ext_agreeAt
  intro c
  by_cases hc : c = op.cell
  · -- The other operation passes over this cell, before or after.
    subst hc
    exact (op'.effect_frame _ h).trans (op.effect_congr hother.symm)
  · by_cases hc' : c = op'.cell
    · subst hc'
      exact (op'.effect_congr hown).trans (op.effect_frame _ hc).symm
    · have hleft := (op'.effect_frame (op.effect u) hc').trans (op.effect_frame u hc)
      have hright := (op.effect_frame (op'.effect u) hc).trans (op'.effect_frame u hc')
      exact hleft.trans hright.symm

/-- What is shown after an operation. -/
def act (op : Operation) (s : Shown) : Shown where
  values := op.effect s.values
  tracker := (op.accesses s.values).foldl (·.record op.cell ·) s.tracker

/-- What is shown after operations. -/
def acts (ops : List Operation) (s : Shown) : Shown := ops.foldl (fun s op => op.act s) s

theorem acts_append (ops ops' : List Operation) (s : Shown) :
    acts (ops ++ ops') s = acts ops' (acts ops s) :=
  List.foldl_append

/-- Operations on different cells may be swapped. -/
theorem act_comm (h : op.cell ≠ op'.cell) (s : Shown) :
    op'.act (op.act s) = op.act (op'.act s) := by
  have hnotes : op'.accesses (op.effect s.values) = op'.accesses s.values :=
    op'.accesses_congr (op.effect_frame s.values h.symm)
  have hnotes' : op.accesses (op'.effect s.values) = op.accesses s.values :=
    op.accesses_congr (op'.effect_frame s.values h)
  have hvalues := effect_comm h s.values
  have htracker :
      (op'.accesses s.values).foldl (·.record op'.cell ·)
          ((op.accesses s.values).foldl (·.record op.cell ·) s.tracker) =
        (op.accesses s.values).foldl (·.record op.cell ·)
          ((op'.accesses s.values).foldl (·.record op'.cell ·) s.tracker) :=
    foldl_foldl_comm (fun t x _ y _ => t.record_right_comm op.cell op'.cell x y) s.tracker
  simp only [act, hnotes, hnotes', hvalues, htracker]

/-- Sequences of operations without a common cell may be swapped. -/
theorem acts_comm {ops ops' : List Operation}
    (h : ∀ op ∈ ops, ∀ op' ∈ ops', op.cell ≠ op'.cell) (s : Shown) :
    acts ops' (acts ops s) = acts ops (acts ops' s) :=
  foldl_foldl_comm (fun s op hop op' hop' => act_comm (h op hop op' hop') s) s

/-- Parts of a sequence of operations may be put in any order, if different parts have no cell in
common. -/
theorem acts_flatMap_perm {ι : Type} {parts parts' : List ι} {ops : ι → List Operation}
    (hperm : parts.Perm parts')
    (h : ∀ i ∈ parts, ∀ j ∈ parts, i ≠ j → ∀ op ∈ ops i, ∀ op' ∈ ops j, op.cell ≠ op'.cell)
    (s : Shown) : acts (parts.flatMap ops) s = acts (parts'.flatMap ops) s := by
  simp only [acts, List.foldl_flatMap]
  refine hperm.foldl_eq' (fun i hi j hj s => ?_) s
  by_cases hij : i = j
  · rw [hij]
  · exact acts_comm (h i hi j hj hij) s

end Operation

/-! ## Executions that carry out operations -/

namespace Execution

variable {α β : Type} {x : Execution α}

/-- Over a readable view the execution answers, and it shows what these operations leave. -/
def CarriesOut (x : Execution α) (ops : List Operation) : Prop :=
  ∀ w : Accumulator, w.Sound → w.base.Readable →
    ∃ a w', x.runOn w = (.ok a, w') ∧ w.Extends w' ∧ w'.shown = Operation.acts ops w.shown

namespace CarriesOut

theorem pure (a : α) : (Pure.pure a : Execution α).CarriesOut [] :=
  fun w hs _ => ⟨a, w, rfl, .refl hs, rfl⟩

theorem bind {f : α → Execution β} {ops ops' : List Operation} (hx : x.CarriesOut ops)
    (hf : ∀ a, (f a).CarriesOut ops') : (x >>= f).CarriesOut (ops ++ ops') := by
  intro w hs hr
  obtain ⟨a, w₁, hrun, hext, hshown⟩ := hx w hs hr
  obtain ⟨b, w₂, hrun', hext', hshown'⟩ := hf a w₁ hext.sound (hext.base ▸ hr)
  refine ⟨b, w₂, (runOn_bind_of_ok hrun).trans hrun', hext.trans hext', ?_⟩
  rw [hshown', hshown, Operation.acts_append]

theorem forM {ι : Type} {f : ι → Execution Unit} {ops : ι → List Operation}
    (hf : ∀ i, (f i).CarriesOut (ops i)) (items : List ι) :
    (items.forM f).CarriesOut (items.flatMap ops) := by
  induction items with
  | nil => exact pure ()
  | cons i rest ih => exact (hf i).bind fun _ => ih

/-- A use of a cell with what it records is an operation of its own. -/
theorem of_isUse (op : Operation) {answer : Snapshot → α} {writes : Snapshot → List JournalEntry}
    (huse : x.IsUse op.cell answer op.effect) (hrecords : x.Records op.cell op.accesses writes) :
    x.CarriesOut [op] := by
  intro w hs hr
  have hreadable : w.base.fault? op.cell = none := hr.fault?_eq_none op.cell
  obtain ⟨w', hrun, hused⟩ := huse.runs hs hreadable
  have htracker := (hrecords w hs hreadable).tracker
  rw [hrun] at htracker
  refine ⟨_, w', hrun, hused.grown, ?_⟩
  show (⟨w'.values, w'.tracker⟩ : Shown) = ⟨op.effect w.values, _⟩
  rw [hused.values, htracker]
  rfl

theorem updateAccount (a : Address) (f : Account → Account) :
    (Execution.updateAccount a f).CarriesOut [.updateAccount a f] :=
  of_isUse (.updateAccount a f) (isUse_updateAccount a f) (records_updateAccount a f)

theorem deleteAccount (a : Address) :
    (Execution.deleteAccount a).CarriesOut [.deleteAccount a] :=
  of_isUse (.deleteAccount a) (isUse_deleteAccount a) (records_deleteAccount a)

theorem setSlot (k : StorageKey) (value : Word) :
    (Execution.setSlot k value).CarriesOut [.setSlot k value] :=
  of_isUse (.setSlot k value) (isUse_setSlot k value) (records_setSlot k value)

theorem deleteIfEmpty (a : Address) :
    (Execution.deleteIfEmpty a).CarriesOut [.deleteIfEmpty a] :=
  of_isUse (.deleteIfEmpty a) (isUse_deleteIfEmpty a) (records_deleteIfEmpty a)

end CarriesOut

/-- Executions that carry out operations with the same outcome end alike: with the same values, the
same notes and the same changes. -/
theorem CarriesOut.alike {x y : Execution Unit} {ops ops' : List Operation}
    (hx : x.CarriesOut ops) (hy : y.CarriesOut ops')
    (hops : ∀ s, Operation.acts ops s = Operation.acts ops' s) {w : Accumulator} (hs : w.Sound)
    (hr : w.base.Readable) :
    ∃ w₁ w₂, x.runOn w = (.ok (), w₁) ∧ y.runOn w = (.ok (), w₂) ∧ w₁.values = w₂.values ∧
      w₁.tracker = w₂.tracker ∧ w₁.changes = w₂.changes := by
  obtain ⟨_, w₁, hrun, hext, hshown⟩ := hx w hs hr
  obtain ⟨_, w₂, hrun', hext', hshown'⟩ := hy w hs hr
  have hsame : w₁.shown = w₂.shown := by rw [hshown, hshown', hops]
  have hvalues : w₁.values = w₂.values := congrArg Shown.values hsame
  have hbase : w₁.base = w₂.base := hext.base.trans hext'.base.symm
  exact ⟨w₁, w₂, hrun, hrun', hvalues, congrArg Shown.tracker hsame,
    (Accumulator.changes_eq_iff hext.sound hext'.sound hbase).mpr hvalues⟩

end Execution

end BlockExecution
